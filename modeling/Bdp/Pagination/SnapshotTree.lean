import Bdp.Pagination.SnapshotCopy

/-!
# The JSON tree of a value

A value of the program unfolds to a JSON tree along its objects, each as often as it occurs. The
bytes and the values of the tree are sums over these occurrences.
-/

namespace Bdp.JsonTree

variable {L : Type}

mutual

def valueCount : JsonTree L → ℕ
  | .leaf _ => 1
  | .array items => 1 + itemCount items
  | .object members => 1 + memberCount members

def itemCount : List (JsonTree L) → ℕ
  | [] => 0
  | item :: items => item.valueCount + itemCount items

def memberCount : List (Text × JsonTree L) → ℕ
  | [] => 0
  | (_, value) :: members => value.valueCount + memberCount members

end

theorem itemCount_map_snd (members : List (Text × JsonTree L)) :
    itemCount (members.map Prod.snd) = memberCount members := by
  induction members with
  | nil => rfl
  | cons member members ih => rw [List.map_cons, itemCount, ih, memberCount]

end Bdp.JsonTree

namespace Bdp.Pagination

open CodeUnits

/-- `JSON.stringify` of a primitive value. -/
def Primitive.text : Primitive → Text
  | .null => ascii ['n', 'u', 'l', 'l']
  | .boolean true => ascii ['t', 'r', 'u', 'e']
  | .boolean false => ascii ['f', 'a', 'l', 's', 'e']
  | .string value => quote value
  | .number value => value.text

section Strings

theorem utf8Length_of_ascii {text : Text} (h : ∀ unit ∈ text, unit < 0x80) :
    utf8Length text = text.length := by
  induction text with
  | nil => rfl
  | cons unit rest ih =>
    obtain ⟨hunit, hrest⟩ := List.forall_mem_cons.mp h
    rw [utf8Length_ascii hunit, ih hrest, List.length_cons, Nat.add_comm]

theorem hexDigit_lt {value : ℕ} (h : value < 16) : hexDigit value < 0x80 := by
  unfold hexDigit
  split <;> omega

theorem utf8Length_unicodeEscape (unit : ℕ) (rest : Text) :
    utf8Length (unicodeEscape unit ++ rest) = 6 + utf8Length rest := by
  have hdigit (value : ℕ) : hexDigit (value % 16) < 0x80 := hexDigit_lt (by omega)
  simp only [unicodeEscape, List.cons_append, List.nil_append]
  rw [utf8Length_ascii (by decide), utf8Length_ascii (by decide), utf8Length_ascii (hdigit _),
    utf8Length_ascii (hdigit _), utf8Length_ascii (hdigit _), utf8Length_ascii (hdigit _)]
  omega

variable {unit : ℕ}

theorem shortEscape_isSome :
    (shortEscape unit).isSome ↔ unit = 0x22 ∨ unit = 0x5c ∨ unit = 0x08 ∨ unit = 0x09 ∨
      unit = 0x0a ∨ unit = 0x0c ∨ unit = 0x0d := by
  unfold shortEscape
  split_ifs <;> simp <;> omega

theorem shortEscape_lt {letter : ℕ} (h : shortEscape unit = some letter) : letter < 0x80 := by
  unfold shortEscape at h
  split_ifs at h <;> cases h <;> decide

theorem utf8Length_escapeUnit (hhigh : isHigh unit = false) (rest : Text) :
    utf8Length (escapeUnit unit ++ rest) =
      (if (shortEscape unit).isSome then 2 else if unit < 0x20 then 6 else unitBytes unit) +
        utf8Length rest := by
  unfold escapeUnit
  cases hshort : shortEscape unit with
  | some letter =>
    simp only [List.cons_append, List.nil_append, Option.isSome_some, if_true]
    rw [utf8Length_ascii (by decide), utf8Length_ascii (shortEscape_lt hshort)]
    omega
  | none =>
    by_cases hcontrol : unit < 32
    · simp [hcontrol, utf8Length_unicodeEscape]
    · simp [hcontrol, utf8Length_cons hhigh]

variable {rest : Text} {code : ℕ}

theorem characterBytes_lone (hsurrogate : 0xd800 ≤ code ∧ code ≤ 0xdfff)
    (hlone : ¬ (code ≤ 0xdbff ∧ (rest.head?.any isLow) = true)) :
    characterBytes (code :: rest) = 6 :: characterBytes rest := by
  rw [characterBytes.eq_def]
  dsimp only
  rw [if_neg (by omega), if_pos (.inr ⟨hsurrogate.1, hsurrogate.2, hlone⟩)]

theorem characterBytes_pair {next : ℕ} (hhigh : isHigh code = true) (hlow : isLow next = true) :
    characterBytes (code :: next :: rest) = 4 :: characterBytes rest := by
  have hcode : 0xd800 ≤ code ∧ code ≤ 0xdbff := of_decide_eq_true hhigh
  rw [characterBytes, if_neg (by omega), if_neg, if_neg (by omega), if_neg (by omega), if_pos hcode]
  rintro (hcontrol | ⟨-, -, hlone⟩)
  · omega
  · exact hlone ⟨hcode.2, hlow⟩

theorem characterBytes_unit (hhigh : isHigh code = false) (hlow : isLow code = false) :
    characterBytes (code :: rest) =
      (if (shortEscape code).isSome then 2 else if code < 0x20 then 6 else unitBytes code) ::
        characterBytes rest := by
  have hcode : ¬ (0xd800 ≤ code ∧ code ≤ 0xdfff) := by
    simp only [isHigh, isLow, decide_eq_false_iff_not] at hhigh hlow
    omega
  rw [characterBytes.eq_def]
  dsimp only
  by_cases hshort : (shortEscape code).isSome
  · rw [if_pos (shortEscape_isSome.mp hshort), if_pos hshort]
  · rw [if_neg (mt shortEscape_isSome.mpr hshort), if_neg hshort]
    by_cases hcontrol : code ≤ 0x1f
    · rw [if_pos (.inl hcontrol), if_pos (by omega)]
    · rw [if_neg (by omega)]
      unfold unitBytes
      split_ifs <;> first | rfl | omega

theorem sum_characterBytes (value : Text) :
    (characterBytes value).sum = utf8Length (escapeText value) := by
  fun_induction escapeText value with
  | case1 => rfl
  | case2 unit hhigh =>
    have hcode : 0xd800 ≤ unit ∧ unit ≤ 0xdbff := of_decide_eq_true hhigh
    rw [characterBytes_lone ⟨hcode.1, by omega⟩ (by simp), ← List.append_nil (unicodeEscape unit),
      utf8Length_unicodeEscape]
    rfl
  | case3 unit hhigh next rest hlow ih =>
    rw [characterBytes_pair hhigh hlow, List.sum_cons, ih, utf8Length, if_pos ⟨hhigh, hlow⟩]
  | case4 unit hhigh next rest hlow ih =>
    have hcode : 0xd800 ≤ unit ∧ unit ≤ 0xdbff := of_decide_eq_true hhigh
    rw [characterBytes_lone ⟨hcode.1, by omega⟩ (fun h ↦ hlow (by simpa using h.2)),
      List.sum_cons, ih, utf8Length_unicodeEscape]
  | case5 unit rest hhigh hlow ih =>
    have hcode : 0xdc00 ≤ unit ∧ unit ≤ 0xdfff := of_decide_eq_true hlow
    rw [characterBytes_lone ⟨by omega, hcode.2⟩ (by omega), List.sum_cons, ih,
      utf8Length_unicodeEscape]
  | case6 unit rest hhigh hlow ih =>
    have hhigh' : isHigh unit = false := Bool.eq_false_iff.mpr hhigh
    rw [characterBytes_unit hhigh' (Bool.eq_false_iff.mpr hlow), List.sum_cons, ih,
      utf8Length_escapeUnit hhigh']

theorem sum_jsonStringBytes (value : Text) :
    (jsonStringBytes value).sum = utf8Length (quote value) := by
  have hclose : utf8Length [34] = 1 := rfl
  rw [jsonStringBytes, List.sum_cons, sum_characterBytes, quote, utf8Length_ascii (by decide),
    utf8Length_append_ascii _ (by decide)]
  simp only [utf8Length]
  omega

theorem sum_charges (value : Primitive) : value.charges.sum = utf8Length value.text := by
  cases value with
  | null => rfl
  | boolean value => cases value <;> rfl
  | string value => exact sum_jsonStringBytes value
  | number value => exact (utf8Length_of_ascii value.ascii).symm

end Strings

variable {α : Type}

section Objects

def JsObject.valueAt (source : JsObject α) (key : Text) : Value α :=
  match source.property key with
  | some (.data value) => value
  | _ => .nonJson

/-- An object that the walk can copy: dense if it is an array, and with data properties. -/
structure JsObject.Plain (source : JsObject α) : Prop where
  isProxy : source.isProxy = false
  prototype : source.plainPrototype = true
  symbols : source.symbols.any id = false
  dense : source.isArray = true → source.keys.length = source.length
  data : ∀ key ∈ source.entryKeys, source.property key = some (.data (source.valueAt key))

/-- The tree of an object with the given entries. -/
def JsObject.treeOf (source : JsObject α) (members : List (Text × JsonTree Primitive)) :
    JsonTree Primitive :=
  if source.isArray then .array (members.map Prod.snd) else .object members

/-- What unfolds: a value, or the entries of an object under some keys. -/
inductive Shape (α : Type) where
  | value (input : Value α) (tree : JsonTree Primitive)
  | entries (source : JsObject α) (keys : List Text) (members : List (Text × JsonTree Primitive))

variable (heap : α → JsObject α)

/-- A value unfolds to a tree, and the list has each object as often as it occurs. There is no tree
for a value that is not made of plain objects, nor for one with a cycle. -/
inductive Unfolds : Shape α → List α → Prop
  | primitive (value : Primitive) : Unfolds (.value (.primitive value) (.leaf value)) []
  | object {address : α} {members : List (Text × JsonTree Primitive)} {occurrences : List α}
      (plain : (heap address).Plain)
      (entries : Unfolds (.entries (heap address) (heap address).entryKeys members) occurrences) :
      Unfolds (.value (.object address) ((heap address).treeOf members)) (address :: occurrences)
  | nil (source : JsObject α) : Unfolds (.entries source [] []) []
  | cons {source : JsObject α} {key : Text} {keys : List Text} {tree : JsonTree Primitive}
      {members : List (Text × JsonTree Primitive)} {occurrences others : List α}
      (head : Unfolds (.value (source.valueAt key) tree) occurrences)
      (tail : Unfolds (.entries source keys members) others) :
      Unfolds (.entries source (key :: keys) ((key, tree) :: members)) (occurrences ++ others)

/-- The bytes of a value apart from the objects in it. -/
def Value.ownBytes : Value α → ℕ
  | .primitive value => value.charges.sum
  | _ => 0

/-- The bytes of an object apart from the objects in it. -/
def JsObject.ownBytes (source : JsObject α) : ℕ :=
  source.bracketBytes +
    (source.entryKeys.map fun key ↦
      (source.keyCharges key).sum + (source.valueAt key).ownBytes).sum

end Objects

section Accounts

variable {heap : α → JsObject α}
variable {source : JsObject α}

theorem JsObject.Plain.length_entryKeys (h : source.Plain) :
    source.entryKeys.length = source.keys.length := by
  unfold entryKeys
  split
  · next harray => rw [List.length_map, List.length_range, h.dense harray]
  · rfl

theorem utf8Length_treeOf (h : source.Plain) {members : List (Text × JsonTree Primitive)}
    (hkeys : members.map Prod.fst = source.entryKeys) :
    utf8Length ((source.treeOf members).text Primitive.text) = source.bracketBytes +
      (members.map fun member ↦ (source.keyCharges member.1).sum +
        utf8Length (member.2.text Primitive.text)).sum := by
  have hlength : members.length = source.keys.length := by
    rw [← h.length_entryKeys, ← hkeys, List.length_map]
  unfold JsObject.treeOf JsObject.bracketBytes JsObject.keyCharges
  cases harray : source.isArray with
  | true =>
    rw [if_pos rfl, if_pos rfl, JsonTree.text, utf8Length_brackets (by decide) (by decide),
      JsonTree.itemTexts_eq_map, ← h.dense harray, ← hlength]
    simp [List.map_map, Function.comp_def]
    omega
  | false =>
    have hmember (member : Text × JsonTree Primitive) :
        utf8Length (quote member.1 ++ 58 :: member.2.text Primitive.text) =
          (jsonStringBytes member.1 ++ [1]).sum + utf8Length (member.2.text Primitive.text) := by
      rw [utf8Length_append_ascii _ (by decide), List.sum_append, sum_jsonStringBytes]
      rfl
    simp only [Bool.false_eq_true, if_false]
    rw [JsonTree.text, utf8Length_brackets (by decide) (by decide), JsonTree.memberTexts_eq_map,
      List.map_map, List.length_map, ← hlength]
    simp only [Function.comp_def, hmember]
    omega

/-- The claim of the accounts for the shapes that unfold. -/
def Accounted (heap : α → JsObject α) (occurrences : List α) : Shape α → Prop
  | .value input tree =>
    utf8Length (tree.text Primitive.text) =
        input.ownBytes + (occurrences.map fun address ↦ (heap address).ownBytes).sum ∧
      tree.valueCount = 1 + (occurrences.map fun address ↦ (heap address).keys.length).sum
  | .entries source keys members =>
    members.map Prod.fst = keys ∧
      (members.map fun member ↦ (source.keyCharges member.1).sum +
          utf8Length (member.2.text Primitive.text)).sum =
        (keys.map fun key ↦ (source.keyCharges key).sum + (source.valueAt key).ownBytes).sum +
          (occurrences.map fun address ↦ (heap address).ownBytes).sum ∧
      JsonTree.memberCount members =
        keys.length + (occurrences.map fun address ↦ (heap address).keys.length).sum

theorem Unfolds.accounted {shape : Shape α} {occurrences : List α}
    (h : Unfolds heap shape occurrences) : Accounted heap occurrences shape := by
  induction h with
  | primitive value => exact ⟨(sum_charges value).symm, rfl⟩
  | @object address members occurrences plain _ ih =>
    obtain ⟨hkeys, hbytes, hcount⟩ := ih
    refine ⟨?_, ?_⟩
    · rw [utf8Length_treeOf plain hkeys, hbytes, List.map_cons, List.sum_cons]
      simp only [Value.ownBytes, JsObject.ownBytes]
      omega
    · have htree :
          ((heap address).treeOf members).valueCount = 1 + JsonTree.memberCount members := by
        unfold JsObject.treeOf
        split
        · rw [JsonTree.valueCount, JsonTree.itemCount_map_snd]
        · rfl
      rw [htree, hcount, plain.length_entryKeys, List.map_cons, List.sum_cons]
  | nil source => exact ⟨rfl, rfl, rfl⟩
  | cons _ _ ihHead ihTail =>
    obtain ⟨hbytes, hcount⟩ := ihHead
    obtain ⟨hkeys, hbytes', hcount'⟩ := ihTail
    refine ⟨?_, ?_, ?_⟩
    · rw [List.map_cons, hkeys]
    · simp only [List.map_cons, List.sum_cons, List.map_append, List.sum_append]
      omega
    · rw [JsonTree.memberCount, List.map_append, List.sum_append, List.length_cons]
      omega

end Accounts

end Bdp.Pagination
