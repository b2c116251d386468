import Bdp.Admission.Serialize

/-!
# The text of a semantic identity

`encodeSemanticValue` over exact texts: the stack of values and texts that it works off, the
members of every object in the order of their code units, and numbers by their exact coefficient
and exponent. The text is the compact text of a tree of tagged arrays, from which the value can be
told up to JSON equality.
-/

namespace Bdp.Admission

open CodeUnits JsonGrammar
open List (map_cons mem_cons_of_mem forall_mem_cons mem_cons_self forall_mem_singleton mem_map)

variable (members : List (Text × JsonTree SemanticLeaf))
variable {right left : List (Text × JsonTree SemanticLeaf)}

section Definitions

/-- A value without parts; `unbound` is the private sentinel of an unbound reference. -/
inductive SemanticLeaf where
  | null
  | bool (value : Bool)
  | string (value : Text)
  | number (literal : Text)
  | unbound

def ScalarSemanticLeaf : SemanticLeaf → Prop
  | .string value => ¬ HasLoneSurrogate value
  | .number literal => IsNumber literal
  | _ => True

/-- Plain data with scalar strings and valid number literals, members in any order. -/
structure SemanticValue where
  tree : JsonTree SemanticLeaf
  wellNamed : tree.WellNamed ScalarName ScalarSemanticLeaf

def SEMANTIC_VALUE_FORMAT : Text := ascii "ru-semantic-value-1".toList

/-- Coefficient and exponent of a number, as texts. -/
def exactNumber (literal : Text) : Except String (Text × Text) :=
  match numberParts literal with
  | none => .error "semantic number must be a JSON number literal"
  | some parts =>
    let digits := Decimal.dropZeros (parts.integer ++ parts.fraction)
    if digits = [] then .ok ([48], [48])
    else
      let trailing := Decimal.trailingZeros digits
      let coefficient := minusText parts.negative ++ digits.take (digits.length - trailing)
      let exponent := parts.power - parts.fraction.length + trailing
      .ok (coefficient, Decimal.integerText exponent)

/-- `JSON.stringify` of a scalar string. -/
def semanticString (value : Text) : Except String Text :=
  if isUnicodeScalarString value then .ok (quote value)
  else .error "semantic strings must be scalar Unicode"

def leafNode : SemanticLeaf → Except String Text
  | .null => .ok (ascii ['[', '"', 'n', 'u', 'l', 'l', '"', ']'])
  | .unbound => .ok (ascii ['[', '"', 'u', 'n', 'b', 'o', 'u', 'n', 'd', '"', ']'])
  | .bool value => .ok (ascii ['[', '"', 'b', 'o', 'o', 'l', 'e', 'a', 'n', '"', ','] ++
      (boolText value ++ [93]))
  | .string value => (semanticString value).map fun text ↦
      ascii ['[', '"', 's', 't', 'r', 'i', 'n', 'g', '"', ','] ++ (text ++ [93])
  | .number literal => (exactNumber literal).map fun exact ↦
      ascii ['[', '"', 'n', 'u', 'm', 'b', 'e', 'r', '"', ','] ++
        (quote exact.1 ++ 44 :: (quote exact.2 ++ [93]))

/-- Members in the order of the code units of their names. -/
def sortMembers {α : Type} (members : List (Text × α)) : List (Text × α) :=
  members.insertionSort fun left right ↦ left.1 ≤ right.1

/-- The tasks of a member: its name, its value and the end of the pair. -/
def pairTasks (member : Text × JsonTree SemanticLeaf) : List (JsonTree.Task SemanticLeaf) :=
  [.text (91 :: (quote member.1 ++ [44])), .value member.2, .text [93]]

def objectTasks : List (Text × JsonTree SemanticLeaf) → List (JsonTree.Task SemanticLeaf)
  | [] => []
  | [member] => pairTasks member
  | member :: next :: rest => pairTasks member ++ .text [44] :: objectTasks (next :: rest)

def arrayOpening : Text := ascii ['[', '"', 'a', 'r', 'r', 'a', 'y', '"', ',', '[']

def objectOpening : Text := ascii ['[', '"', 'o', 'b', 'j', 'e', 'c', 't', '"', ',', '[']

theorem membersWeight_perm
    (h : left.Perm right) : JsonTree.membersWeight left = JsonTree.membersWeight right := by
  induction h with
  | nil => rfl
  | cons member _ ih => simp only [JsonTree.membersWeight, ih]
  | swap first second _ =>
    simp only [JsonTree.membersWeight]
    omega
  | trans _ _ ih ih' => exact ih.trans ih'

theorem objectTasks_weight :
    JsonTree.tasksWeight (objectTasks members) ≤ JsonTree.membersWeight members := by
  fun_induction objectTasks members with
  | case1 => exact Nat.zero_le _
  | case2 member =>
    simp only [pairTasks, JsonTree.tasksWeight_cons, JsonTree.Task.weight, JsonTree.membersWeight]
    simp [JsonTree.tasksWeight]
    omega
  | case3 member next rest ih =>
    simp only [pairTasks, JsonTree.tasksWeight_append, JsonTree.tasksWeight_cons, JsonTree.Task.weight,
      JsonTree.membersWeight] at ih ⊢
    simp [JsonTree.tasksWeight] at ih ⊢
    omega

/-- The loop over the pending work. A tree has no cycles, so the ancestors need no check. -/
def encodeTasks : List (JsonTree.Task SemanticLeaf) → Except String Text
  | [] => .ok []
  | .text text :: tasks => (encodeTasks tasks).map (text ++ ·)
  | .value (.leaf value) :: tasks =>
    match leafNode value with
    | .error message => .error message
    | .ok node => (encodeTasks tasks).map (node ++ ·)
  | .value (.array items) :: tasks =>
    (encodeTasks (JsonTree.itemTasks items ++ .text [93, 93] :: tasks)).map (arrayOpening ++ ·)
  | .value (.object members) :: tasks =>
    if members.all fun member ↦ isUnicodeScalarString member.1 then
      (encodeTasks (objectTasks (sortMembers members) ++ .text [93, 93] :: tasks)).map
        (objectOpening ++ ·)
    else .error "semantic strings must be scalar Unicode"
  termination_by tasks => JsonTree.tasksWeight tasks
  decreasing_by
  · simp [JsonTree.tasksWeight_cons, JsonTree.Task.weight]
  · simp [JsonTree.tasksWeight_cons, JsonTree.Task.weight, JsonTree.weight]
  · have := JsonTree.itemTasks_weight items
    simp only [JsonTree.tasksWeight_append, JsonTree.tasksWeight_cons, JsonTree.Task.weight,
      JsonTree.weight]
    omega
  · have := objectTasks_weight (sortMembers members)
    have hsort : JsonTree.membersWeight (sortMembers members) = JsonTree.membersWeight members :=
      membersWeight_perm (List.perm_insertionSort _ members)
    simp only [JsonTree.tasksWeight_append, JsonTree.tasksWeight_cons, JsonTree.Task.weight,
      JsonTree.weight]
    omega

def encodeSemanticValue (value : JsonTree SemanticLeaf) : Except String Text :=
  (encodeTasks [.value value]).map fun text ↦
    91 :: (quote SEMANTIC_VALUE_FORMAT ++ 44 :: (text ++ [93]))

end Definitions

section Equality

/-- Values without parts are equal as JSON: numbers as exact rationals, strings by their units. -/
def LeafEqual : SemanticLeaf → SemanticLeaf → Prop
  | .null, .null => True
  | .bool left, .bool right => left = right
  | .string left, .string right => left = right
  | .number left, .number right => ∃ p q, numberParts left = some p ∧ numberParts right = some q ∧
      p.value = q.value
  | .unbound, .unbound => True
  | _, _ => False

mutual

/-- JSON equality: arrays item by item, objects member by member whatever their order. -/
def JsonEqual : JsonTree SemanticLeaf → JsonTree SemanticLeaf → Prop
  | .leaf left, .leaf right => LeafEqual left right
  | .array left, .array right => ItemsEqual left right
  | .object left, .object right => left.length = right.length ∧ MembersEqual left right
  | _, _ => False

def ItemsEqual : List (JsonTree SemanticLeaf) → List (JsonTree SemanticLeaf) → Prop
  | [], [] => True
  | left :: lefts, right :: rights => JsonEqual left right ∧ ItemsEqual lefts rights
  | _, _ => False

/-- Every member has an equal one of the same name among the others. -/
def MembersEqual : List (Text × JsonTree SemanticLeaf) → List (Text × JsonTree SemanticLeaf) → Prop
  | [], _ => True
  | (name, left) :: lefts, others =>
    (∃ right, (name, right) ∈ others ∧ JsonEqual left right) ∧ MembersEqual lefts others

end

end Equality

variable (items : List (JsonTree SemanticLeaf))

section Tagged

def tagText : SemanticLeaf → Text
  | .null => ascii ['n', 'u', 'l', 'l']
  | .bool _ => ascii ['b', 'o', 'o', 'l', 'e', 'a', 'n']
  | .string _ => ascii ['s', 't', 'r', 'i', 'n', 'g']
  | .number _ => ascii ['n', 'u', 'm', 'b', 'e', 'r']
  | .unbound => ascii ['u', 'n', 'b', 'o', 'u', 'n', 'd']

/-- Coefficient and exponent of a literal, empty when it is none. -/
def exactTexts (literal : Text) : Text × Text := ((exactNumber literal).toOption).getD ([], [])

def leafFields : SemanticLeaf → List (JsonTree JsonLeaf)
  | .null => []
  | .bool value => [.leaf (.bool value)]
  | .string value => [.leaf (.string value)]
  | .number literal =>
    [.leaf (.string (exactTexts literal).1), .leaf (.string (exactTexts literal).2)]
  | .unbound => []

def taggedArray : Text := ascii ['a', 'r', 'r', 'a', 'y']

def taggedObject : Text := ascii ['o', 'b', 'j', 'e', 'c', 't']

def pairNode (member : Text × JsonTree JsonLeaf) : JsonTree JsonLeaf :=
  .array [.leaf (.string member.1), member.2]

mutual

/-- The tree of tagged arrays that a value is encoded as. -/
def tagged : JsonTree SemanticLeaf → JsonTree JsonLeaf
  | .leaf value => .array (.leaf (.string (tagText value)) :: leafFields value)
  | .array items => .array [.leaf (.string taggedArray), .array (taggedItems items)]
  | .object members => .array [.leaf (.string taggedObject),
      .array ((sortMembers (taggedMembers members)).map pairNode)]

def taggedItems : List (JsonTree SemanticLeaf) → List (JsonTree JsonLeaf)
  | [] => []
  | item :: items => tagged item :: taggedItems items

def taggedMembers : List (Text × JsonTree SemanticLeaf) → List (Text × JsonTree JsonLeaf)
  | [] => []
  | (name, value) :: members => (name, tagged value) :: taggedMembers members

end

def semanticTree (value : JsonTree SemanticLeaf) : JsonTree JsonLeaf :=
  .array [.leaf (.string SEMANTIC_VALUE_FORMAT), tagged value]

theorem taggedItems_map : taggedItems items = items.map tagged := by
  induction items with
  | nil => rfl
  | cons item items ih => simp [taggedItems, ih]

theorem taggedMembers_map : taggedMembers members = members.map (Prod.map id tagged) := by
  induction members with
  | nil => rfl
  | cons member members ih => simp [taggedMembers, ih, Prod.map]

theorem sortMembers_map {α β : Type} (change : α → β) (members : List (Text × α)) :
    sortMembers (members.map (Prod.map id change)) =
      (sortMembers members).map (Prod.map id change) :=
  (List.map_insertionSort _ _ (Prod.map id change) members fun _ _ _ _ ↦ Iff.rfl).symm

end Tagged

variable {parts : NumberParts}
variable (value : SemanticValue)

section Encoding

theorem exactNumber_text (h : parts.Valid) : exactNumber parts.text = .ok
      (if significant parts = [] then ([48], [48])
      else (minusText parts.negative ++ coefficient parts, Decimal.integerText (scale parts))) := by
  simp only [exactNumber, numberParts_text h]
  by_cases hzero : significant parts = []
  · rw [if_pos hzero, if_pos (by simpa [significant] using hzero)]
  · rw [if_neg hzero, if_neg (by simpa [significant] using hzero)]
    rfl

theorem exactTexts_text (h : parts.Valid) : exactTexts parts.text =
      if significant parts = [] then ([48], [48])
      else (minusText parts.negative ++ coefficient parts, Decimal.integerText (scale parts)) := by
  rw [exactTexts, exactNumber_text h]
  rfl

theorem leafNode_eq {value : SemanticLeaf} (h : ScalarSemanticLeaf value) :
    leafNode value = .ok ((tagged (.leaf value)).text losslessLeafText) := by
  cases value with
  | null | unbound => rfl
  | bool value => cases value <;> rfl
  | string value =>
    simp only [leafNode, semanticString, (isUnicodeScalarString_iff value).mpr h, if_true]
    rfl
  | number literal =>
    obtain ⟨parts, hvalid, rfl⟩ := h
    simp only [leafNode, exactNumber_text hvalid, tagged, leafFields, exactTexts_text hvalid]
    simp only [JsonTree.text, JsonTree.itemTexts, JsonTree.commas, losslessLeafText, Except.map]
    simp [tagText, ascii, quote, escapeText, isHigh, isLow, escapeUnit, shortEscape]

def taskText : JsonTree.Task SemanticLeaf → Text
  | .text written => written
  | .value tree => (tagged tree).text losslessLeafText

/-- The values among the tasks are semantic values. -/
def TaskWellNamed : JsonTree.Task SemanticLeaf → Prop
  | .text _ => True
  | .value tree => tree.WellNamed ScalarName ScalarSemanticLeaf

theorem itemTasks_text : (JsonTree.itemTasks items).flatMap taskText =
      JsonTree.commas (items.map fun item ↦ (tagged item).text losslessLeafText) := by
  fun_induction JsonTree.itemTasks items with
  | case1 => rfl
  | case2 item => simp [taskText, JsonTree.commas]
  | case3 item next rest ih => simp_all [taskText, JsonTree.commas]

theorem pairTasks_text (member : Text × JsonTree SemanticLeaf) :
    (pairTasks member).flatMap taskText =
      (pairNode (Prod.map id tagged member)).text losslessLeafText := by
  simp [pairTasks, taskText, pairNode, JsonTree.text, JsonTree.itemTexts, JsonTree.commas,
    losslessLeafText]

theorem objectTasks_text : (objectTasks members).flatMap taskText =
      JsonTree.commas (members.map fun member ↦
        (pairNode (Prod.map id tagged member)).text losslessLeafText) := by
  fun_induction objectTasks members with
  | case1 => rfl
  | case2 member => simp [pairTasks_text, JsonTree.commas]
  | case3 member next rest ih =>
    simp only [List.flatMap_append, pairTasks_text, List.flatMap_cons, ih, map_cons,
      JsonTree.commas, taskText]
    simp

theorem text_array_pair (tag : Text) (inner : JsonTree JsonLeaf) :
    (JsonTree.array [.leaf (.string tag), inner]).text losslessLeafText =
      91 :: (quote tag ++ 44 :: (inner.text losslessLeafText ++ [93])) := by
  simp [JsonTree.text, JsonTree.itemTexts, JsonTree.commas, losslessLeafText]

theorem tagged_array_text : (tagged (.array items)).text losslessLeafText =
      arrayOpening ++ ((JsonTree.itemTasks items).flatMap taskText ++ [93, 93]) := by
  rw [tagged, text_array_pair, itemTasks_text, JsonTree.text, JsonTree.itemTexts_eq_map,
    taggedItems_map, List.map_map]
  simp [arrayOpening, taggedArray, ascii, quote, escapeText, isHigh, isLow, escapeUnit, shortEscape,
    Function.comp_def]

theorem tagged_object_text : (tagged (.object members)).text losslessLeafText =
      objectOpening ++ ((objectTasks (sortMembers members)).flatMap taskText ++ [93, 93]) := by
  rw [tagged, text_array_pair, objectTasks_text, JsonTree.text, JsonTree.itemTexts_eq_map,
    taggedMembers_map, sortMembers_map, List.map_map, List.map_map]
  simp [objectOpening, taggedObject, ascii, quote, escapeText, isHigh, isLow, escapeUnit,
    shortEscape, Function.comp_def]

theorem wellNamed_itemTasks {items : List (JsonTree SemanticLeaf)}
    (h : ∀ item ∈ items, item.WellNamed ScalarName ScalarSemanticLeaf) :
    ∀ task ∈ JsonTree.itemTasks items, TaskWellNamed task := by
  fun_induction JsonTree.itemTasks items with
  | case1 => simp
  | case2 item => simpa [TaskWellNamed] using h
  | case3 item next rest ih =>
    have hrest := ih fun other hother ↦ h other (mem_cons_of_mem _ hother)
    exact forall_mem_cons.mpr
      ⟨h item mem_cons_self, forall_mem_cons.mpr ⟨trivial, hrest⟩⟩

theorem wellNamed_objectTasks {members : List (Text × JsonTree SemanticLeaf)}
    (h : ∀ member ∈ members, member.2.WellNamed ScalarName ScalarSemanticLeaf) :
    ∀ task ∈ objectTasks members, TaskWellNamed task := by
  have hpair : ∀ member ∈ members, ∀ task ∈ pairTasks member, TaskWellNamed task := by
    intro member hmember task htask
    simp only [pairTasks, List.mem_cons, List.not_mem_nil, or_false] at htask
    rcases htask with rfl | rfl | rfl
    · trivial
    · exact h member hmember
    · trivial
  fun_induction objectTasks members with
  | case1 => simp
  | case2 member => exact hpair member mem_cons_self
  | case3 member next rest ih =>
    have hrest := ih (fun other hother ↦ h other (mem_cons_of_mem _ hother))
      fun other hother ↦ hpair other (mem_cons_of_mem _ hother)
    exact List.forall_mem_append.mpr
      ⟨hpair member mem_cons_self, forall_mem_cons.mpr ⟨trivial, hrest⟩⟩

theorem encodeTasks_eq {tasks : List (JsonTree.Task SemanticLeaf)}
    (h : ∀ task ∈ tasks, TaskWellNamed task) :
    encodeTasks tasks = .ok (tasks.flatMap taskText) := by
  fun_induction encodeTasks tasks with
  | case1 => rfl
  | case2 text tasks ih =>
    rw [ih fun task htask ↦ h task (mem_cons_of_mem _ htask)]
    rfl
  | case3 value tasks message hnode =>
    cases h _ mem_cons_self with
    | leaf valid =>
      rw [leafNode_eq valid] at hnode
      cases hnode
  | case4 value tasks node hnode ih =>
    rw [ih fun task htask ↦ h task (mem_cons_of_mem _ htask)]
    cases h _ mem_cons_self with
    | leaf valid =>
      rw [leafNode_eq valid] at hnode
      obtain rfl := Except.ok.inj hnode
      rfl
  | case5 items tasks ih =>
    have htasks : ∀ task ∈ tasks, TaskWellNamed task :=
      fun task htask ↦ h task (mem_cons_of_mem _ htask)
    cases h _ mem_cons_self with
    | array children =>
      have hitems := wellNamed_itemTasks children
      rw [ih (List.forall_mem_append.mpr ⟨hitems, forall_mem_cons.mpr ⟨trivial, htasks⟩⟩)]
      simp [Except.map, taskText, tagged_array_text]
  | case6 members tasks hnames ih =>
    have htasks : ∀ task ∈ tasks, TaskWellNamed task :=
      fun task htask ↦ h task (mem_cons_of_mem _ htask)
    cases h _ mem_cons_self with
    | object distinct names children =>
      have hperm := List.perm_insertionSort
        (fun left right : Text × JsonTree SemanticLeaf ↦ left.1 ≤ right.1) members
      have hmembers : ∀ task ∈ objectTasks (sortMembers members), TaskWellNamed task :=
        wellNamed_objectTasks fun member hmember ↦ children member (hperm.mem_iff.mp hmember)
      rw [ih (List.forall_mem_append.mpr ⟨hmembers, forall_mem_cons.mpr ⟨trivial, htasks⟩⟩)]
      simp [Except.map, taskText, tagged_object_text]
  | case7 members tasks hnames =>
    cases h _ mem_cons_self with
    | object distinct names children =>
      have hall : (members.all fun member ↦ isUnicodeScalarString member.1) = true := by
        rw [List.all_eq_true]
        exact fun member hmember ↦ (isUnicodeScalarString_iff member.1).mpr (names member hmember)
      exact absurd hall hnames

theorem encodeSemanticValue_eq :
    encodeSemanticValue value.tree = .ok ((semanticTree value.tree).text losslessLeafText) := by
  have htask : ∀ task ∈ [JsonTree.Task.value value.tree], TaskWellNamed task :=
    forall_mem_singleton.mpr value.wellNamed
  rw [encodeSemanticValue, encodeTasks_eq htask, semanticTree, text_array_pair]
  simp [Except.map, taskText]

end Encoding

section Injective

theorem exactTexts_eq_iff {p q : NumberParts} (hp : p.Valid) (hq : q.Valid) :
    exactTexts p.text = exactTexts q.text ↔ p.value = q.value := by
  have hzero : ∀ {parts : NumberParts}, parts.Valid → significant parts ≠ [] →
      (minusText parts.negative ++ coefficient parts, Decimal.integerText (scale parts)) ≠
        ([48], [48]) := by
    intro parts hvalid hne h
    have hcoefficient := (Prod.mk.inj h).1
    have hvalue := not_dvd_coefficient hvalid hne
    cases hsign : parts.negative with
    | true => simp [hsign, minusText] at hcoefficient
    | false =>
      rw [hsign] at hcoefficient
      have : coefficient parts = [48] := hcoefficient
      rw [this] at hvalue
      exact hvalue (dvd_zero 10)
  rw [exactTexts_text hp, exactTexts_text hq]
  by_cases hpzero : significant p = []
  · have hpvalue := (value_eq_zero_iff hp).mpr hpzero
    by_cases hqzero : significant q = []
    · simp [hpzero, hqzero, hpvalue, (value_eq_zero_iff hq).mpr hqzero]
    · rw [if_pos hpzero, if_neg hqzero, hpvalue]
      exact ⟨fun h ↦ absurd h.symm (hzero hq hqzero),
        fun h ↦ absurd h.symm (mt (value_eq_zero_iff hq).mp hqzero)⟩
  · by_cases hqzero : significant q = []
    · rw [if_neg hpzero, if_pos hqzero, (value_eq_zero_iff hq).mpr hqzero]
      exact ⟨fun h ↦ absurd h (hzero hp hpzero),
        fun h ↦ absurd h (mt (value_eq_zero_iff hp).mp hpzero)⟩
    · rw [if_neg hpzero, if_neg hqzero, value_eq_iff hp hq hpzero hqzero]
      constructor
      · intro h
        obtain ⟨hcoefficient, hscale⟩ := Prod.mk.inj h
        have hmarked : minusText p.negative ++ (coefficient p ++ 101 :: []) =
            minusText q.negative ++ (coefficient q ++ 101 :: []) := by
          rw [← List.append_assoc, hcoefficient, List.append_assoc]
        obtain ⟨hsign, hdigits, _⟩ := normalForm_injective hp hq hpzero hqzero hmarked
        exact ⟨hsign, hdigits, Decimal.integerText_injective hscale⟩
      · rintro ⟨hsign, hdigits, hscale⟩
        rw [hsign, hdigits, hscale]

theorem tagged_leaf_eq_iff {left right : SemanticLeaf} (hleft : ScalarSemanticLeaf left)
    (hright : ScalarSemanticLeaf right) :
    tagged (.leaf left) = tagged (.leaf right) ↔ LeafEqual left right := by
  cases left with
  | number left =>
    cases right with
    | number right =>
      obtain ⟨p, hp, rfl⟩ := hleft
      obtain ⟨q, hq, rfl⟩ := hright
      have hfields : tagged (.leaf (.number p.text)) = tagged (.leaf (.number q.text)) ↔
          exactTexts p.text = exactTexts q.text := by
        simp [tagged, leafFields, tagText, Prod.ext_iff]
      rw [hfields, exactTexts_eq_iff hp hq]
      constructor
      · exact fun h ↦ ⟨p, q, numberParts_text hp, numberParts_text hq, h⟩
      · rintro ⟨p', q', hp', hq', h⟩
        rw [numberParts_text hp] at hp'
        rw [numberParts_text hq] at hq'
        obtain rfl := Option.some.inj hp'
        obtain rfl := Option.some.inj hq'
        exact h
    | null | bool value | string value | unbound =>
      simp [tagged, leafFields, tagText, LeafEqual, ascii]
  | null | bool left | string left | unbound =>
    cases right <;> simp [tagged, leafFields, tagText, LeafEqual, ascii]

variable {α : Type}

theorem nodup_of_names {members : List (Text × α)}
    (h : (members.map Prod.fst).Nodup) : members.Nodup :=
  List.Nodup.of_map Prod.fst h

theorem eq_of_name_eq {members : List (Text × α)} (h : (members.map Prod.fst).Nodup)
    {left right : Text × α} (hleft : left ∈ members) (hright : right ∈ members)
    (hname : left.1 = right.1) : left = right :=
  List.inj_on_of_nodup_map h hleft hright hname

theorem sortMembers_eq_iff {left right : List (Text × α)} (hleft : (left.map Prod.fst).Nodup) :
    sortMembers left = sortMembers right ↔ left.Perm right := by
  have hleftPerm := List.perm_insertionSort (fun a b : Text × α ↦ a.1 ≤ b.1) left
  have hrightPerm := List.perm_insertionSort (fun a b : Text × α ↦ a.1 ≤ b.1) right
  constructor
  · intro h
    exact hleftPerm.symm.trans ((List.Perm.of_eq h).trans hrightPerm)
  · intro hperm
    have hsorted : ∀ members : List (Text × α),
        (sortMembers members).Pairwise fun a b ↦ a.1 ≤ b.1 :=
      fun members ↦ List.pairwise_insertionSort _ members
    apply List.Perm.eq_of_pairwise _ (hsorted left) (hsorted right)
      (hleftPerm.trans (hperm.trans hrightPerm.symm))
    intro a b ha hb hab hba
    exact eq_of_name_eq hleft (hleftPerm.mem_iff.mp ha)
      (hperm.mem_iff.mpr (hrightPerm.mem_iff.mp hb)) (le_antisymm hab hba)

theorem itemsEqual_iff {left right : List (JsonTree SemanticLeaf)}
    (h : ∀ item ∈ left, ∀ other ∈ right, tagged item = tagged other ↔ JsonEqual item other) :
    left.map tagged = right.map tagged ↔ ItemsEqual left right := by
  induction left generalizing right with
  | nil => cases right <;> simp [ItemsEqual]
  | cons item items ih =>
    cases right with
    | nil => simp [ItemsEqual]
    | cons other others =>
      rw [map_cons, map_cons, List.cons.injEq, ItemsEqual,
        h item mem_cons_self other mem_cons_self, ih]
      intro item' hitem' other' hother'
      exact h item' (mem_cons_of_mem _ hitem') other' (mem_cons_of_mem _ hother')

theorem membersEqual_iff (h : ∀ member ∈ left, ∀ other ∈ right,
      tagged member.2 = tagged other.2 ↔ JsonEqual member.2 other.2) :
    left.map (Prod.map id tagged) ⊆ right.map (Prod.map id tagged) ↔ MembersEqual left right := by
  induction left with
  | nil => simp [MembersEqual]
  | cons member members ih =>
    obtain ⟨name, value⟩ := member
    rw [map_cons, List.cons_subset, MembersEqual, ih]
    · apply and_congr_left
      intro _
      constructor
      · intro hmem
        obtain ⟨⟨name', other⟩, hother, heq⟩ := mem_map.mp hmem
        obtain ⟨rfl, hvalue⟩ := Prod.mk.inj heq
        exact ⟨other, hother, (h _ mem_cons_self _ hother).mp hvalue.symm⟩
      · rintro ⟨other, hother, hequal⟩
        have hvalue := (h _ mem_cons_self _ hother).mpr hequal
        exact mem_map.mpr ⟨(name, other), hother, Prod.ext rfl hvalue.symm⟩
    · exact fun member' hmember' ↦ h member' (mem_cons_of_mem _ hmember')

theorem tagged_eq_iff {left right : JsonTree SemanticLeaf}
    (hleft : left.WellNamed ScalarName ScalarSemanticLeaf)
    (hright : right.WellNamed ScalarName ScalarSemanticLeaf) :
    tagged left = tagged right ↔ JsonEqual left right := by
  induction hleft generalizing right with
  | @leaf left valid =>
    cases hright with
    | leaf valid' => rw [tagged_leaf_eq_iff valid valid', JsonEqual]
    | array _ => cases left <;> simp [tagged, leafFields, tagText, taggedArray, JsonEqual, ascii]
    | object _ _ _ => cases left <;> simp [tagged, leafFields, tagText, taggedObject, JsonEqual, ascii]
  | @array items _ ih =>
    cases hright with
    | @leaf right _ => cases right <;> simp [tagged, leafFields, tagText, taggedArray, JsonEqual, ascii]
    | @array others children =>
      have hitems := itemsEqual_iff fun item hitem other hother ↦ ih item hitem (children other hother)
      rw [tagged, tagged, taggedItems_map, taggedItems_map, JsonEqual, ← hitems]
      simp
    | object _ _ _ => simp [tagged, taggedArray, taggedObject, JsonEqual, ascii]
  | @object members distinct _ _ ih =>
    cases hright with
    | @leaf right _ => cases right <;> simp [tagged, leafFields, tagText, taggedObject, JsonEqual, ascii]
    | array _ => simp [tagged, taggedArray, taggedObject, JsonEqual, ascii]
    | @object others distinct' _ children =>
      have hmembers := membersEqual_iff fun member hmember other hother ↦
        ih member hmember (children other hother)
      have hnames : ((members.map (Prod.map id tagged)).map Prod.fst).Nodup := by
        simpa [List.map_map, Function.comp_def, Prod.map] using distinct
      have hpair : Function.Injective pairNode := by
        rintro ⟨name, value⟩ ⟨name', value'⟩ h
        simpa [pairNode] using h
      have htagged : tagged (.object members) = tagged (.object others) ↔
          sortMembers (members.map (Prod.map id tagged)) =
            sortMembers (others.map (Prod.map id tagged)) := by
        rw [tagged, tagged, taggedMembers_map, taggedMembers_map]
        simp [hpair.list_map.eq_iff]
      rw [htagged, sortMembers_eq_iff hnames, JsonEqual, ← hmembers]
      constructor
      · intro hperm
        exact ⟨by simpa using hperm.length_eq, hperm.subset⟩
      · rintro ⟨hlength, hsubset⟩
        apply (List.subperm_of_subset (nodup_of_names hnames) hsubset).perm_of_length_le
        simp [hlength]

theorem enumerated_tagged (tree : JsonTree SemanticLeaf) :
    (tagged tree).enumerated = tagged tree := by
  have hfields : ∀ value : SemanticLeaf,
      JsonTree.enumeratedItems (leafFields value) = leafFields value := by
    intro value
    cases value <;> rfl
  induction tree using JsonTree.induct with
  | leaf value =>
    rw [tagged, JsonTree.enumerated, JsonTree.enumeratedItems, hfields, JsonTree.enumerated]
  | array items ih =>
    have hitems : (items.map tagged).map JsonTree.enumerated = items.map tagged := by
      rw [List.map_map]
      exact List.map_congr_left ih
    simp [tagged, JsonTree.enumerated, JsonTree.enumeratedItems, taggedItems_map,
      JsonTree.enumeratedItems_eq_map, hitems]
  | object members ih =>
    have hpairs : ∀ pair ∈ (sortMembers (taggedMembers members)).map pairNode,
        JsonTree.enumerated pair = pair := by
      intro pair hpair
      obtain ⟨member, hmember, rfl⟩ := mem_map.mp hpair
      have hmem := (List.perm_insertionSort _ _).mem_iff.mp hmember
      rw [taggedMembers_map] at hmem
      obtain ⟨source, hsource, rfl⟩ := mem_map.mp hmem
      simp [pairNode, JsonTree.enumerated, JsonTree.enumeratedItems, Prod.map, ih source hsource]
    have hmap : ((sortMembers (taggedMembers members)).map pairNode).map JsonTree.enumerated =
        (sortMembers (taggedMembers members)).map pairNode :=
      (List.map_congr_left hpairs).trans (List.map_id _)
    simp only [tagged, JsonTree.enumerated, JsonTree.enumeratedItems,
      JsonTree.enumeratedItems_eq_map, hmap]

theorem scalar_exactTexts (h : parts.Valid) : ¬ HasLoneSurrogate (exactTexts parts.text).1 ∧
      ¬ HasLoneSurrogate (exactTexts parts.text).2 := by
  have hdigit : ∀ {unit : ℕ}, Decimal.isDigit unit = true → unit < 0xd800 := by
    intro unit hunit
    simp only [Decimal.isDigit, decide_eq_true_eq] at hunit
    omega
  rw [exactTexts_text h]
  split
  · exact ⟨not_hasLoneSurrogate_of_lt (by decide), not_hasLoneSurrogate_of_lt (by decide)⟩
  · constructor
    · apply not_hasLoneSurrogate_of_lt
      intro unit hunit
      rcases List.mem_append.mp hunit with hunit | hunit
      · unfold minusText at hunit
        split at hunit
        · obtain rfl := List.mem_singleton.mp hunit
          decide
        · cases hunit
      · exact hdigit ((leading_coefficient h).1 unit hunit)
    · apply not_hasLoneSurrogate_of_lt
      intro unit hunit
      unfold Decimal.integerText at hunit
      split at hunit
      · rcases List.mem_cons.mp hunit with rfl | hunit
        · decide
        · exact hdigit (Decimal.isDigit_digitsOf _ unit hunit)
      · exact hdigit (Decimal.isDigit_digitsOf _ unit hunit)

theorem wellNamed_tag {tag : Text} (h : ∀ unit ∈ tag, unit < 0xd800) :
    (JsonTree.leaf (JsonLeaf.string tag)).WellNamed ScalarName LosslessLeaf :=
  .leaf (not_hasLoneSurrogate_of_lt h)

theorem wellNamed_tagged {tree : JsonTree SemanticLeaf}
    (h : tree.WellNamed ScalarName ScalarSemanticLeaf) :
    (tagged tree).WellNamed ScalarName LosslessLeaf := by
  induction h with
  | @leaf value valid =>
    apply JsonTree.WellNamed.array
    refine forall_mem_cons.mpr ⟨?_, ?_⟩
    · apply wellNamed_tag
      cases value <;> simp [tagText, ascii]
    · cases value with
      | null | unbound => simp [leafFields]
      | bool value => exact forall_mem_singleton.mpr (.leaf trivial)
      | string value => exact forall_mem_singleton.mpr (.leaf valid)
      | number literal =>
        obtain ⟨parts, hvalid, rfl⟩ := valid
        obtain ⟨hcoefficient, hexponent⟩ := scalar_exactTexts hvalid
        exact forall_mem_cons.mpr
          ⟨.leaf hcoefficient, forall_mem_singleton.mpr (.leaf hexponent)⟩
  | @array items _ ih =>
    apply JsonTree.WellNamed.array
    refine forall_mem_cons.mpr
      ⟨wellNamed_tag (by decide), forall_mem_singleton.mpr (.array ?_)⟩
    rw [taggedItems_map]
    intro item hitem
    obtain ⟨source, hsource, rfl⟩ := mem_map.mp hitem
    exact ih source hsource
  | @object members _ names _ ih =>
    apply JsonTree.WellNamed.array
    refine forall_mem_cons.mpr
      ⟨wellNamed_tag (by decide), forall_mem_singleton.mpr (.array ?_)⟩
    intro pair hpair
    obtain ⟨member, hmember, rfl⟩ := mem_map.mp hpair
    have hmem := (List.perm_insertionSort _ _).mem_iff.mp hmember
    rw [taggedMembers_map] at hmem
    obtain ⟨source, hsource, rfl⟩ := mem_map.mp hmem
    exact .array (forall_mem_cons.mpr
      ⟨.leaf (names source hsource), forall_mem_singleton.mpr (ih source hsource)⟩)

theorem wellNamed_semanticTree : (semanticTree value.tree).WellNamed ScalarName LosslessLeaf :=
  .array (forall_mem_cons.mpr ⟨wellNamed_tag (by decide),
    forall_mem_singleton.mpr (wellNamed_tagged value.wellNamed)⟩)

theorem semanticTree_text_injective {left right : SemanticValue}
    (h : (semanticTree left.tree).text losslessLeafText =
      (semanticTree right.tree).text losslessLeafText) :
    tagged left.tree = tagged right.tree := by
  have hleft := decodeJsonDocument_text (wellNamed_semanticTree left)
  rw [h, decodeJsonDocument_text (wellNamed_semanticTree right)] at hleft
  have henumerated := Except.ok.inj hleft
  simp only [semanticTree, JsonTree.enumerated, JsonTree.enumeratedItems, enumerated_tagged,
    JsonTree.array.injEq, List.cons.injEq, and_true, true_and] at henumerated
  exact henumerated.symm

/-- Every semantic value has an encoding, and two have the same one if and only if they are equal
as JSON values. -/
theorem encodeSemanticValue_exact (left right : SemanticValue) :
    (∃ text, encodeSemanticValue left.tree = .ok text) ∧
      (encodeSemanticValue left.tree = encodeSemanticValue right.tree ↔
        JsonEqual left.tree right.tree) := by
  rw [encodeSemanticValue_eq, encodeSemanticValue_eq, Except.ok.injEq,
    ← tagged_eq_iff left.wellNamed right.wellNamed]
  refine ⟨⟨_, rfl⟩, semanticTree_text_injective, ?_⟩
  intro h
  rw [semanticTree, semanticTree, h]

end Injective

end Bdp.Admission
