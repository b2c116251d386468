import Bdp.Library.JsonPatch
import Bdp.Retained.ObjectEdits

/-!
# Object edits and JSON Patch

`applyObjectChange` computes what the edits of RFC 6902 do to the document that a JSON tree stands
for, and stops exactly where they fail or leave something else than an object.
-/

namespace Bdp.Retained

open JsonPatch (Document Edit parsePointer readToken index?)
open List (lookup_cons length_map)
open Option (bind_eq_bind bind_some map_some)

section Pointers

/-- `(?:[^/~]|~[01])*`, for a part of a path between two slashes. -/
def isReferenceToken : List Char → Bool
  | [] => true
  | [last] => last != '~'
  | first :: second :: rest =>
    if first = '~' then (second == '0' || second == '1') && isReferenceToken rest
    else isReferenceToken (second :: rest)

/-- The pointer syntax of `assertObjectChange`: `/^(?:\/(?:[^/~]|~[01])*)*$/`. -/
def isPointer (path : String) : Bool :=
  match path.toList with
  | [] => true
  | first :: rest => first == '/' && (rest.splitOn '/').all isReferenceToken

end Pointers

section Meaning

mutual

/-- The document that a JSON tree stands for. -/
def denote : Json → Document Json
  | .array items => .array (denoteItems items)
  | .object members => .object (denoteMembers members)
  | leaf => .scalar leaf

def denoteItems : List Json → List (Document Json)
  | [] => []
  | item :: items => denote item :: denoteItems items

def denoteMembers : JsonObject → String → Option (Document Json)
  | [], _ => none
  | (name, value) :: members, other =>
    if other = name then some (denote value) else denoteMembers members other

end

def ObjectEdit.meaning : ObjectEdit → Edit Json
  | .add path value => .add path (denote value)
  | .replace path value => .replace path (denote value)
  | .remove path => .remove path

end Meaning

section Tokens

theorem replaceEscape_cons {first : Char} (h : first ≠ '~') (digit letter : Char)
    (token : List Char) :
    ObjectEdit.replaceEscape digit letter (first :: token) =
      first :: ObjectEdit.replaceEscape digit letter token := by
  cases token with
  | nil => rfl
  | cons second rest => simp [ObjectEdit.replaceEscape, h]

theorem replaceEscape_self (digit letter : Char) (token : List Char) :
    ObjectEdit.replaceEscape digit letter ('~' :: digit :: token) =
      letter :: ObjectEdit.replaceEscape digit letter token := by
  rw [ObjectEdit.replaceEscape, if_pos ⟨rfl, rfl⟩]

theorem unescapeToken_cons {letter : Char} (h : letter ≠ '~') (token : List Char) :
    ObjectEdit.unescapeToken (letter :: token) = letter :: ObjectEdit.unescapeToken token := by
  unfold ObjectEdit.unescapeToken
  rw [replaceEscape_cons h, replaceEscape_cons h]

variable (token : List Char)

/-- The pass for `~1` leaves the tilde of `~0` to the pass for `~0`. -/
theorem unescapeToken_tilde :
    ObjectEdit.unescapeToken ('~' :: '0' :: token) = '~' :: ObjectEdit.unescapeToken token := by
  have hfirst : ObjectEdit.replaceEscape '1' '/' ('~' :: '0' :: token) =
      '~' :: '0' :: ObjectEdit.replaceEscape '1' '/' token := by
    rw [ObjectEdit.replaceEscape, if_neg (by decide), replaceEscape_cons (by decide)]
  rw [ObjectEdit.unescapeToken, hfirst, replaceEscape_self]
  rfl

theorem unescapeToken_slash :
    ObjectEdit.unescapeToken ('~' :: '1' :: token) = '/' :: ObjectEdit.unescapeToken token := by
  unfold ObjectEdit.unescapeToken
  rw [replaceEscape_self, replaceEscape_cons (by decide)]

theorem readToken_eq (h : isReferenceToken token = true) :
    readToken token = some (ObjectEdit.unescapeToken token) := by
  induction token using JsonPatch.readToken.induct with
  | case1 => rfl
  | case2 => exact absurd h (by decide)
  | case3 last hlast =>
    rw [readToken, if_neg hlast, unescapeToken_cons hlast]
    rfl
  | case4 rest ih =>
    rw [isReferenceToken, if_pos rfl, Bool.and_eq_true] at h
    rw [readToken, if_pos rfl, if_pos rfl, ih h.2, unescapeToken_tilde]
    rfl
  | case5 rest hzero ih =>
    rw [isReferenceToken, if_pos rfl, Bool.and_eq_true] at h
    rw [readToken, if_pos rfl, if_neg hzero, if_pos rfl, ih h.2, unescapeToken_slash]
    rfl
  | case6 second rest hzero hone =>
    rw [isReferenceToken, if_pos rfl, Bool.and_eq_true, Bool.or_eq_true, beq_iff_eq,
      beq_iff_eq] at h
    exact absurd h.1 (not_or.mpr ⟨hzero, hone⟩)
  | case7 first second rest hfirst ih =>
    rw [isReferenceToken, if_neg hfirst] at h
    rw [readToken, if_neg hfirst, ih h, unescapeToken_cons hfirst]
    rfl

theorem mapM_readToken {parts : List (List Char)} (h : parts.all isReferenceToken = true) :
    (parts.mapM fun token ↦ (readToken token).map String.ofList) =
      some (parts.map fun token ↦ String.ofList (ObjectEdit.unescapeToken token)) := by
  induction parts with
  | nil => rfl
  | cons part parts ih =>
    rw [List.all_cons, Bool.and_eq_true] at h
    rw [List.mapM_cons, readToken_eq part h.1, ih h.2]
    rfl

theorem parsePointer_path {edit : ObjectEdit} (h : isPointer edit.path = true) :
    parsePointer edit.path = some edit.tokens := by
  unfold isPointer at h
  unfold parsePointer ObjectEdit.tokens
  cases hpath : edit.path.toList with
  | nil =>
    rw [if_pos (String.toList_eq_nil_iff.mp hpath)]
  | cons first rest =>
    rw [hpath] at h
    simp only [Bool.and_eq_true, beq_iff_eq] at h
    have hne : edit.path ≠ "" := by
      intro hempty
      rw [hempty] at hpath
      cases hpath
    simp only
    rw [if_pos h.1, if_neg hne, mapM_readToken h.2]
    rfl

end Tokens

section Members

theorem denoteItems_eq_map (items : List Json) : denoteItems items = items.map denote := by
  induction items with
  | nil => rfl
  | cons item items ih => rw [denoteItems, ih, List.map_cons]

variable (members : JsonObject)
variable (name : String)

theorem denoteMembers_eq_lookup :
    denoteMembers members name = (members.lookup name).map denote := by
  induction members with
  | nil => rfl
  | cons entry members ih =>
    obtain ⟨other, value⟩ := entry
    rw [denoteMembers, lookup_cons]
    by_cases hname : name = other
    · rw [if_pos hname, beq_iff_eq.mpr hname]
      rfl
    · rw [if_neg hname, beq_eq_false_iff_ne.mpr hname, ih]

theorem lookup_eq_none_of_any {members : JsonObject} {name : String}
    (h : ¬ (members.any fun entry ↦ entry.1 = name) = true) : members.lookup name = none := by
  rw [List.lookup_eq_none_iff]
  intro entry hentry
  rw [Bool.not_eq_true, List.any_eq_false] at h
  have := h entry hentry
  simp only [decide_eq_true_eq] at this
  exact bne_iff_ne.mpr fun hname ↦ this hname.symm

theorem lookup_map_define (name other : String) (value : Json) :
    (members.map fun entry ↦ if entry.1 = name then (name, value) else entry).lookup other =
      if other = name then (members.lookup other).map fun _ ↦ value else members.lookup other := by
  induction members with
  | nil => simp
  | cons entry members ih =>
    obtain ⟨first, old⟩ := entry
    rw [List.map_cons]
    by_cases hfirst : first = name <;> by_cases hother : other = name
    · simp [hfirst, hother]
    · simp only [hfirst, if_true, if_neg hother, lookup_cons,
        beq_eq_false_iff_ne.mpr hother] at ih ⊢
      exact ih
    · have hne : other ≠ first := fun heq ↦ hfirst (heq.symm.trans hother)
      simp only [if_neg hfirst, if_pos hother, lookup_cons, beq_eq_false_iff_ne.mpr hne] at ih ⊢
      exact ih
    · simp only [if_neg hfirst, if_neg hother, lookup_cons] at ih ⊢
      rw [ih]

theorem lookup_defineMember (name other : String) (value : Json) :
    (defineMember members name value).lookup other =
      if other = name then some value else members.lookup other := by
  unfold defineMember
  split
  next hany =>
    rw [lookup_map_define]
    by_cases hother : other = name
    · obtain ⟨entry, hentry, hname⟩ := List.any_eq_true.mp hany
      have hsome : members.lookup other ≠ none := by
        rw [Ne, List.lookup_eq_none_iff]
        intro hnone
        have := hnone entry hentry
        rw [hother, ← of_decide_eq_true hname] at this
        exact absurd this (by simp)
      obtain ⟨old, hold⟩ := Option.ne_none_iff_exists'.mp hsome
      rw [if_pos hother, if_pos hother, hold]
      rfl
    · rw [if_neg hother, if_neg hother]
  next hany =>
    have hnone := lookup_eq_none_of_any hany
    have hsplit := List.takeWhile_append_dropWhile
      (p := fun entry : String × Json ↦ !enumeratesBefore name entry.1) (l := members)
    rw [List.lookup_append, lookup_cons]
    by_cases hother : other = name
    · have hfront : (members.takeWhile fun entry ↦ !enumeratesBefore name entry.1).lookup other =
          none := by
        rw [← hsplit, List.lookup_append, Option.or_eq_none_iff] at hnone
        exact hother ▸ hnone.1
      rw [hfront, if_pos hother, beq_iff_eq.mpr hother]
      rfl
    · rw [if_neg hother, beq_eq_false_iff_ne.mpr hother]
      simp only
      rw [← List.lookup_append, hsplit]

theorem lookup_deleteMember (name other : String) : (deleteMember members name).lookup other =
      if other = name then none else members.lookup other := by
  induction members with
  | nil => simp [deleteMember]
  | cons entry members ih =>
    obtain ⟨first, old⟩ := entry
    unfold deleteMember at ih ⊢
    by_cases hfirst : first = name
    · rw [List.filter_cons_of_neg (by simpa using hfirst), ih, lookup_cons]
      by_cases hother : other = name
      · rw [if_pos hother, if_pos hother]
      · rw [if_neg hother, if_neg hother, hfirst, beq_eq_false_iff_ne.mpr hother]
    · rw [List.filter_cons_of_pos (by simpa using hfirst), lookup_cons, lookup_cons, ih]
      by_cases hother : other = name
      · have hne : other ≠ first := fun heq ↦ hfirst (heq.symm.trans hother)
        rw [if_pos hother, if_pos hother, beq_eq_false_iff_ne.mpr hne]
      · rw [if_neg hother, if_neg hother]

theorem denoteMembers_define (value : Json) : denoteMembers (defineMember members name value) =
      Function.update (denoteMembers members) name (some (denote value)) := by
  funext other
  rw [denoteMembers_eq_lookup, lookup_defineMember, Function.update_apply, denoteMembers_eq_lookup]
  split <;> rfl

theorem denoteMembers_delete : denoteMembers (deleteMember members name) =
      Function.update (denoteMembers members) name none := by
  funext other
  rw [denoteMembers_eq_lookup, lookup_deleteMember, Function.update_apply, denoteMembers_eq_lookup]
  split <;> rfl

end Members

section Indices

theorem eq_zero_of_head_toDigits (index : ℕ) (h : (Nat.toDigits 10 index).head? = some '0') :
    index = 0 := by
  induction index using Nat.strong_induction_on with
  | _ index ih =>
    by_cases hsmall : index < 10
    · rw [Nat.toDigits_of_lt_base hsmall] at h
      have hall : ∀ index < 10, [Nat.digitChar index].head? = some '0' → index = 0 := by decide
      exact hall index hsmall h
    · rw [Nat.toDigits_of_base_le (by decide) (by omega),
        List.head?_append_of_ne_nil _ Nat.toDigits_ne_nil] at h
      have := ih (index / 10) (by omega) h
      omega

theorem arrayIndex_eq (token : String) : arrayIndex token = index? token := by
  apply Option.ext
  intro index
  rw [JsonPatch.index?_eq_some]
  simp only [arrayIndex]
  constructor
  · intro h
    split at h
    next => cases h
    next hdigits =>
      simp only [not_or, not_and, Bool.not_eq_true, List.any_eq_false, Bool.not_eq_true',
        Bool.not_eq_false, not_not] at hdigits
      obtain ⟨hne, hall, hzero⟩ := hdigits
      have hrepr := JsonPatch.toDigits_ofDigitChars hall hne hzero
      apply String.toList_inj.mp
      rw [Nat.toList_repr, ← Option.some.inj h]
      exact hrepr.symm
  · rintro rfl
    rw [Nat.toList_repr]
    have hdigits : ∀ digit ∈ Nat.toDigits 10 index, digit.isDigit = true := fun digit hdigit ↦
      Nat.isDigit_of_mem_toDigits (by decide) (by decide) hdigit
    rw [if_neg]
    · exact congrArg some Nat.ofDigitChars_ten_toDigits
    · rintro (hnil | hany | ⟨hhead, hlength⟩)
      · exact Nat.toDigits_ne_nil hnil
      · obtain ⟨digit, hdigit, hnot⟩ := List.any_eq_true.mp hany
        rw [hdigits digit hdigit] at hnot
        cases hnot
      · rw [eq_zero_of_head_toDigits index hhead] at hlength
        exact hlength rfl

end Indices

section Sizes

mutual

def arrayLengths : Json → List ℕ
  | .array items => items.length :: itemsLengths items
  | .object members => membersLengths members
  | _ => []

def itemsLengths : List Json → List ℕ
  | [] => []
  | item :: items => arrayLengths item ++ itemsLengths items

def membersLengths : JsonObject → List ℕ
  | [] => []
  | (_, value) :: members => arrayLengths value ++ membersLengths members

end

/-- No array of the tree is longer than the bound. -/
def Within (bound : ℕ) (value : Json) : Prop := ∀ length ∈ arrayLengths value, length ≤ bound

variable {bound : ℕ} {items : List Json} {members : JsonObject}

theorem within_array :
    Within bound (.array items) ↔ items.length ≤ bound ∧ ∀ item ∈ items, Within bound item := by
  have hitems : (∀ length ∈ itemsLengths items, length ≤ bound) ↔
      ∀ item ∈ items, Within bound item := by
    induction items with
    | nil => simp [itemsLengths]
    | cons item items ih =>
      rw [itemsLengths, List.forall_mem_append, ih, List.forall_mem_cons]
      rfl
  unfold Within
  rw [arrayLengths, List.forall_mem_cons, hitems]
  rfl

theorem within_object :
    Within bound (.object members) ↔ ∀ entry ∈ members, Within bound entry.2 := by
  unfold Within
  rw [arrayLengths]
  induction members with
  | nil => simp [membersLengths]
  | cons entry members ih =>
    obtain ⟨name, value⟩ := entry
    rw [membersLengths, List.forall_mem_append, ih, List.forall_mem_cons]

variable {value : Json}

theorem Within.mono {more : ℕ} (h : Within bound value) (hmore : bound ≤ more) :
    Within more value := fun length hlength ↦ (h length hlength).trans hmore

variable {name : String}

theorem mem_of_lookup (h : members.lookup name = some value) : (name, value) ∈ members := by
  obtain ⟨front, back, hsplit, -⟩ := List.lookup_eq_some_iff.mp h
  rw [hsplit]
  simp

theorem Within.defineMember (h : Within bound (.object members))
    (hvalue : Within bound value) : Within bound (.object (defineMember members name value)) := by
  rw [within_object] at h ⊢
  intro entry hentry
  unfold Retained.defineMember at hentry
  split at hentry
  · obtain ⟨old, hold, rfl⟩ := List.mem_map.mp hentry
    split
    · exact hvalue
    · exact h old hold
  · obtain hentry | hentry := List.mem_append.mp hentry
    · exact h entry (List.takeWhile_subset _ hentry)
    · obtain rfl | hentry := List.mem_cons.mp hentry
      · exact hvalue
      · exact h entry ((List.dropWhile_suffix _).subset hentry)

variable {parent : Json} {edit : ObjectEdit}

section

variable (h : Within bound parent)
include h

variable {result : Json}

theorem Within.editMember (hvalue : ∀ value, edit.value = some value → Within bound value)
    (hedit : editMember edit name parent = .ok result) : Within (bound + 1) result := by
  cases parent with
  | array items =>
    rw [within_array] at h
    obtain ⟨index, -, hedit⟩ := Except.bind_eq_ok.mp hedit
    obtain ⟨-, -, hedit⟩ := Except.bind_eq_ok.mp hedit
    have hmore (item : Json) (hitem : Within bound item) : Within (bound + 1) item :=
      hitem.mono (Nat.le_succ bound)
    cases edit with
    | add path value =>
      obtain rfl := Except.ok.inj hedit
      rw [within_array]
      constructor
      · exact List.length_insertIdx_le_succ.trans (Nat.succ_le_succ h.1)
      · intro item hitem
        obtain rfl | hitem := List.eq_or_mem_of_mem_insertIdx hitem
        · exact hmore _ (hvalue _ rfl)
        · exact hmore _ (h.2 item hitem)
    | replace path value =>
      obtain rfl := Except.ok.inj hedit
      rw [within_array, List.length_set]
      refine ⟨h.1.trans (Nat.le_succ bound), fun item hitem ↦ ?_⟩
      obtain hitem | rfl := List.mem_or_eq_of_mem_set hitem
      · exact hmore _ (h.2 item hitem)
      · exact hmore _ (hvalue _ rfl)
    | remove path =>
      obtain rfl := Except.ok.inj hedit
      rw [within_array]
      refine ⟨(List.length_eraseIdx_le items index).trans (h.1.trans (Nat.le_succ bound)), ?_⟩
      exact fun item hitem ↦ hmore _ (h.2 item (List.mem_of_mem_eraseIdx hitem))
  | object members =>
    obtain ⟨-, -, hedit⟩ := Except.bind_eq_ok.mp hedit
    cases edit with
    | add path value =>
      obtain rfl := Except.ok.inj hedit
      exact (h.defineMember (hvalue _ rfl)).mono (Nat.le_succ bound)
    | replace path value =>
      obtain rfl := Except.ok.inj hedit
      exact (h.defineMember (hvalue _ rfl)).mono (Nat.le_succ bound)
    | remove path =>
      obtain rfl := Except.ok.inj hedit
      rw [within_object] at h ⊢
      exact fun entry hentry ↦
        (h entry (List.mem_of_mem_filter hentry)).mono (Nat.le_succ bound)
  | null => cases hedit
  | bool value => cases hedit
  | number value => cases hedit
  | string value => cases hedit

theorem Within.descend {token : String} {child : Json} {rebuild : Json → Json}
    (hdescend : descend token parent = some (child, rebuild)) :
    Within bound child ∧ ∀ more replacement, bound ≤ more → Within more replacement →
        Within more (rebuild replacement) := by
  cases parent with
  | array items =>
    rw [within_array] at h
    obtain ⟨index, -, hdescend⟩ := Option.bind_eq_some_iff.mp hdescend
    obtain ⟨found, hfound, hdescend⟩ := Option.bind_eq_some_iff.mp hdescend
    obtain ⟨rfl, rfl⟩ := Prod.mk.inj (Option.some.inj hdescend)
    refine ⟨h.2 _ (List.mem_of_getElem? hfound), fun more replacement hmore hreplacement ↦ ?_⟩
    rw [within_array, List.length_set]
    refine ⟨h.1.trans hmore, fun item hitem ↦ ?_⟩
    obtain hitem | rfl := List.mem_or_eq_of_mem_set hitem
    · exact (h.2 item hitem).mono hmore
    · exact hreplacement
  | object members =>
    obtain ⟨found, hfound, hdescend⟩ := Option.bind_eq_some_iff.mp hdescend
    obtain ⟨rfl, rfl⟩ := Prod.mk.inj (Option.some.inj hdescend)
    refine ⟨within_object.mp h _ (mem_of_lookup hfound), ?_⟩
    intro more replacement hmore hreplacement
    exact (h.mono hmore).defineMember hreplacement
  | null => cases hdescend
  | bool value => cases hdescend
  | number value => cases hdescend
  | string value => cases hdescend

theorem Within.editAt {tokens : List String}
    (hvalue : ∀ value, edit.value = some value → Within bound value)
    (hedit : editAt edit tokens parent = .ok result) : Within (bound + 1) result := by
  induction tokens generalizing parent result with
  | nil => cases hedit
  | cons token tokens ih =>
    cases tokens with
    | nil => exact h.editMember hvalue hedit
    | cons next tokens =>
      obtain ⟨⟨child, rebuild⟩, hdescend, hedit⟩ := Except.bind_eq_ok.mp hedit
      obtain ⟨replacement, hreplacement, hedit⟩ := Except.bind_eq_ok.mp hedit
      obtain rfl := Except.ok.inj hedit
      obtain ⟨hchild, hrebuild⟩ := h.descend (require_eq_ok.mp hdescend)
      exact hrebuild _ _ (Nat.le_succ bound) (ih hchild hreplacement)

end

theorem Within.applyEdit {document result : Option Json}
    (h : ∀ value, document = some value → Within bound value)
    (hvalue : ∀ value, edit.value = some value → Within bound value)
    (hedit : applyEdit document edit = .ok result) :
    ∀ value, result = some value → Within (bound + 1) value := by
  intro value hresult
  unfold Retained.applyEdit at hedit
  split at hedit
  · split at hedit
    · obtain rfl := Except.ok.inj hedit
      exact (hvalue value hresult).mono (Nat.le_succ bound)
    · cases hedit
  · obtain rfl := Except.ok.inj hedit
    exact (hvalue value hresult).mono (Nat.le_succ bound)
  · cases hedit
  · cases hedit
  · next root _ =>
    split at hedit
    · next edited hedited =>
      obtain rfl := Except.ok.inj hedit
      obtain rfl := Option.some.inj hresult
      exact (h root rfl).editAt hvalue hedited
    · cases hedit

end Sizes

section Simulation

/-- An integer that no array of the bound reaches is a safe one. -/
def safeBound : ℕ := 2 ^ 53

variable {bound : ℕ} {edit : ObjectEdit}

theorem meaning_path (edit : ObjectEdit) : edit.meaning.path = edit.path := by
  cases edit <;> rfl

theorem meaning_isAdd (edit : ObjectEdit) : edit.meaning.isAdd = edit.isAdd := by
  cases edit <;> rfl

theorem meaning_value (edit : ObjectEdit) : edit.meaning.value = edit.value.map denote := by
  cases edit <;> rfl

theorem toOption_bind {α β : Type} (first : Except String α) (next : α → Except String β) :
    (first >>= next).toOption = first.toOption >>= fun value ↦ (next value).toOption := by
  cases first <;> rfl

theorem toOption_check (condition : Prop) [Decidable condition] (message : String) :
    (check condition message).toOption = if condition then some () else none := by
  unfold check
  split <;> rfl

theorem toOption_require {α : Type} (value : Option α) (message : String) :
    (require value message).toOption = value := by
  cases value <;> rfl

theorem meaning_position (edit : ObjectEdit) (name : String) (count : ℕ) :
    edit.meaning.position name count =
      if name = "-" ∧ edit.isAdd then some count else arrayIndex name := by
  rw [Edit.position, meaning_isAdd, arrayIndex_eq]

variable {parent : Json}

theorem editMember_meaning (h : Within bound parent) (hbound : bound < safeBound) (name : String) :
    (editMember edit name parent).toOption.map denote =
      edit.meaning.editLast name (denote parent) := by
  cases parent with
  | array items =>
    have hlength := (within_array.mp h).1
    rw [denote, Edit.editLast, denoteItems_eq_map, length_map, meaning_position]
    unfold editMember
    rw [toOption_bind, toOption_require]
    cases (if name = "-" ∧ edit.isAdd = true then some items.length else arrayIndex name) with
    | none => rfl
    | some index =>
      simp only [bind_eq_bind, bind_some, toOption_bind, toOption_check]
      have hsafe : index ≤ items.length → index < 2 ^ 53 := fun hindex ↦
        lt_of_le_of_lt (hindex.trans hlength) hbound
      cases edit with
      | add path value =>
        simp only [ObjectEdit.meaning, Edit.editItems, ObjectEdit.isAdd, length_map, true_or,
          and_true]
        by_cases hindex : index ≤ items.length
        · rw [if_pos ⟨hsafe hindex, hindex⟩, if_pos hindex, ← List.map_insertIdx,
            ← denoteItems_eq_map]
          rfl
        · rw [if_neg fun hboth ↦ hindex hboth.2, if_neg hindex]
          rfl
      | replace path value =>
        simp only [ObjectEdit.meaning, Edit.editItems, ObjectEdit.isAdd, length_map,
          Bool.false_eq_true, false_or]
        by_cases hindex : index < items.length
        · rw [if_pos ⟨hsafe hindex.le, hindex.le, hindex.ne⟩, if_pos hindex, ← List.map_set,
            ← denoteItems_eq_map]
          rfl
        · rw [if_neg fun hall ↦ hindex (lt_of_le_of_ne hall.2.1 hall.2.2), if_neg hindex]
          rfl
      | remove path =>
        simp only [ObjectEdit.meaning, Edit.editItems, ObjectEdit.isAdd, length_map,
          Bool.false_eq_true, false_or]
        by_cases hindex : index < items.length
        · rw [if_pos ⟨hsafe hindex.le, hindex.le, hindex.ne⟩, if_pos hindex, List.eraseIdx_map,
            ← denoteItems_eq_map]
          rfl
        · rw [if_neg fun hall ↦ hindex (lt_of_le_of_ne hall.2.1 hall.2.2), if_neg hindex]
          rfl
  | object members =>
    have hfound : (denoteMembers members name).isSome = (members.lookup name).isSome := by
      rw [denoteMembers_eq_lookup, Option.isSome_map]
    rw [denote]
    unfold editMember
    rw [toOption_bind, toOption_check]
    cases edit with
    | add path value =>
      have hadd : (ObjectEdit.add path value).isAdd = true ∨ (members.lookup name).isSome = true :=
        Or.inl rfl
      rw [if_pos hadd, ObjectEdit.meaning, Edit.editLast, ← denoteMembers_define]
      rfl
    | replace path value =>
      rw [ObjectEdit.meaning, Edit.editLast, hfound]
      simp only [ObjectEdit.isAdd, Bool.false_eq_true, false_or]
      by_cases hsome : (members.lookup name).isSome = true
      · rw [if_pos hsome, if_pos hsome, ← denoteMembers_define]
        rfl
      · rw [if_neg hsome, if_neg hsome]
        rfl
    | remove path =>
      rw [ObjectEdit.meaning, Edit.editLast, hfound]
      simp only [ObjectEdit.isAdd, Bool.false_eq_true, false_or]
      by_cases hsome : (members.lookup name).isSome = true
      · rw [if_pos hsome, if_pos hsome, ← denoteMembers_delete]
        rfl
      · rw [if_neg hsome, if_neg hsome]
        rfl
  | null => rfl
  | bool value => rfl
  | number value => rfl
  | string value => rfl

theorem toOption_change (change : Json → Except String Json) (child : Json)
    (rebuild : Json → Json) :
    (change child >>= fun replacement ↦ pure (rebuild replacement)).toOption =
      (change child).toOption.map rebuild := by
  cases change child <;> rfl

variable (token : String)

theorem descend_array (items : List Json) :
    descend token (.array items) = (arrayIndex token).bind fun index ↦
      items[index]?.map fun child ↦
        (child, fun replacement ↦ .array (items.set index replacement)) := by
  unfold descend
  cases arrayIndex token with
  | none => rfl
  | some index =>
    simp only [bind_eq_bind, bind_some]
    cases items[index]? <;> rfl

theorem descend_object (members : JsonObject) :
    descend token (.object members) = (members.lookup token).map fun child ↦
      (child, fun replacement ↦ .object (defineMember members token replacement)) := by
  unfold descend
  simp only [bind_eq_bind]
  cases members.lookup token <;> rfl

theorem descend_meaning {token : String}
    {change : Json → Except String Json} {target : Document Json → Option (Document Json)}
    (h : ∀ child rebuild, descend token parent = some (child, rebuild) →
      (change child).toOption.map denote = target (denote child)) :
    (require (descend token parent) "patch parent does not exist" >>= fun found ↦
      change found.1 >>= fun replacement ↦ pure (found.2 replacement)).toOption.map denote =
      JsonPatch.Edit.replaceChild token target (denote parent) := by
  rw [toOption_bind, toOption_require]
  cases parent with
  | array items =>
    rw [denote, Edit.replaceChild, denoteItems_eq_map, ← arrayIndex_eq]
    rw [descend_array] at h ⊢
    cases hindex : arrayIndex token with
    | none => rfl
    | some index =>
      simp only [bind_some, List.getElem?_map]
      cases hchild : items[index]? with
      | none => rfl
      | some child =>
        have hmeaning := h child _ (by rw [hindex, bind_some, hchild]; rfl)
        simp only [map_some, bind_eq_bind, bind_some, toOption_change]
        rw [← hmeaning, Option.map_map, Option.map_map]
        congr 1
        funext replacement
        simp only [Function.comp_apply]
        rw [denote, denoteItems_eq_map, List.map_set]
  | object members =>
    rw [denote, Edit.replaceChild, denoteMembers_eq_lookup]
    rw [descend_object] at h ⊢
    cases hchild : members.lookup token with
    | none => rfl
    | some child =>
      have hmeaning := h child _ (by rw [hchild]; rfl)
      simp only [map_some, bind_eq_bind, bind_some, toOption_change]
      rw [← hmeaning, Option.map_map, Option.map_map]
      congr 1
      funext replacement
      simp only [Function.comp_apply]
      rw [denote, denoteMembers_define]
  | null => rfl
  | bool value => rfl
  | number value => rfl
  | string value => rfl

theorem editAt_meaning (edit : ObjectEdit) (tokens : List String) (h : Within bound parent)
    (hbound : bound < safeBound) :
    (editAt edit tokens parent).toOption.map denote =
      edit.meaning.editWithin tokens (denote parent) := by
  induction tokens generalizing parent with
  | nil => rfl
  | cons token tokens ih =>
    cases tokens with
    | nil => exact editMember_meaning h hbound token
    | cons next tokens =>
      rw [editAt.eq_3 _ _ _ _ (by simp), JsonPatch.Edit.editWithin.eq_3 _ _ _ _ (by simp)]
      apply descend_meaning
      intro child rebuild hdescend
      exact ih (h.descend hdescend).1

variable {document : Option Json}

theorem applyEdit_meaning (edit : ObjectEdit)
    (h : ∀ value, document = some value → Within bound value) (hbound : bound < safeBound)
    (hpointer : isPointer edit.path = true) :
    (applyEdit document edit).toOption.map (Option.map denote) =
      edit.meaning.apply (document.map denote) := by
  rw [Edit.apply, meaning_path, parsePointer_path hpointer, bind_some, meaning_isAdd, meaning_value]
  unfold applyEdit
  cases document with
  | none =>
    match edit.tokens with
    | [] => cases edit <;> rfl
    | [_] => rfl
    | _ :: _ :: _ => rfl
  | some root =>
    cases htokens : edit.tokens with
    | nil => rfl
    | cons token tokens =>
      have hmeaning := editAt_meaning edit (token :: tokens) (h root rfl) hbound
      simp only [map_some]
      rw [← hmeaning]
      cases editAt edit (token :: tokens) root <;> rfl

variable {changes : ObjectChange}

theorem foldlM_meaning (bound : ℕ) (h : ∀ value, document = some value → Within bound value)
    (hvalues : ∀ edit ∈ changes, ∀ value, edit.value = some value → Within bound value)
    (hbound : bound + changes.length ≤ safeBound)
    (hpointers : ∀ edit ∈ changes, isPointer edit.path = true) :
    (changes.foldlM applyEdit document).toOption.map (Option.map denote) =
      JsonPatch.run (changes.map ObjectEdit.meaning) (document.map denote) := by
  induction changes generalizing bound document with
  | nil => rfl
  | cons edit changes ih =>
    rw [List.length_cons] at hbound
    have hfirst := applyEdit_meaning edit h (by omega) (hpointers edit List.mem_cons_self)
    rw [List.foldlM_cons, List.map_cons, JsonPatch.run, List.foldlM_cons, ← hfirst]
    cases hedit : applyEdit document edit with
    | error failure => rfl
    | ok next =>
      have hnext := Within.applyEdit h (hvalues edit List.mem_cons_self) hedit
      exact ih _ hnext (fun other hother value hvalue ↦
        (hvalues other (List.mem_cons_of_mem edit hother) value hvalue).mono (Nat.le_succ bound))
        (by omega) fun other hother ↦ hpointers other (List.mem_cons_of_mem edit hother)

def IsObject (document : Option (Document Json)) : Prop :=
  ∃ members, document = some (.object members)

theorem isObject_denote :
    IsObject (document.map denote) ↔ ∃ members, document = some (.object members) := by
  constructor
  · rintro ⟨members, hmembers⟩
    obtain ⟨value, rfl, hvalue⟩ := Option.map_eq_some_iff.mp hmembers
    cases value with
    | object members => exact ⟨members, rfl⟩
    | null => cases hvalue
    | bool value => cases hvalue
    | number value => cases hvalue
    | string value => cases hvalue
    | array items => cases hvalue
  · rintro ⟨members, rfl⟩
    exact ⟨denoteMembers members, rfl⟩

variable {before : JsonObject}
variable {after : JsonObject}

theorem applyObjectChange_eq_ok : applyObjectChange before changes = .ok after ↔
      changes.foldlM applyEdit (some (.object before)) = .ok (some (.object after)) := by
  unfold applyObjectChange
  rw [Except.bind_eq_ok]
  constructor
  · rintro ⟨document, hdocument, hafter⟩
    rw [hdocument]
    split at hafter
    · obtain rfl := Except.ok.inj hafter
      rfl
    · cases hafter
  · intro h
    exact ⟨_, h, rfl⟩

/-- What an ordinary request can carry: pointers, and arrays below the length limit. -/
structure Admissible (before : JsonObject) (changes : ObjectChange) : Prop where
  pointers : ∀ edit ∈ changes, isPointer edit.path = true
  before : Within (2 ^ 32) (.object before)
  values : ∀ edit ∈ changes, ∀ value, edit.value = some value → Within (2 ^ 32) value
  count : changes.length ≤ 2 ^ 32

/-- What RFC 6902 makes of an object: none where an edit fails, else the document left. -/
def reference (before : JsonObject) (changes : ObjectChange) : Option (Option (Document Json)) :=
  JsonPatch.run (changes.map ObjectEdit.meaning) (some (denote (.object before)))

section

variable (h : Admissible before changes)
include h

theorem reference_eq : reference before changes =
      (changes.foldlM applyEdit (some (.object before))).toOption.map (Option.map denote) := by
  symm
  apply foldlM_meaning (2 ^ 32)
  · intro value hvalue
    exact Option.some.inj hvalue ▸ h.before
  · exact h.values
  · exact (Nat.add_le_add_left h.count _).trans (by decide)
  · exact h.pointers

theorem reference_of_ok (hafter : applyObjectChange before changes = .ok after) :
    reference before changes = some (some (denote (.object after))) := by
  rw [reference_eq h, applyObjectChange_eq_ok.mp hafter]
  rfl

theorem applyObjectChange_error_iff :
    (∃ failure, applyObjectChange before changes = .error failure) ↔
      ∀ document, reference before changes = some document → ¬ IsObject document := by
  rw [reference_eq h]
  constructor
  · rintro ⟨failure, hfailure⟩ document hdocument hobject
    obtain ⟨result, hresult, rfl⟩ := Option.map_eq_some_iff.mp hdocument
    obtain ⟨after, rfl⟩ := isObject_denote.mp hobject
    have hfold : changes.foldlM applyEdit (some (.object before)) = .ok (some (.object after)) := by
      cases hcase : changes.foldlM applyEdit (some (.object before)) with
      | error problem =>
        rw [hcase] at hresult
        cases hresult
      | ok value =>
        rw [hcase] at hresult
        rw [Option.some.inj hresult]
    rw [applyObjectChange_eq_ok.mpr hfold] at hfailure
    cases hfailure
  · intro hnot
    cases hresult : applyObjectChange before changes with
    | error failure => exact ⟨failure, rfl⟩
    | ok after =>
      rw [applyObjectChange_eq_ok.mp hresult] at hnot
      exact absurd (isObject_denote.mpr ⟨after, rfl⟩) (hnot _ rfl)

end

end Simulation

end Bdp.Retained
