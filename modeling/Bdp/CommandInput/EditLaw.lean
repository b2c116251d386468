import Bdp.Library.Grouping
import Bdp.Library.Spans
import Bdp.CommandInput.ObjectEdits

/-!
# What compiled object edits do

Applying the edits of a merge or of keyed options to an object changes exactly the named members,
and every key names the member that it spells.
-/

namespace Bdp.CommandInput

open Retained
open Bdp.Except (bind_eq_ok ok_bind)
open List (foldlM_cons lookup_cons lookup_nil mem_cons mem_map)

section Pointers

theorem replaceLetter_cons (letter other : Char) (text value : List Char) :
    replaceLetter letter text (other :: value) =
      (if other = letter then text else [other]) ++ replaceLetter letter text value := rfl

/-- A key in a pointer: its tildes and slashes escaped. -/
def escapedKey (value : List Char) : List Char :=
  replaceLetter '/' ['~', '1'] (replaceLetter '~' ['~', '0'] value)

theorem escapedKey_cons (letter : Char) (value : List Char) : escapedKey (letter :: value) =
      (if letter = '~' then ['~', '0'] else if letter = '/' then ['~', '1'] else [letter]) ++
        escapedKey value := by
  unfold escapedKey
  rw [replaceLetter_cons]
  by_cases htilde : letter = '~'
  · rw [if_pos htilde, if_pos htilde]
    rfl
  · rw [if_neg htilde, if_neg htilde]
    rfl

variable (value : List Char)

theorem slash_not_mem_escapedKey : '/' ∉ escapedKey value := by
  induction value with
  | nil => exact List.not_mem_nil
  | cons letter value ih =>
    rw [escapedKey_cons, List.mem_append]
    rintro (h | h)
    · split at h
      · exact absurd h (by decide)
      · split at h
        · exact absurd h (by decide)
        · next hslash => exact hslash (List.mem_singleton.mp h).symm
    · exact ih h

theorem unescapeToken_escapedKey : ObjectEdit.unescapeToken (escapedKey value) = value := by
  induction value with
  | nil => rfl
  | cons letter value ih =>
    rw [escapedKey_cons]
    split
    · next htilde =>
      rw [htilde, List.cons_append, List.singleton_append, unescapeToken_tilde, ih]
    · next htilde =>
      split
      · next hslash =>
        rw [hslash, List.cons_append, List.singleton_append, unescapeToken_slash, ih]
      · rw [List.singleton_append, unescapeToken_cons htilde, ih]

theorem isReferenceToken_escapedKey : isReferenceToken (escapedKey value) = true := by
  induction value with
  | nil => rfl
  | cons letter value ih =>
    rw [escapedKey_cons]
    split
    · exact (Bool.and_eq_true _ _).mpr ⟨rfl, ih⟩
    · next htilde =>
      split
      · exact (Bool.and_eq_true _ _).mpr ⟨rfl, ih⟩
      · rw [List.singleton_append]
        cases hrest : escapedKey value with
        | nil => simp [isReferenceToken, htilde]
        | cons next rest =>
          rw [hrest] at ih
          rw [isReferenceToken, if_neg htilde]
          exact ih

theorem splitOn_escapedKey : (escapedKey value).splitOn '/' = [escapedKey value] :=
  List.splitOn_eq_singleton (slash_not_mem_escapedKey value)

variable (key : String)

theorem pointer_toList : (pointer key).toList = '/' :: escapedKey key.toList := String.toList_ofList

theorem pointer_ne_empty : pointer key ≠ "" := by
  intro h
  have hlist := pointer_toList key
  rw [h] at hlist
  cases hlist

theorem tokens_pointer {edit : ObjectEdit} {key : String} (h : edit.path = pointer key) :
    edit.tokens = [key] := by
  rw [ObjectEdit.tokens, h, if_neg (pointer_ne_empty key), pointer_toList, List.drop_succ_cons,
    List.drop_zero, splitOn_escapedKey, List.map_singleton, unescapeToken_escapedKey,
    String.ofList_toList]

theorem isPointer_pointer : isPointer (pointer key) = true := by
  rw [isPointer, pointer_toList]
  simp only [splitOn_escapedKey, List.all_cons, List.all_nil, isReferenceToken_escapedKey,
    beq_self_eq_true, Bool.and_self]

end Pointers

variable {change : ObjectChange}

section Applying

variable {members : JsonObject} {key other : String} {value : Json}

theorem applyEdit_add : applyEdit (some (.object members)) (.add (pointer key) value) =
      .ok (some (.object (defineMember members key value))) := by
  have htokens : (ObjectEdit.add (pointer key) value).tokens = [key] := tokens_pointer rfl
  have hedit : editAt (.add (pointer key) value) [key] (.object members) =
      .ok (.object (defineMember members key value)) := rfl
  simp only [applyEdit, htokens, hedit]

theorem applyEdit_remove (h : (members.lookup key).isSome) :
    applyEdit (some (.object members)) (.remove (pointer key)) =
      .ok (some (.object (deleteMember members key))) := by
  have htokens : (ObjectEdit.remove (pointer key)).tokens = [key] := tokens_pointer rfl
  have hedit : editAt (.remove (pointer key)) [key] (.object members) =
      .ok (.object (deleteMember members key)) := by
    rw [editAt, editMember, check_of (.inr h)]
    rfl
  simp only [applyEdit, htokens, hedit]

def defineAll (members : JsonObject) (additions : List (String × Json)) : JsonObject :=
  additions.foldl (fun members entry ↦ defineMember members entry.1 entry.2) members

/-- The members after each of the keys was set to null and removed. -/
def deleteAll (members : JsonObject) (keys : List String) : JsonObject :=
  keys.foldl (fun members key ↦ deleteMember (defineMember members key .null) key) members

variable (additions : List (String × Json))

theorem foldlM_additions :
    (additions.map fun entry ↦ ObjectEdit.add (pointer entry.1) entry.2).foldlM applyEdit
        (some (.object members)) =
      .ok (some (.object (defineAll members additions))) := by
  induction additions generalizing members with
  | nil => rfl
  | cons entry additions ih =>
    rw [List.map_cons, foldlM_cons, applyEdit_add, ok_bind, ih]
    rfl

variable (keys : List String)

theorem foldlM_unsets : (keys.flatMap unsetEdits).foldlM applyEdit (some (.object members)) =
      .ok (some (.object (deleteAll members keys))) := by
  induction keys generalizing members with
  | nil => rfl
  | cons key keys ih =>
    have hthere : ((defineMember members key .null).lookup key).isSome := by
      rw [lookup_defineMember, if_pos rfl]
      rfl
    rw [List.flatMap_cons, List.foldlM_append, unsetEdits, foldlM_cons, applyEdit_add,
      ok_bind, foldlM_cons, applyEdit_remove hthere, ok_bind, List.foldlM_nil,
      Except.pure_eq_ok, ok_bind, ih]
    rfl

theorem lookup_defineAll : (defineAll members additions).lookup key =
      (additions.reverse.lookup key).or (members.lookup key) := by
  induction additions generalizing members with
  | nil => rfl
  | cons entry additions ih =>
    have hfold : defineAll members (entry :: additions) =
        defineAll (defineMember members entry.1 entry.2) additions := rfl
    rw [hfold, ih, lookup_defineMember, List.reverse_cons, List.lookup_append, Option.or_assoc,
      lookup_cons, lookup_nil]
    by_cases h : key = entry.1
    · rw [if_pos h, beq_iff_eq.mpr h]
      rfl
    · rw [if_neg h, beq_eq_false_iff_ne.mpr h]
      rfl

theorem lookup_deleteAll :
    (deleteAll members keys).lookup key = if key ∈ keys then none else members.lookup key := by
  induction keys generalizing members with
  | nil => rfl
  | cons first keys ih =>
    have hfold : deleteAll members (first :: keys) =
        deleteAll (deleteMember (defineMember members first .null) first) keys := rfl
    rw [hfold, ih, lookup_deleteMember, lookup_defineMember]
    by_cases hkeys : key ∈ keys
    · rw [if_pos hkeys, if_pos (List.mem_cons_of_mem _ hkeys)]
    · rw [if_neg hkeys]
      by_cases hfirst : key = first
      · rw [if_pos hfirst, if_pos (hfirst ▸ List.mem_cons_self)]
      · rw [if_neg hfirst, if_neg hfirst, if_neg (not_or.mpr ⟨hfirst, hkeys⟩ ∘ mem_cons.mp)]

theorem applyObjectChange_of_foldlM {before after : JsonObject}
    (h : change.foldlM applyEdit (some (.object before)) = .ok (some (.object after))) :
    applyObjectChange before change = .ok after := by
  rw [applyObjectChange, h]
  rfl

end Applying

variable {json : String → Except String Json} {sets : List String}

section Assignments

def IsDigits (text : List Char) : Prop := text ≠ [] ∧ ∀ letter ∈ text, letter.isDigit = true

def IsFraction (text : List Char) : Prop :=
  text = [] ∨ ∃ digits, text = '.' :: digits ∧ IsDigits digits

def IsExponent (text : List Char) : Prop :=
  text = [] ∨ ∃ mark sign digits, text = mark :: (sign ++ digits) ∧ (mark = 'e' ∨ mark = 'E') ∧
    (sign = [] ∨ sign = ['+'] ∨ sign = ['-']) ∧ IsDigits digits

def IsNumber (text : List Char) : Prop :=
  ∃ sign whole fraction exponent, text = sign ++ (whole ++ (fraction ++ exponent)) ∧
    (sign = [] ∨ sign = ['-']) ∧ IsDigits whole ∧ (whole = ['0'] ∨ whole.head? ≠ some '0') ∧
    IsFraction fraction ∧ IsExponent exponent

/-- Null, a boolean or a number stands for itself; any other text is a string. -/
def Denotes (json : String → Except String Json) (text : String) (value : Json) : Prop :=
  let scalar := text = "null" ∨ text = "true" ∨ text = "false" ∨ IsNumber text.toList
  (scalar ∧ json text = .ok value) ∨ (¬ scalar ∧ value = .string text)

/-- `KEY=VALUE`: the key is what stands before the first equals sign. -/
structure Assigns (json : String → Except String Json) (entry : String)
    (assignment : String × Json) : Prop where
  split : ∃ text, entry.toList = assignment.1.toList ++ '=' :: text.toList ∧
    Denotes json text assignment.2
  first : '=' ∉ assignment.1.toList

variable {text rest : List Char}

theorem isDigits_iff : IsDigits text ↔ (!text.isEmpty && text.all Char.isDigit) = true := by
  rw [Bool.and_eq_true, Bool.not_eq_true', List.isEmpty_eq_false_iff, List.all_eq_true]
  rfl

theorem IsDigits.head (h : IsDigits text) : ∃ first, text.head? = some first ∧
    first.isDigit = true := by
  obtain ⟨first, digits, rfl⟩ := List.exists_cons_of_ne_nil h.1
  exact ⟨first, rfl, h.2 first List.mem_cons_self⟩

theorem isExponent_iff : isExponent text = true ↔ IsExponent text := by
  unfold isExponent IsExponent
  split
  · simp
  next mark rest =>
    simp only [List.cons_ne_nil, false_or, List.cons.injEq]
    rw [Bool.and_assoc, Bool.and_eq_true, ← isDigits_iff, Bool.or_eq_true, decide_eq_true_iff,
      decide_eq_true_iff]
    constructor
    · rintro ⟨hmark, hdigits⟩
      split at hdigits
      · exact ⟨mark, ['+'], _, ⟨rfl, rfl⟩, hmark, .inr (.inl rfl), hdigits⟩
      · exact ⟨mark, ['-'], _, ⟨rfl, rfl⟩, hmark, .inr (.inr rfl), hdigits⟩
      · exact ⟨mark, [], _, ⟨rfl, rfl⟩, hmark, .inl rfl, hdigits⟩
    · rintro ⟨_, sign, digits, ⟨rfl, rfl⟩, hmark, hsign, hdigits⟩
      refine ⟨hmark, ?_⟩
      obtain rfl | rfl | rfl := hsign
      · obtain ⟨first, hfirst, hdigit⟩ := hdigits.head
        rw [List.nil_append]
        split
        · cases hfirst
          exact absurd hdigit (by decide)
        · cases hfirst
          exact absurd hdigit (by decide)
        · exact hdigits
      · exact hdigits
      · exact hdigits

theorem IsExponent.head (h : IsExponent text) :
    ∀ letter ∈ text.head?, letter = 'e' ∨ letter = 'E' := by
  obtain rfl | ⟨mark, sign, digits, rfl, hmark, -⟩ := h
  · simp
  · rintro letter hletter
    cases hletter
    exact hmark

theorem span_digits (h : IsDigits text)
    (hrest : ∀ letter ∈ rest.head?, letter = '.' ∨ letter = 'e' ∨ letter = 'E') :
    (text ++ rest).takeWhile Char.isDigit = text ∧
      (text ++ rest).dropWhile Char.isDigit = rest := by
  apply Spans.span_append h.2
  intro letter hletter
  obtain rfl | rfl | rfl := hrest letter hletter <;> decide

theorem isUnsigned_iff :
    (!(text.takeWhile Char.isDigit).isEmpty &&
      (text.takeWhile Char.isDigit = ['0'] || (text.takeWhile Char.isDigit).head? ≠ some '0') &&
      match (match text.dropWhile Char.isDigit with
        | '.' :: rest => some rest
        | _ => none) with
      | some rest =>
        !(rest.takeWhile Char.isDigit).isEmpty && isExponent (rest.dropWhile Char.isDigit)
      | none => isExponent (text.dropWhile Char.isDigit)) = true ↔
      ∃ whole fraction exponent, text = whole ++ (fraction ++ exponent) ∧ IsDigits whole ∧
        (whole = ['0'] ∨ whole.head? ≠ some '0') ∧ IsFraction fraction ∧ IsExponent exponent := by
  have hdigits (text : List Char) (h : !(text.takeWhile Char.isDigit).isEmpty) :
      IsDigits (text.takeWhile Char.isDigit) :=
    isDigits_iff.mpr (Bool.and_eq_true _ _ ▸ ⟨h, List.all_takeWhile⟩)
  rw [Bool.and_eq_true, Bool.and_eq_true, Bool.or_eq_true, decide_eq_true_iff, decide_eq_true_iff]
  constructor
  · rintro ⟨⟨hwhole, hzero⟩, hrest⟩
    have hsplit : text = text.takeWhile Char.isDigit ++ text.dropWhile Char.isDigit :=
      List.takeWhile_append_dropWhile.symm
    cases hdrop : text.dropWhile Char.isDigit with
    | nil =>
      rw [hdrop] at hsplit
      exact ⟨_, [], [], hsplit, hdigits _ hwhole, hzero, .inl rfl, .inl rfl⟩
    | cons letter after =>
      rw [hdrop] at hsplit hrest
      by_cases hpoint : letter = '.'
      · subst hpoint
        obtain ⟨hfraction, hexponent⟩ := (Bool.and_eq_true _ _).mp hrest
        refine ⟨_, '.' :: after.takeWhile Char.isDigit, after.dropWhile Char.isDigit, ?_,
          hdigits _ hwhole, hzero, .inr ⟨_, rfl, hdigits _ hfraction⟩, isExponent_iff.mp hexponent⟩
        rw [List.cons_append, List.takeWhile_append_dropWhile]
        exact hsplit
      · have hnone : (match letter :: after with
            | '.' :: rest => some rest
            | _ => none) = none := by
          split
          · next heq => exact absurd (List.cons.inj heq).1 hpoint
          · rfl
        rw [hnone] at hrest
        exact ⟨_, [], letter :: after, hsplit, hdigits _ hwhole, hzero, .inl rfl,
          isExponent_iff.mp hrest⟩
  · rintro ⟨whole, fraction, exponent, rfl, hwhole, hzero, hfraction, hexponent⟩
    have hhead : ∀ letter ∈ (fraction ++ exponent).head?,
        letter = '.' ∨ letter = 'e' ∨ letter = 'E' := by
      obtain rfl | ⟨digits, rfl, -⟩ := hfraction
      · exact fun letter hletter ↦ .inr (hexponent.head letter hletter)
      · rintro letter hletter
        cases hletter
        exact .inl rfl
    obtain ⟨htake, hdrop⟩ := span_digits hwhole hhead
    rw [htake, hdrop]
    refine ⟨⟨by simpa using hwhole.1, hzero⟩, ?_⟩
    obtain rfl | ⟨digits, rfl, hdigits⟩ := hfraction
    · have hnone : (match exponent with
          | '.' :: rest => some rest
          | _ => none) = none := by
        split
        · exact absurd (hexponent.head '.' rfl) (by decide)
        · rfl
      rw [List.nil_append, hnone]
      exact isExponent_iff.mpr hexponent
    · obtain ⟨htake, hdrop⟩ := span_digits hdigits fun letter hletter ↦
        .inr (hexponent.head letter hletter)
      rw [List.cons_append]
      simp only [htake, hdrop]
      exact (Bool.and_eq_true _ _).mpr ⟨by simpa using hdigits.1, isExponent_iff.mpr hexponent⟩

theorem isNumberText_iff : isNumberText text = true ↔ IsNumber text := by
  unfold isNumberText
  refine isUnsigned_iff.trans ?_
  constructor
  · rintro ⟨whole, fraction, exponent, hsplit, hrest⟩
    split at hsplit
    · exact ⟨['-'], whole, fraction, exponent, congrArg _ hsplit, .inr rfl, hrest⟩
    · exact ⟨[], whole, fraction, exponent, hsplit, .inl rfl, hrest⟩
  · rintro ⟨sign, whole, fraction, exponent, rfl, rfl | rfl, hrest⟩
    · refine ⟨whole, fraction, exponent, ?_, hrest⟩
      obtain ⟨first, hfirst, hdigit⟩ := hrest.1.head
      split
      · next unsigned heq =>
        obtain ⟨letter, digits, rfl⟩ := List.exists_cons_of_ne_nil hrest.1.1
        cases hfirst
        obtain rfl := (List.cons.inj heq).1
        exact absurd hdigit (by decide)
      · rfl
    · exact ⟨whole, fraction, exponent, rfl, hrest⟩

theorem readSet_eq_ok {entry : String} {assignment : String × Json} :
    readSet json entry = .ok assignment ↔ Assigns json entry assignment := by
  have hvalue (text : String) (value : Json) :
      keyedValue json text = .ok value ↔ Denotes json text value := by
    have hscalar : (text = "null" ∨ text = "true" ∨ text = "false" ∨
        isNumberText text.toList = true) ↔
          (text = "null" ∨ text = "true" ∨ text = "false" ∨ IsNumber text.toList) := by
      rw [isNumberText_iff]
    unfold keyedValue
    split
    · next h =>
      exact ⟨fun hread ↦ .inl ⟨hscalar.mp h, hread⟩, fun hdenotes ↦
        hdenotes.elim And.right fun hother ↦ absurd (hscalar.mp h) hother.1⟩
    · next h =>
      exact ⟨fun hread ↦ .inr ⟨h ∘ hscalar.mpr, (Except.ok.inj hread).symm⟩, fun hdenotes ↦
        hdenotes.elim (fun hread ↦ absurd (hscalar.mpr hread.1) h) fun hother ↦
          congrArg _ hother.2.symm⟩
  unfold readSet
  rw [check_bind_eq_ok, bind_eq_ok]
  constructor
  · rintro ⟨hmem, value, hread, hassignment⟩
    cases hassignment
    obtain ⟨rest, hrest⟩ : ∃ rest, entry.toList.dropWhile (· ≠ '=') = '=' :: rest := by
      cases hdrop : entry.toList.dropWhile (· ≠ '=') with
      | nil => exact absurd (List.dropWhile_eq_nil_iff.mp hdrop _ hmem) (by simp)
      | cons letter rest =>
        have hletter := List.head?_dropWhile_not (· ≠ '=') entry.toList
        rw [hdrop] at hletter
        exact ⟨rest, by simpa using hletter⟩
    rw [hrest] at hread
    refine ⟨⟨_, ?_, (hvalue _ _).mp hread⟩, ?_⟩
    · rw [String.toList_ofList, String.toList_ofList, List.drop_one, List.tail_cons, ← hrest]
      exact List.takeWhile_append_dropWhile.symm
    · rw [String.toList_ofList]
      exact fun h ↦ absurd (List.mem_takeWhile_imp h) (by simp)
  · rintro ⟨⟨text, hsplit, hdenotes⟩, hfirst⟩
    rw [hsplit, Spans.takeWhile_separator hfirst, Spans.dropWhile_separator hfirst, List.drop_one,
      List.tail_cons, String.ofList_toList, String.ofList_toList]
    exact ⟨by simp, _, (hvalue _ _).mpr hdenotes, rfl⟩

end Assignments

section Bytes

def inputBytes (entries : List String) : ℤ := (entries.map fun entry ↦ (entry.utf8ByteSize : ℤ)).sum

theorem inputBytes_cons (entry : String) (entries : List String) :
    inputBytes (entry :: entries) = entry.utf8ByteSize + inputBytes entries := rfl

theorem inputBytes_nonneg (entries : List String) : 0 ≤ inputBytes entries := by
  induction entries with
  | nil => exact le_rfl
  | cons entry entries ih =>
    rw [inputBytes_cons]
    omega

theorem charge_eq_ok {bytes : ℕ} {remaining left : ℤ} :
    charge bytes remaining = .ok left ↔ (bytes : ℤ) ≤ remaining ∧ left = remaining - bytes := by
  unfold charge
  rw [check_bind_eq_ok, sub_nonneg]
  exact and_congr_right fun _ ↦ ⟨fun h ↦ (Except.ok.inj h).symm, fun h ↦ congrArg _ h.symm⟩

end Bytes

section Compiled

variable {key : String}

/-- The additions of a merge, in the order of the sorted names. -/
def mergeEntries (record : JsonObject) : List (String × Json) :=
  ((record.map Prod.fst).insertionSort SortsBefore).filterMap fun key ↦
    (record.lookup key).map fun value ↦ (key, value)

variable (record : JsonObject)

theorem mergeEdits_eq : mergeEdits record =
      (mergeEntries record).map fun entry ↦ ObjectEdit.add (pointer entry.1) entry.2 := by
  rw [mergeEntries, List.map_filterMap]
  refine List.filterMap_congr fun key _ ↦ ?_
  cases record.lookup key <;> rfl

theorem lookup_filterMap_keys (keys : List String) :
    (keys.filterMap fun key ↦ (record.lookup key).map fun value ↦ (key, value)).lookup key =
      if key ∈ keys then record.lookup key else none := by
  induction keys with
  | nil => rfl
  | cons first keys ih =>
    rw [List.filterMap_cons]
    cases hfirst : record.lookup first with
    | none =>
      rw [Option.map_none]
      simp only [ih]
      by_cases heq : key = first
      · subst heq
        rw [if_pos List.mem_cons_self, hfirst]
        split <;> rfl
      · simp only [mem_cons, heq, false_or]
    | some value =>
      rw [Option.map_some]
      simp only [lookup_cons]
      by_cases heq : key = first
      · subst heq
        rw [beq_self_eq_true, if_pos List.mem_cons_self, hfirst]
      · rw [beq_eq_false_iff_ne.mpr heq]
        simp only [ih, mem_cons, heq, false_or]

theorem lookup_mergeEntries : (mergeEntries record).reverse.lookup key = record.lookup key := by
  rw [mergeEntries, ← List.filterMap_reverse, lookup_filterMap_keys]
  split
  · rfl
  · next h =>
    rw [List.mem_reverse, (List.perm_insertionSort SortsBefore _).mem_iff] at h
    refine (List.lookup_eq_none_iff.mpr fun entry hentry ↦ ?_).symm
    exact bne_iff_ne.mpr fun heq ↦ h (heq ▸ List.mem_map_of_mem hentry)

theorem setEntry_eq (values : List (String × Json)) (name : String) (value : Json) :
    (setEntry values (name, value)).lookup key =
      if key = name then some value else values.lookup key := by
  unfold setEntry
  split
  · next hany =>
    rw [lookup_map_define values name key value]
    by_cases h : key = name
    · obtain ⟨other, hother, hname⟩ := List.any_eq_true.mp hany
      have hsome : values.lookup key ≠ none := by
        rw [Ne, List.lookup_eq_none_iff]
        intro hnone
        have hdiffers := hnone other hother
        have hsame : other.1 = name := of_decide_eq_true hname
        rw [h, ← hsame] at hdiffers
        exact absurd hdiffers (by simp)
      obtain ⟨old, hold⟩ := Option.ne_none_iff_exists'.mp hsome
      rw [if_pos h, if_pos h, hold]
      rfl
    · rw [if_neg h, if_neg h]
  · next hany =>
    have hnone : values.lookup name = none := lookup_eq_none_of_any hany
    rw [List.lookup_append, lookup_cons, lookup_nil]
    by_cases h : key = name
    · rw [if_pos h, h, hnone, beq_self_eq_true]
      rfl
    · rw [if_neg h, beq_eq_false_iff_ne.mpr h]
      simp

variable {values : List (String × Json)}

theorem setEntry_nodup (h : (values.map Prod.fst).Nodup)
    (entry : String × Json) : ((setEntry values entry).map Prod.fst).Nodup := by
  unfold setEntry
  split
  · have hnames : (values.map fun other ↦ if other.1 = entry.1 then entry else other).map Prod.fst =
        values.map Prod.fst := by
      rw [List.map_map]
      refine List.map_congr_left fun other _ ↦ ?_
      by_cases heq : other.1 = entry.1
      · rw [Function.comp_apply, if_pos heq, heq]
      · rw [Function.comp_apply, if_neg heq]
    rwa [hnames]
  · next hany =>
    rw [List.map_append, List.map_singleton, ← List.concat_eq_append]
    refine h.concat fun hmem ↦ hany ?_
    obtain ⟨other, hother, heq⟩ := mem_map.mp hmem
    exact List.any_eq_true.mpr ⟨other, hother, decide_eq_true heq⟩

theorem lookup_foldl_setEntry (assignments values : List (String × Json)) :
    (assignments.foldl setEntry values).lookup key =
      (assignments.reverse.lookup key).or (values.lookup key) := by
  induction assignments generalizing values with
  | nil => rfl
  | cons entry assignments ih =>
    rw [List.foldl_cons, ih, setEntry_eq values entry.1 entry.2, List.reverse_cons,
      List.lookup_append, Option.or_assoc, lookup_cons, lookup_nil]
    by_cases h : key = entry.1
    · rw [if_pos h, beq_iff_eq.mpr h]
      rfl
    · rw [if_neg h, beq_eq_false_iff_ne.mpr h]
      rfl

theorem foldl_setEntry_nodup (h : (values.map Prod.fst).Nodup)
    (assignments : List (String × Json)) :
    ((assignments.foldl setEntry values).map Prod.fst).Nodup := by
  induction assignments generalizing values with
  | nil => exact h
  | cons entry assignments ih => exact ih (setEntry_nodup h entry)

theorem lookup_reverse (h : (values.map Prod.fst).Nodup) :
    values.reverse.lookup key = values.lookup key := by
  have hreverse : (values.reverse.map Prod.fst).Nodup := by
    rw [List.map_reverse]
    exact List.nodup_reverse.mpr h
  cases hlookup : values.lookup key with
  | none =>
    rw [List.lookup_eq_none_iff] at hlookup ⊢
    exact fun entry hentry ↦ hlookup entry (List.mem_reverse.mp hentry)
  | some value =>
    exact Grouping.lookup_of_mem_nodup hreverse (List.mem_reverse.mpr (mem_of_lookup hlookup))

theorem collectSet_fold {start last : List (String × Json) × ℤ} :
    sets.foldlM (collectSet json) start = .ok last ↔
      ∃ assignments, List.Forall₂ (fun entry assignment ↦ readSet json entry = .ok assignment) sets
        assignments ∧ (sets = [] ∨ inputBytes sets ≤ start.2) ∧
        last = (assignments.foldl setEntry start.1, start.2 - inputBytes sets) := by
  induction sets generalizing start with
  | nil =>
    constructor
    · intro h
      cases h
      exact ⟨[], .nil, .inl rfl, by simp [inputBytes]⟩
    · rintro ⟨assignments, hall, -, rfl⟩
      cases hall
      simp [inputBytes]
  | cons entry sets ih =>
    rw [foldlM_cons, bind_eq_ok, inputBytes_cons]
    constructor
    · rintro ⟨middle, hfirst, hrest⟩
      obtain ⟨remaining, hcharge, hfirst⟩ := bind_eq_ok.mp hfirst
      obtain ⟨hle, hremaining⟩ := charge_eq_ok.mp hcharge
      obtain ⟨assignment, hread, hmiddle⟩ := bind_eq_ok.mp hfirst
      cases hmiddle
      obtain ⟨assignments, hall, hbytes, rfl⟩ := ih.mp hrest
      refine ⟨assignment :: assignments, .cons hread hall, .inr ?_, ?_⟩
      · obtain rfl | hbytes := hbytes
        · simpa [inputBytes] using hle
        · simp only [hremaining] at hbytes
          omega
      · rw [hremaining, sub_sub]
        rfl
    · rintro ⟨assignments, hall, hbytes, rfl⟩
      cases hall with
      | @cons _ assignment _ assignments hread hall =>
        replace hbytes := hbytes.resolve_left (List.cons_ne_nil _ _)
        have hrest := inputBytes_nonneg sets
        refine ⟨(setEntry start.1 assignment, start.2 - entry.utf8ByteSize), ?_, ?_⟩
        · rw [collectSet, charge_eq_ok.mpr ⟨by omega, rfl⟩, ok_bind, hread]
          rfl
        · refine ih.mpr ⟨assignments, hall, .inr (by simp only; omega), ?_⟩
          rw [sub_sub]
          rfl

theorem collectUnset_fold {keys : List String} {start last : ObjectChange × ℤ} :
    keys.foldlM collectUnset start = .ok last ↔ (keys = [] ∨ inputBytes keys ≤ start.2) ∧
      last = (start.1 ++ keys.flatMap unsetEdits, start.2 - inputBytes keys) := by
  induction keys generalizing start with
  | nil => simp [inputBytes, eq_comm]
  | cons key keys ih =>
    rw [foldlM_cons, bind_eq_ok, inputBytes_cons]
    have hrest := inputBytes_nonneg keys
    constructor
    · rintro ⟨middle, hfirst, hrest⟩
      obtain ⟨remaining, hcharge, hmiddle⟩ := bind_eq_ok.mp hfirst
      obtain ⟨hle, hremaining⟩ := charge_eq_ok.mp hcharge
      cases hmiddle
      obtain ⟨hbytes, rfl⟩ := ih.mp hrest
      refine ⟨.inr ?_, ?_⟩
      · obtain rfl | hbytes := hbytes
        · simpa [inputBytes] using hle
        · simp only [hremaining] at hbytes
          omega
      · rw [hremaining, sub_sub, List.flatMap_cons, List.append_assoc]
    · rintro ⟨hbytes, rfl⟩
      replace hbytes := hbytes.resolve_left (List.cons_ne_nil _ _)
      refine ⟨(start.1 ++ unsetEdits key, start.2 - key.utf8ByteSize), ?_, ?_⟩
      · rw [collectUnset, charge_eq_ok.mpr ⟨by omega, rfl⟩]
        rfl
      · refine ih.mpr ⟨.inr (by simp only; omega), ?_⟩
        rw [sub_sub, List.flatMap_cons, List.append_assoc]

end Compiled

theorem applyObjectChange_merge (before record : JsonObject) :
    ∃ after, applyObjectChange before (mergeEdits record) = .ok after ∧
      ∀ key, after.lookup key = (record.lookup key).or (before.lookup key) := by
  refine ⟨defineAll before (mergeEntries record), ?_, fun key ↦ ?_⟩
  · rw [mergeEdits_eq]
    exact applyObjectChange_of_foldlM (foldlM_additions _)
  · rw [lookup_defineAll, lookup_mergeEntries]

variable {unsets : List String} {remaining : ℤ}

theorem keyedEdits_eq_ok {left : ℤ} :
    keyedEdits json sets unsets remaining = .ok (change, left) ↔
      ∃ assignments, List.Forall₂ (fun entry assignment ↦ readSet json entry = .ok assignment) sets
        assignments ∧ (sets = [] ∨ inputBytes sets ≤ remaining) ∧
        (unsets = [] ∨ inputBytes sets + inputBytes unsets.eraseDups ≤ remaining) ∧
        change = (assignments.foldl setEntry []).map (fun entry ↦
          ObjectEdit.add (pointer entry.1) entry.2) ++ unsets.eraseDups.flatMap unsetEdits ∧
        left = remaining - (inputBytes sets + inputBytes unsets.eraseDups) := by
  have hempty : unsets.eraseDups = [] ↔ unsets = [] := by
    rw [List.eq_nil_iff_forall_not_mem, List.eq_nil_iff_forall_not_mem]
    simp only [List.mem_eraseDups]
  unfold keyedEdits
  rw [bind_eq_ok]
  constructor
  · rintro ⟨collected, hsets, h⟩
    obtain ⟨assignments, hall, hbytes, rfl⟩ := collectSet_fold.mp hsets
    obtain ⟨hunsets, hlast⟩ := collectUnset_fold.mp h
    obtain ⟨rfl, rfl⟩ := Prod.mk.inj hlast
    refine ⟨assignments, hall, hbytes, hunsets.imp hempty.mp fun h ↦ ?_, rfl, sub_sub _ _ _⟩
    simp only at h
    omega
  · rintro ⟨assignments, hall, hbytes, hunsets, rfl, rfl⟩
    refine ⟨_, collectSet_fold.mpr ⟨assignments, hall, hbytes, rfl⟩, ?_⟩
    refine collectUnset_fold.mpr ⟨hunsets.imp hempty.mpr fun h ↦ ?_, ?_⟩
    · simp only
      omega
    · rw [sub_sub]

theorem applyObjectChange_keyed (before : JsonObject) (assignments : List (String × Json)) :
    ∃ after, applyObjectChange before ((assignments.foldl setEntry []).map (fun entry ↦
          ObjectEdit.add (pointer entry.1) entry.2) ++ unsets.eraseDups.flatMap unsetEdits) =
        .ok after ∧
      ∀ key, after.lookup key = if key ∈ unsets then none
        else (assignments.reverse.lookup key).or (before.lookup key) := by
  set values := assignments.foldl setEntry [] with hvalues
  refine ⟨deleteAll (defineAll before values) unsets.eraseDups, ?_, fun key ↦ ?_⟩
  · refine applyObjectChange_of_foldlM ?_
    rw [List.foldlM_append, foldlM_additions, ok_bind, foldlM_unsets]
  · have hnodup : (values.map Prod.fst).Nodup := by
      rw [hvalues]
      have hnil : (([] : List (String × Json)).map Prod.fst).Nodup := List.nodup_nil
      exact foldl_setEntry_nodup hnil assignments
    have hvalue : values.reverse.lookup key = assignments.reverse.lookup key := by
      rw [lookup_reverse hnodup, hvalues, lookup_foldl_setEntry, lookup_nil, Option.or_none]
    rw [lookup_deleteAll, lookup_defineAll, hvalue]
    simp only [List.mem_eraseDups]

theorem keys_of_paths (h : ∀ edit ∈ change, ∃ key, edit.path = pointer key) :
    ∀ edit ∈ change, isPointer edit.path = true ∧ ∃ key, edit.tokens = [key] := by
  intro edit hedit
  obtain ⟨key, hkey⟩ := h edit hedit
  exact ⟨hkey ▸ isPointer_pointer key, key, tokens_pointer hkey⟩

theorem keyedEdits_paths (values : List (String × Json)) (keys : List String) :
    ∀ edit ∈ values.map (fun entry ↦ ObjectEdit.add (pointer entry.1) entry.2) ++
      keys.flatMap unsetEdits, ∃ key, edit.path = pointer key := by
  intro edit hedit
  obtain hedit | hedit := List.mem_append.mp hedit
  · obtain ⟨entry, -, rfl⟩ := mem_map.mp hedit
    exact ⟨entry.1, rfl⟩
  · obtain ⟨key, -, hedit⟩ := List.mem_flatMap.mp hedit
    obtain rfl | hedit := mem_cons.mp hedit
    · exact ⟨key, rfl⟩
    · obtain rfl := List.mem_singleton.mp hedit
      exact ⟨key, rfl⟩

theorem mergeEdits_paths (record : JsonObject) :
    ∀ edit ∈ mergeEdits record, ∃ key, edit.path = pointer key := by
  rw [mergeEdits_eq]
  intro edit hedit
  obtain ⟨entry, -, rfl⟩ := mem_map.mp hedit
  exact ⟨entry.1, rfl⟩

theorem compilePlane_keyed (reader : Reader) (plane : String) (h : sets ≠ [] ∨ unsets ≠ []) :
    compilePlane reader .update plane ⟨none, none, none, sets, unsets⟩ remaining =
      (keyedEdits reader.json sets unsets remaining).map fun compiled ↦
        (some (.change compiled.1), compiled.2) := by
  have hkeyed : (!sets.isEmpty || !unsets.isEmpty) = true := by
    rw [Bool.or_eq_true, Bool.not_eq_true', Bool.not_eq_true', List.isEmpty_eq_false_iff,
      List.isEmpty_eq_false_iff]
    exact h
  unfold compilePlane
  simp only [hkeyed, Option.isSome_none, check_of (show [false, false, false, true].count true ≤ 1
    by decide), check_of (.inl (by decide) : Operation.update ≠ .other ∨ _), check_of
      (.inl (by decide) : Operation.update ≠ .create ∨ _), ok_bind, if_true]
  cases keyedEdits reader.json sets unsets remaining <;> rfl

/-- The edits of an update do to an object what its options say: a merge replaces or adds exactly
its members; keyed options compile when each set option is an assignment and the bound admits what
is read, give every set key its last value and leave every unset key absent. All paths are pointers
of one token, so each key is taken as it is written. -/
theorem compiledEdits_faithful (reader : Reader) (plane : String) (before : JsonObject) :
    (∀ text record remaining left, reader.read text remaining = .ok (.object record, left) →
      ∃ change, compilePlane reader .update plane ⟨some text, none, none, [], []⟩ remaining =
          .ok (some (.change change), left) ∧
        (∀ edit ∈ change, isPointer edit.path = true ∧ ∃ key, edit.tokens = [key]) ∧
        ∃ after, applyObjectChange before change = .ok after ∧
          ∀ key, after.lookup key = (record.lookup key).or (before.lookup key)) ∧
    (∀ sets unsets assignments remaining, sets ≠ [] ∨ unsets ≠ [] →
      List.Forall₂ (Assigns reader.json) sets assignments →
      inputBytes sets + inputBytes unsets.eraseDups ≤ remaining →
      ∃ change, compilePlane reader .update plane ⟨none, none, none, sets, unsets⟩ remaining =
          .ok (some (.change change),
            remaining - (inputBytes sets + inputBytes unsets.eraseDups)) ∧
        (∀ edit ∈ change, isPointer edit.path = true ∧ ∃ key, edit.tokens = [key]) ∧
        ∃ after, applyObjectChange before change = .ok after ∧
          ∀ key, after.lookup key = if key ∈ unsets then none
            else (assignments.reverse.lookup key).or (before.lookup key)) ∧
    ∀ sets unsets remaining body left, sets ≠ [] ∨ unsets ≠ [] →
      compilePlane reader .update plane ⟨none, none, none, sets, unsets⟩ remaining =
        .ok (body, left) →
      (∃ assignments, List.Forall₂ (Assigns reader.json) sets assignments) ∧
        inputBytes sets + inputBytes unsets.eraseDups ≤ remaining := by
  have hreads (sets : List String) (assignments : List (String × Json)) :
      List.Forall₂ (fun entry assignment ↦ readSet reader.json entry = .ok assignment) sets
          assignments ↔ List.Forall₂ (Assigns reader.json) sets assignments :=
    ⟨fun h ↦ h.imp fun _ _ ↦ readSet_eq_ok.mp, fun h ↦ h.imp fun _ _ ↦ readSet_eq_ok.mpr⟩
  refine ⟨fun text record remaining left hread ↦ ?_, ?_, ?_⟩
  · refine ⟨mergeEdits record, ?_, keys_of_paths (mergeEdits_paths record),
      applyObjectChange_merge before record⟩
    have hcompiled : compilePlane reader .update plane ⟨some text, none, none, [], []⟩ remaining =
        reader.read text remaining >>= fun read ↦ asObject plane read.1 >>= fun record ↦
          .ok (some (.change (mergeEdits record)), read.2) := rfl
    rw [hcompiled, hread]
    rfl
  · intro sets unsets assignments remaining hkeyed hall hbytes
    have hsets := inputBytes_nonneg sets
    have hunsets := inputBytes_nonneg unsets.eraseDups
    refine ⟨_, ?_, keys_of_paths (keyedEdits_paths _ _), applyObjectChange_keyed before assignments⟩
    rw [compilePlane_keyed reader plane hkeyed, keyedEdits_eq_ok.mpr ⟨assignments,
      (hreads sets assignments).mpr hall, .inr (by omega), .inr hbytes, rfl, rfl⟩]
    rfl
  · intro sets unsets remaining body left hkeyed h
    rw [compilePlane_keyed reader plane hkeyed] at h
    cases hedits : keyedEdits reader.json sets unsets remaining with
    | error message =>
      rw [hedits] at h
      cases h
    | ok compiled =>
      obtain ⟨assignments, hall, hsets, hunsets, -⟩ := keyedEdits_eq_ok.mp hedits
      refine ⟨⟨assignments, (hreads sets assignments).mp hall⟩, ?_⟩
      obtain rfl | hunsets := hunsets
      · have hbytes := hsets.resolve_left (hkeyed.resolve_right (by simp))
        simpa [inputBytes] using hbytes
      · exact hunsets

def sampleReader : Reader where
  json text := if text = "true" then .ok (.bool true) else .ok (.number 1)
  read _ _ := .error "not read"
  patch _ := .error "not a patch"

/-- Sets and unsets of overlapping keys, one of them empty, one with a slash. -/
theorem compiledEdits_faithful_overlap :
    ∃ change after, compilePlane sampleReader .update "properties"
        ⟨none, none, none, ["a=x", "a=1", "=true", "b/=y"], ["b/", "c", "c"]⟩ 20 =
          .ok (some (.change change), 2) ∧
      applyObjectChange [("a", .null), ("c", .null), ("d", .null)] change = .ok after ∧
      after.lookup "a" = some (.number 1) ∧ after.lookup "" = some (.bool true) ∧
      after.lookup "b/" = none ∧ after.lookup "c" = none ∧ after.lookup "d" = some .null := by
  have hassign (text : String) {entry : String} {assignment : String × Json}
      (hentry : entry.toList = assignment.1.toList ++ '=' :: text.toList)
      (hdenotes : Denotes sampleReader.json text assignment.2)
      (hfirst : '=' ∉ assignment.1.toList) : Assigns sampleReader.json entry assignment :=
    ⟨⟨text, hentry, hdenotes⟩, hfirst⟩
  have hnumber : IsNumber "1".toList := isNumberText_iff.mp (by decide)
  have hstring (text : String) (h : ¬ (text = "null" ∨ text = "true" ∨ text = "false"))
      (h' : isNumberText text.toList = false) : Denotes sampleReader.json text (.string text) := by
    refine .inr ⟨?_, rfl⟩
    rw [← isNumberText_iff, h']
    simpa using h
  obtain ⟨change, hcompiled, -, after, happlied, hlookup⟩ :=
    (compiledEdits_faithful sampleReader "properties"
      [("a", .null), ("c", .null), ("d", .null)]).2.1 ["a=x", "a=1", "=true", "b/=y"]
      ["b/", "c", "c"] [("a", .string "x"), ("a", .number 1), ("", .bool true), ("b/", .string "y")]
      20 (.inl (by simp))
      (.cons (hassign "x" (by decide) (hstring _ (by decide) (by decide)) (by decide))
        (.cons (hassign "1" (by decide) (.inl ⟨.inr (.inr (.inr hnumber)), rfl⟩)
          (by decide))
        (.cons (hassign "true" (by decide) (.inl ⟨.inr (.inl rfl), rfl⟩) (by decide))
        (.cons (hassign "y" (by decide) (hstring _ (by decide) (by decide)) (by decide))
          .nil)))) (by decide)
  refine ⟨change, after, hcompiled, happlied, ?_⟩
  simp only [hlookup]
  decide

end Bdp.CommandInput
