import Mathlib.Data.List.Induction
import Mathlib.Data.List.InsertIdx
import Mathlib.Logic.Function.Basic

/-!
# JSON Patch

Documents whose objects are partial maps of names, the JSON pointers of RFC 6901, and the add,
replace and remove edits of RFC 6902. An edit is defined by its pointer text; a malformed pointer,
a missing parent and a missing target make it fail. The root of a document may be removed and added
again, so a run of edits passes an optional document along.
-/

namespace Bdp.JsonPatch

/-- A document; an object has at most one value for each name, and no order. -/
inductive Document (S : Type) where
  | scalar (value : S)
  | array (items : List (Document S))
  | object (members : String → Option (Document S))

section Pointers

/-- A reference token with its escapes read: `~0` stands for a tilde, and `~1` for a slash. -/
def readToken : List Char → Option (List Char)
  | [] => some []
  | [last] => if last = '~' then none else some [last]
  | first :: second :: rest =>
    if first = '~' then
      if second = '0' then (readToken rest).map ('~' :: ·)
      else if second = '1' then (readToken rest).map ('/' :: ·)
      else none
    else (readToken (second :: rest)).map (first :: ·)

/-- The reference tokens of a pointer. Each of them stands behind a slash. -/
def parsePointer (pointer : String) : Option (List String) :=
  match pointer.toList with
  | [] => some []
  | first :: rest =>
    if first = '/' then (rest.splitOn '/').mapM fun token ↦ (readToken token).map String.ofList
    else none

/-- The number that a reference token is the decimal text of. -/
def index? (token : String) : Option ℕ :=
  let index := Nat.ofDigitChars 10 token.toList 0
  if index.repr = token then some index else none

theorem index?_eq_some {token : String} {index : ℕ} :
    index? token = some index ↔ token = index.repr := by
  simp only [index?]
  constructor
  · intro h
    split at h
    next htoken => rw [← Option.some.inj h, htoken]
    next => cases h
  · rintro rfl
    rw [Nat.toList_repr, Nat.ofDigitChars_ten_toDigits, if_pos rfl]

/-- Digits without a leading zero are the decimal text of their value. -/
theorem toDigits_ofDigitChars {digits : List Char} (hdigits : ∀ digit ∈ digits, digit.isDigit = true)
    (hne : digits ≠ []) (hzero : digits.head? = some '0' → digits.length = 1) :
    Nat.toDigits 10 (Nat.ofDigitChars 10 digits 0) = digits := by
  induction digits using List.reverseRecOn with
  | nil => exact absurd rfl hne
  | append_singleton front digit ih =>
    have hdigit := hdigits digit (by simp)
    have hvalue : digit.toNat - 48 < 10 ∧ Nat.digitChar (digit.toNat - 48) = digit := by
      have hrange : 48 ≤ digit.toNat ∧ digit.toNat ≤ 57 := by
        simpa [Char.isDigit, UInt32.le_iff_toNat_le] using hdigit
      refine ⟨by omega, ?_⟩
      have hall : ∀ code < 58, 48 ≤ code → Nat.digitChar (code - 48) = Char.ofNat code := by decide
      rw [hall digit.toNat (by omega) hrange.1, Char.ofNat_toNat]
    have hlast : Nat.ofDigitChars 10 (front ++ [digit]) 0 =
        10 * Nat.ofDigitChars 10 front 0 + (digit.toNat - 48) := by
      rw [Nat.ofDigitChars_append, Nat.ofDigitChars_cons, Nat.ofDigitChars_nil]
      rfl
    rw [hlast]
    cases hfront : front with
    | nil =>
      rw [Nat.ofDigitChars_nil, Nat.mul_zero, Nat.zero_add, Nat.toDigits_of_lt_base hvalue.1,
        hvalue.2]
      rfl
    | cons first others =>
      rw [← hfront]
      have hfirst : front.head? ≠ some '0' := by
        intro hhead
        have hlength := hzero (by rw [List.head?_append, hhead]; rfl)
        rw [hfront] at hlength
        simp at hlength
      have hdigitsFront := ih (fun other hother ↦ hdigits other (by simp [hother]))
        (by rw [hfront]; exact List.cons_ne_nil _ _) fun hhead ↦ absurd hhead hfirst
      have hpos : 0 < Nat.ofDigitChars 10 front 0 := by
        rw [Nat.pos_iff_ne_zero]
        intro hzeroValue
        rw [hzeroValue, Nat.toDigits_zero] at hdigitsFront
        exact hfirst (by rw [← hdigitsFront]; rfl)
      rw [← Nat.toDigits_append_toDigits (by decide) hpos hvalue.1, hdigitsFront,
        Nat.toDigits_of_lt_base hvalue.1, hvalue.2]

end Pointers

section Edits

variable {S : Type}

inductive Edit (S : Type) where
  | add (path : String) (value : Document S)
  | replace (path : String) (value : Document S)
  | remove (path : String)

namespace Edit

def path : Edit S → String
  | .add path _ => path
  | .replace path _ => path
  | .remove path => path

def isAdd : Edit S → Bool
  | .add _ _ => true
  | _ => false

def value : Edit S → Option (Document S)
  | .add _ value => some value
  | .replace _ value => some value
  | .remove _ => none

/-- The array position that a reference token names; an addition may name the end. -/
def position (edit : Edit S) (name : String) (count : ℕ) : Option ℕ :=
  if name = "-" ∧ edit.isAdd then some count else index? name

def editItems (edit : Edit S) (index : ℕ) (items : List (Document S)) :
    Option (List (Document S)) :=
  match edit with
  | .add _ value => if index ≤ items.length then some (items.insertIdx index value) else none
  | .replace _ value => if index < items.length then some (items.set index value) else none
  | .remove _ => if index < items.length then some (items.eraseIdx index) else none

/-- The edit of an array or an object at the last reference token. -/
def editLast (edit : Edit S) (name : String) : Document S → Option (Document S)
  | .scalar _ => none
  | .array items =>
    (edit.position name items.length).bind fun index ↦ (edit.editItems index items).map .array
  | .object members =>
    match edit with
    | .add _ value => some (.object (Function.update members name (some value)))
    | .replace _ value =>
      if (members name).isSome then some (.object (Function.update members name (some value)))
      else none
    | .remove _ =>
      if (members name).isSome then some (.object (Function.update members name none)) else none

/-- Replace the child at a reference token. -/
def replaceChild (name : String) (change : Document S → Option (Document S)) :
    Document S → Option (Document S)
  | .scalar _ => none
  | .array items =>
    (index? name).bind fun index ↦ items[index]?.bind fun child ↦
      (change child).map fun changed ↦ .array (items.set index changed)
  | .object members =>
    (members name).bind fun child ↦
      (change child).map fun changed ↦ .object (Function.update members name (some changed))

/-- The edit below a document, at one reference token or more. -/
def editWithin (edit : Edit S) : List String → Document S → Option (Document S)
  | [], _ => none
  | [name], document => edit.editLast name document
  | name :: names, document => replaceChild name (editWithin edit names) document

/-- One edit: at the root, where a document is removed, replaced or added, or below it. -/
def apply (edit : Edit S) (document : Option (Document S)) : Option (Option (Document S)) :=
  (parsePointer edit.path).bind fun tokens ↦
    match tokens, document with
    | [], none => if edit.isAdd then some edit.value else none
    | [], some _ => some edit.value
    | _ :: _, none => none
    | tokens, some root => (edit.editWithin tokens root).map some

end Edit

/-- The edits in order, each of the document that the one before it left. -/
def run (edits : List (Edit S)) (document : Option (Document S)) : Option (Option (Document S)) :=
  edits.foldlM (fun document edit ↦ edit.apply document) document

end Edits

end Bdp.JsonPatch
