import Mathlib
import Bdp.Library.JsonText

/-!
# JSON texts from written parts

Texts of arrays and objects whose items and members are written out already, and the number of bytes
that a text takes. The number depends on the parts only through their own numbers.
-/

namespace Bdp.JsonParts

/-- The length of a text in UTF-8. -/
def bytes (text : List Char) : ℕ := (text.map Char.utf8Size).sum

def stringText (value : String) : List Char := JsonText.printString value

def numberText (value : ℤ) : List Char := (toString value).toList

def boolText (value : Bool) : List Char := (toString value).toList

def itemsText : List (List Char) → List Char
  | [] => []
  | [item] => item
  | item :: next :: items => item ++ ',' :: itemsText (next :: items)

def arrayText (items : List (List Char)) : List Char := '[' :: (itemsText items ++ [']'])

def memberText (member : String × List Char) : List Char :=
  stringText member.1 ++ ':' :: member.2

def objectText (members : List (String × List Char)) : List Char :=
  '{' :: (itemsText (members.map memberText) ++ ['}'])

section Bytes

variable {text other : List Char} {item : List Char} {items : List (List Char)}

@[simp]
theorem bytes_nil : bytes [] = 0 := rfl

@[simp]
theorem bytes_append : bytes (text ++ other) = bytes text + bytes other := by
  rw [bytes, List.map_append, List.sum_append, bytes, bytes]

@[simp]
theorem bytes_cons {letter : Char} : bytes (letter :: text) = letter.utf8Size + bytes text := by
  rw [bytes, List.map_cons, List.sum_cons, bytes]

/-- The items of an array and a comma behind each but the last. -/
theorem bytes_itemsText : bytes (itemsText items) = (items.map bytes).sum + (items.length - 1) := by
  induction items with
  | nil => rfl
  | cons item items ih =>
    cases items with
    | nil => simp [itemsText]
    | cons next items =>
      rw [itemsText, bytes_append, bytes_cons, ih]
      have comma : ','.utf8Size = 1 := by decide
      simp only [comma, List.map_cons, List.sum_cons, List.length_cons]
      omega

theorem bytes_arrayText :
    bytes (arrayText items) = (items.map bytes).sum + (items.length - 1) + 2 := by
  have opened : '['.utf8Size = 1 := by decide
  have closed : ']'.utf8Size = 1 := by decide
  rw [arrayText, bytes_cons, bytes_append, bytes_itemsText, bytes_cons, bytes_nil, opened, closed]
  omega

theorem bytes_objectText {members : List (String × List Char)} : bytes (objectText members) =
      (members.map fun member ↦ bytes (memberText member)).sum + (members.length - 1) + 2 := by
  have opened : '\x7b'.utf8Size = 1 := by decide
  have closed : '\x7d'.utf8Size = 1 := by decide
  rw [objectText, bytes_cons, bytes_append, bytes_itemsText, bytes_cons, bytes_nil, opened, closed,
    List.map_map, List.length_map]
  have same : (bytes ∘ memberText) = fun member ↦ bytes (memberText member) := rfl
  rw [same]
  omega

theorem bytes_memberText {member : String × List Char} :
    bytes (memberText member) = bytes (stringText member.1) + 1 + bytes member.2 := by
  have colon : ':'.utf8Size = 1 := by decide
  rw [memberText, bytes_append, bytes_cons, colon, Nat.add_assoc]

/-- A letter that stands for itself in a string and takes one byte. -/
def isPlain (letter : Char) : Bool := letter.isAlphanum || letter == '_' || letter == '-'

theorem escape_plain {letter : Char} (h : isPlain letter = true) :
    JsonText.escape letter = [letter] ∧ letter.utf8Size = 1 := by
  have range : 45 ≤ letter.toNat ∧ letter.toNat ≠ 92 ∧ letter.toNat < 128 := by
    simp only [isPlain, Char.isAlphanum, Char.isAlpha, Char.isUpper, Char.isLower, Char.isDigit,
      Bool.or_eq_true, Bool.and_eq_true, decide_eq_true_eq, beq_iff_eq] at h
    rcases h with (((h | h) | h) | rfl) | rfl
    · have : 65 ≤ letter.toNat ∧ letter.toNat ≤ 90 :=
        ⟨UInt32.le_iff_toNat_le.mp h.1, UInt32.le_iff_toNat_le.mp h.2⟩
      omega
    · have : 97 ≤ letter.toNat ∧ letter.toNat ≤ 122 :=
        ⟨UInt32.le_iff_toNat_le.mp h.1, UInt32.le_iff_toNat_le.mp h.2⟩
      omega
    · have : 48 ≤ letter.toNat ∧ letter.toNat ≤ 57 :=
        ⟨UInt32.le_iff_toNat_le.mp h.1, UInt32.le_iff_toNat_le.mp h.2⟩
      omega
    · decide
    · decide
  constructor
  · unfold JsonText.escape
    rw [if_neg (by omega), if_neg (by omega)]
  · have small : letter.val ≤ 127 := UInt32.le_iff_toNat_le.mpr (Nat.le_of_lt_succ range.2.2)
    unfold Char.utf8Size
    simp [small]

section

variable (h : ∀ letter ∈ text, isPlain letter = true)
include h

/-- A string of plain letters takes a byte for each. -/
theorem bytes_escaped_plain : bytes (text.flatMap JsonText.escape) = text.length := by
  induction text with
  | nil => rfl
  | cons letter text ih =>
    obtain ⟨same, size⟩ := escape_plain (h letter List.mem_cons_self)
    have rest := ih fun later member ↦ h later (List.mem_cons_of_mem _ member)
    rw [List.flatMap_cons, same, bytes_append, bytes_cons, bytes_nil, size, rest, List.length_cons]
    omega

theorem bytes_plain : bytes text = text.length := by
  induction text with
  | nil => rfl
  | cons letter text ih =>
    have rest := ih fun later member ↦ h later (List.mem_cons_of_mem _ member)
    rw [bytes_cons, (escape_plain (h letter List.mem_cons_self)).2, rest, List.length_cons]
    omega

end

theorem bytes_stringText (value : String) :
    bytes (stringText value) = bytes (value.toList.flatMap JsonText.escape) + 2 := by
  have quoted : '"'.utf8Size = 1 := by decide
  rw [stringText, JsonText.printString, bytes_cons, bytes_append, bytes_cons, bytes_nil, quoted]
  omega

end Bytes

end Bdp.JsonParts
