import Bdp.Library.Spans
import Bdp.Library.UrlPath

/-!
# Form encoding of parameters

Lists of named values as the query of a URL: the bytes of a text are written as literals, plus signs
and percent escapes, and a written list is read back. What a reader makes of bytes that are no UTF-8
stays open.
-/

namespace Bdp.FormEncoding

open Spans (takeWhile_separator dropWhile_separator)

section Bytes

/-- The bytes that are written as their own character. -/
def isPlain (letter : Char) : Bool :=
  letter.isAlphanum || ['*', '-', '.', '_'].contains letter

def encodeByte (byte : UInt8) : List Char :=
  if isPlain (Char.ofNat byte.toNat) then [Char.ofNat byte.toNat]
  else if byte = 32 then ['+']
  else UrlPath.encodeByte byte

/-- The bytes of an encoded text. -/
def decodeBytes : List Char → List UInt8
  | [] => []
  | '%' :: high :: low :: rest =>
    match UrlPath.hexDigit high, UrlPath.hexDigit low with
    | some high, some low => UInt8.ofNat (16 * high + low) :: decodeBytes rest
    | _, _ => 37 :: decodeBytes (high :: low :: rest)
  | '+' :: rest => 32 :: decodeBytes rest
  | letter :: rest => String.utf8EncodeChar letter ++ decodeBytes rest

theorem upperHex_spec {value : ℕ} (hvalue : value < 16) :
    UrlPath.hexDigit (UrlPath.upperHex value) = some value ∧
      (UrlPath.upperHex value).isAlphanum = true := by
  interval_cases value <;> decide

variable (byte : UInt8)

/-- A plain byte is a character of one byte, and it is no escape. -/
theorem plain_spec (hplain : isPlain (Char.ofNat byte.toNat) = true) :
    String.utf8EncodeChar (Char.ofNat byte.toNat) = [byte] ∧ Char.ofNat byte.toNat ≠ '%' ∧
      Char.ofNat byte.toNat ≠ '+' := by
  have hall : ∀ value : Fin 256, isPlain (Char.ofNat value.val) = true →
      String.utf8EncodeChar (Char.ofNat value.val) = [UInt8.ofNat value.val] ∧
        Char.ofNat value.val ≠ '%' ∧ Char.ofNat value.val ≠ '+' := by
    decide +kernel
  have hbyte := hall ⟨byte.toNat, byte.toNat_lt⟩ hplain
  simpa using hbyte

theorem decodeBytes_plain {letter : Char} (hescape : letter ≠ '%') (hplus : letter ≠ '+')
    (rest : List Char) :
    decodeBytes (letter :: rest) = String.utf8EncodeChar letter ++ decodeBytes rest := by
  rw [decodeBytes]
  · rintro high low tail rfl
    exact absurd rfl hescape
  · rintro rfl
    exact absurd rfl hplus

/-- One written byte is read back. -/
theorem decodeBytes_encodeByte (rest : List Char) :
    decodeBytes (encodeByte byte ++ rest) = byte :: decodeBytes rest := by
  unfold encodeByte
  split
  · rename_i hplain
    obtain ⟨hutf8, hescape, hplus⟩ := plain_spec byte hplain
    rw [List.singleton_append, decodeBytes_plain hescape hplus, hutf8]
    rfl
  · split
    · rename_i hspace
      subst hspace
      rw [List.singleton_append, decodeBytes]
    · have hbyte := byte.toNat_lt
      have hhigh := (upperHex_spec (show byte.toNat / 16 < 16 by omega)).1
      have hlow := (upperHex_spec (show byte.toNat % 16 < 16 by omega)).1
      rw [UrlPath.encodeByte]
      simp only [List.cons_append, List.nil_append, decodeBytes, hhigh, hlow]
      rw [show 16 * (byte.toNat / 16) + byte.toNat % 16 = byte.toNat by omega]
      simp

theorem decodeBytes_flatMap (bytes : List UInt8) :
    decodeBytes (bytes.flatMap encodeByte) = bytes := by
  induction bytes with
  | nil => rfl
  | cons byte bytes ih => rw [List.flatMap_cons, decodeBytes_encodeByte, ih]

/-- Written bytes have no separators of a query. -/
theorem encodeByte_safe : ∀ letter ∈ encodeByte byte, letter.isAlphanum = true ∨
      letter ∈ ['*', '-', '.', '_', '+', '%'] := by
  intro letter hmem
  unfold encodeByte at hmem
  split at hmem
  · rename_i hplain
    obtain rfl := List.mem_singleton.mp hmem
    simp only [isPlain, Bool.or_eq_true, List.contains_iff_mem] at hplain
    rcases hplain with hplain | hplain
    · exact .inl hplain
    · exact .inr (List.mem_append_left ['+', '%'] hplain)
  · split at hmem
    · obtain rfl := List.mem_singleton.mp hmem
      exact .inr (by decide)
    · have hbyte := byte.toNat_lt
      simp only [UrlPath.encodeByte, List.mem_cons, List.not_mem_nil, or_false] at hmem
      rcases hmem with rfl | rfl | rfl
      · exact .inr (by decide)
      · exact .inl (upperHex_spec (by omega)).2
      · exact .inl (upperHex_spec (by omega)).2

end Bytes

section Values

/-- The text of a value: its UTF-8 bytes, written. -/
def encode (value : String) : List Char :=
  (value.toList.flatMap String.utf8EncodeChar).flatMap encodeByte

variable (lossy : List UInt8 → String)

/-- The value of an encoded text. -/
def decode (text : List Char) : String :=
  match (decodeBytes text).toByteArray.utf8Decode? with
  | some letters => String.ofList letters.toList
  | none => lossy (decodeBytes text)

theorem decode_encode (value : String) : decode lossy (encode value) = value := by
  have hutf8 : (value.toList.flatMap String.utf8EncodeChar).toByteArray.utf8Decode? =
      some value.toList.toArray := List.utf8Decode?_utf8Encode
  rw [decode, encode, decodeBytes_flatMap, hutf8]
  exact String.ofList_toList

theorem not_mem_encode {separator : Char} (hseparator : separator.isAlphanum = false)
    (hother : separator ∉ ['*', '-', '.', '_', '+', '%']) (value : String) :
    separator ∉ encode value := by
  intro hmem
  obtain ⟨byte, -, hmem⟩ := List.mem_flatMap.mp hmem
  rcases encodeByte_safe byte separator hmem with halphanum | hmem
  · rw [hseparator] at halphanum
    cases halphanum
  · exact hother hmem

end Values

section Lists

variable {separator : Char}

def encodePair (pair : String × String) : List Char := encode pair.1 ++ '=' :: encode pair.2

/-- `a=b&c=d`. -/
def serialize (pairs : List (String × String)) : List Char :=
  ['&'].intercalate (pairs.map encodePair)

variable (lossy : List UInt8 → String)

def decodePair (piece : List Char) : String × String :=
  (decode lossy (piece.takeWhile (· ≠ '=')), decode lossy ((piece.dropWhile (· ≠ '=')).drop 1))

/-- The pairs of a query; empty pieces do not count. -/
def parse (query : List Char) : List (String × String) :=
  ((query.splitOn '&').filter fun piece ↦ piece != []).map (decodePair lossy)

theorem decodePair_encodePair (pair : String × String) :
    decodePair lossy (encodePair pair) = pair := by
  have hname : '=' ∉ encode pair.1 := not_mem_encode (by decide) (by decide) pair.1
  rw [decodePair, encodePair, takeWhile_separator hname, dropWhile_separator hname, List.drop_one,
    List.tail_cons, decode_encode, decode_encode]

theorem not_mem_encodePair (hseparator : separator.isAlphanum = false)
    (hother : separator ∉ ['*', '-', '.', '_', '+', '%']) (hequal : separator ≠ '=')
    (pair : String × String) : separator ∉ encodePair pair := by
  rw [encodePair, List.mem_append, List.mem_cons]
  rintro (hmem | hmem | hmem)
  · exact not_mem_encode hseparator hother pair.1 hmem
  · exact hequal hmem
  · exact not_mem_encode hseparator hother pair.2 hmem

/-- A written list of parameters is read back. -/
theorem parse_serialize (pairs : List (String × String)) :
    parse lossy (serialize pairs) = pairs := by
  have hamp : ∀ pair, '&' ∉ encodePair pair :=
    not_mem_encodePair (by decide) (by decide) (by decide)
  have hne : ∀ pair, encodePair pair ≠ [] := fun pair ↦ by simp [encodePair]
  have hpieces : pairs ≠ [] → (serialize pairs).splitOn '&' = pairs.map encodePair := by
    intro hpairs
    apply List.splitOn_intercalate
    · intro piece hmem
      obtain ⟨pair, -, rfl⟩ := List.mem_map.mp hmem
      exact hamp pair
    · simpa using hpairs
  cases pairs with
  | nil => rfl
  | cons pair pairs =>
    rw [parse, hpieces (by simp), List.filter_eq_self.mpr]
    · rw [List.map_map]
      conv_rhs => rw [← List.map_id (pair :: pairs)]
      exact List.map_congr_left fun other _ ↦ decodePair_encodePair lossy other
    · intro piece hmem
      obtain ⟨other, -, rfl⟩ := List.mem_map.mp hmem
      simpa using hne other

end Lists

end Bdp.FormEncoding
