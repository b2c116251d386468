import Bdp.Selector.ScannerLaw

/-!
# Cutting texts into tokens

The tokens of a text do not depend on the fuel, and they are the same before everything that cannot
continue the last one. Conversely a text before a closing bracket is cut into the tokens before that
bracket.
-/

namespace Bdp.Selector

open Option (bind_eq_some_iff)

variable {number : List Char → Option ℚ}

section Cuts

variable (number) in
/-- The tokens of a text, with any fuel that exceeds its letters. -/
def Cuts (text : List Char) (tokens : List Token) : Prop :=
  ∀ fuel, text.length < fuel → tokenize number fuel text = some tokens

theorem cuts_nil : Cuts number [] [] := by
  intro fuel hfuel
  obtain ⟨fuel, rfl⟩ := Nat.exists_eq_add_of_le' hfuel
  rfl

variable {text : List Char} {tokens : List Token}

theorem Cuts.blank {letter : Char}
    (hcuts : Cuts number text tokens) (hblank : isWhitespace letter = true) :
    Cuts number (letter :: text) tokens := by
  intro fuel hfuel
  obtain ⟨fuel, rfl⟩ := Nat.exists_eq_add_of_le' (Nat.one_le_of_lt hfuel)
  rw [tokenize, if_pos hblank]
  exact hcuts fuel (by simpa using hfuel)

theorem Cuts.cons {word : List Char} {token : Token}
    (hcuts : Cuts number text tokens) (hne : word ≠ [])
    (hblank : word.head?.any isWhitespace = false) (hscan : ∀ fuel, word.length ≤ fuel →
      scanToken number fuel (word ++ text) = some (token, text)) :
    Cuts number (word ++ text) (token :: tokens) := by
  intro fuel hfuel
  obtain ⟨letter, word, rfl⟩ := List.exists_cons_of_ne_nil hne
  have hletter : isWhitespace letter = false := by simpa using hblank
  rw [List.length_append] at hfuel
  obtain ⟨fuel, rfl⟩ := Nat.exists_eq_add_of_le' (Nat.one_le_of_lt hfuel)
  rw [List.length_cons] at hfuel
  have hread := hscan fuel (by rw [List.length_cons]; omega)
  rw [List.cons_append] at hread ⊢
  rw [tokenize, if_neg (by simp [hletter]), hread]
  simp [hcuts fuel (by omega)]

variable {others : List Token} {rest : List Char}

theorem cuts_append_of_tokenize {fuel : ℕ}
    (htext : tokenize number fuel text = some tokens) (hrest : Cuts number rest others)
    (hahead : ahead rest = (none, none)) : Cuts number (text ++ rest) (tokens ++ others) := by
  induction fuel generalizing text tokens with
  | zero => simp [tokenize] at htext
  | succ fuel ih =>
    cases text with
    | nil =>
      simp only [tokenize, Option.some.injEq] at htext
      subst htext
      exact hrest
    | cons letter text =>
      rw [tokenize] at htext
      split at htext
      · rename_i hblank
        exact (ih htext).blank hblank
      · rename_i hblank
        obtain ⟨⟨token, after⟩, hscan, htail⟩ := bind_eq_some_iff.mp htext
        obtain ⟨inner, hinner, htokens⟩ := bind_eq_some_iff.mp htail
        simp only [Option.pure_def, Option.some.injEq] at htokens
        obtain ⟨word, hne, hword, hread⟩ := scanToken_word hscan
        have hhead : word.head?.any isWhitespace = false := by
          obtain ⟨head, word, rfl⟩ := List.exists_cons_of_ne_nil hne
          obtain rfl : letter = head := by simpa using congrArg List.head? hword
          simpa using hblank
        rw [hword, ← htokens, List.append_assoc, List.cons_append]
        exact (ih hinner).cons hne hhead fun fuel' hfuel ↦
          hread _ fuel' (ahead_append hahead after) hfuel

theorem cuts_of_tokenize {fuel : ℕ}
    (htext : tokenize number fuel text = some tokens) : Cuts number text tokens := by
  simpa using cuts_append_of_tokenize htext cuts_nil rfl

theorem Cuts.append (htext : Cuts number text tokens) (hrest : Cuts number rest others)
    (hahead : ahead rest = (none, none)) : Cuts number (text ++ rest) (tokens ++ others) :=
  cuts_append_of_tokenize (htext _ (Nat.lt_succ_self _)) hrest hahead

end Cuts

section Brackets

theorem ahead_closeBracket : ahead [']'] = (none, none) := by decide

variable {text : List Char} {fuel : ℕ}

theorem scanToken_closeBracket {after : List Char}
    (hscan : scanToken number fuel text = some (.closeBracket, after)) : text = ']' :: after := by
  cases text with
  | nil => simp [scanToken] at hscan
  | cons letter text =>
    rw [scanToken] at hscan
    split_ifs at hscan
    · simp [bind_eq_some_iff] at hscan
    · simp [bind_eq_some_iff] at hscan
    · simp [scanNumber, bind_eq_some_iff] at hscan
    · unfold scanWord at hscan
      split_ifs at hscan <;> simp_all
    · unfold scanOperator at hscan
      split at hscan <;> simp_all

theorem tokenize_closeBracket_ne_nil : tokenize number fuel (text ++ [']']) ≠ some [] := by
  induction fuel generalizing text with
  | zero => simp [tokenize]
  | succ fuel ih =>
    obtain ⟨letter, rest, hcons⟩ := List.exists_cons_of_ne_nil
      (List.append_ne_nil_of_right_ne_nil text (List.cons_ne_nil ']' []))
    rw [hcons, tokenize]
    split
    · rename_i hblank
      cases text with
      | nil =>
        obtain ⟨rfl, -⟩ : ']' = letter ∧ [] = rest := by simpa using hcons
        exact absurd hblank (by decide)
      | cons first text =>
        obtain ⟨rfl, rfl⟩ : first = letter ∧ text ++ [']'] = rest := by simpa using hcons
        exact ih
    · simp [bind_eq_some_iff]

theorem cuts_of_closeBracket {tokens : List Token}
    (htext : tokenize number fuel (text ++ [']']) = some (tokens ++ [.closeBracket])) :
    Cuts number text tokens := by
  induction fuel generalizing text tokens with
  | zero => simp [tokenize] at htext
  | succ fuel ih =>
    cases text with
    | nil =>
      cases fuel with
      | zero => simp [tokenize] at htext
      | succ fuel =>
        have hbracket : tokenize number (fuel + 2) [']'] = some [.closeBracket] := rfl
        rw [List.nil_append, hbracket] at htext
        have htokens : tokens = [] := by simpa using htext
        subst htokens
        exact cuts_nil
    | cons letter text =>
      rw [List.cons_append, tokenize] at htext
      split at htext
      · rename_i hblank
        exact (ih htext).blank hblank
      · rename_i hblank
        obtain ⟨⟨token, after⟩, hscan, htail⟩ := bind_eq_some_iff.mp htext
        obtain ⟨inner, hinner, htokens⟩ := bind_eq_some_iff.mp htail
        simp only [Option.pure_def, Option.some.injEq] at htokens
        obtain ⟨word, hne, hword, hread⟩ := scanToken_word hscan
        have hlast : (word ++ after).getLast? = some ']' := by
          rw [← hword, ← List.cons_append, List.getLast?_append]
          rfl
        -- The token leaves something, since it would be the closing bracket otherwise.
        have hafter : after ≠ [] := by
          rintro rfl
          have hnil : inner = [] := by
            cases fuel with
            | zero => simp [tokenize] at hinner
            | succ fuel => simpa [tokenize] using hinner.symm
          subst hnil
          have hsingle : token = .closeBracket := by
            simpa using congrArg List.getLast? htokens
          subst hsingle
          simpa using scanToken_closeBracket hscan
        obtain ⟨rest, rfl⟩ : ∃ rest, after = rest ++ [']'] := by
          rw [List.getLast?_append, List.getLast?_eq_some_getLast hafter, Option.some_or] at hlast
          exact List.getLast?_eq_some_iff.mp (by rw [List.getLast?_eq_some_getLast hafter, hlast])
        have hsplit : letter :: text = word ++ rest :=
          List.append_cancel_right (by simpa using hword)
        obtain ⟨tail, rfl⟩ : ∃ tail, tokens = token :: tail := by
          cases tokens with
          | nil =>
            have hnil : inner = [] := by simpa using congrArg List.tail htokens
            subst hnil
            exact absurd hinner tokenize_closeBracket_ne_nil
          | cons first tail => exact ⟨tail, by simpa using (congrArg List.head? htokens).symm⟩
        obtain rfl : inner = tail ++ [.closeBracket] := by simpa using htokens
        have hhead : word.head?.any isWhitespace = false := by
          obtain ⟨head, word, rfl⟩ := List.exists_cons_of_ne_nil hne
          obtain rfl : letter = head := by simpa using congrArg List.head? hsplit
          simpa using hblank
        rw [hsplit]
        exact (ih hinner).cons hne hhead fun fuel' hfuel ↦
          hread _ fuel' (ahead_append ahead_closeBracket rest).symm hfuel

end Brackets

end Bdp.Selector
