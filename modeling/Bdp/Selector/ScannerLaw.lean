import Bdp.Selector.Tokens

/-!
# What the scanners read

Every scanner reads a word at the beginning of its text and nothing of what follows, except that it
may look at the next letter and at the next one that is not blank. A word is therefore read in the
same way before every text that looks alike.
-/

namespace Bdp.Selector

open Option (bind_eq_some_iff)
open List (cons_append length_cons length_append append_assoc)
open Option (pure_def)

variable {letter : Char}

section Ahead

/-- A letter that may continue the token before it. -/
def continues (letter : Char) : Bool := isNameCharacter letter || ['.', '(', '='].contains letter

def startsSegment (letter : Char) : Bool := ['.', '['].contains letter

/-- What a scanner can learn of the text behind its word. -/
def ahead (text : List Char) : Option Char × Option Char :=
  (text.head?.filter continues, (text.dropWhile isWhitespace).head?.filter startsSegment)

variable {after : List Char}

theorem ahead_append (hafter : ahead after = (none, none))
    (text : List Char) : ahead (text ++ after) = ahead text := by
  simp only [ahead, Prod.mk.injEq] at hafter
  cases text with
  | nil => simp only [List.nil_append, ahead, hafter]; rfl
  | cons letter text =>
    simp only [ahead, cons_append, List.head?_cons, Prod.mk.injEq, true_and]
    rw [← cons_append, List.dropWhile_append]
    split
    · rename_i hblank
      rw [hafter.2, List.isEmpty_iff.mp hblank]
      rfl
    · rename_i hblank
      rw [List.head?_append]
      cases hrest : (letter :: text).dropWhile isWhitespace with
      | nil => simp [hrest] at hblank
      | cons first rest => rfl

theorem ahead_cons (hcontinues : continues letter = false)
    (hblank : isWhitespace letter = false) (hsegment : startsSegment letter = false)
    (text : List Char) : ahead (letter :: text) = (none, none) := by
  simp [ahead, Option.filter, hcontinues, hblank, hsegment]

theorem ahead_blank (hblank : isWhitespace letter = false)
    (hsegment : startsSegment letter = false) (text : List Char) :
    ahead (' ' :: letter :: text) = (none, none) := by
  have hspace : continues ' ' = false ∧ isWhitespace ' ' = true := by decide
  simp [ahead, Option.filter, hspace, hblank, hsegment]

variable {text : List Char}

section

variable (hahead : ahead text = ahead after)
include hahead

theorem head_any_of_ahead
    (test : Char → Bool) (htest : ∀ letter, test letter = true → continues letter = true) :
    text.head?.any test = after.head?.any test := by
  have hfilter : ∀ head : Option Char, head.any test = (head.filter continues).any test := by
    intro head
    cases head with
    | none => rfl
    | some letter =>
      cases hletter : continues letter with
      | true => simp [Option.filter, hletter]
      | false =>
        have hfalse : test letter = false := by
          by_contra htrue
          rw [htest letter (by simpa using htrue)] at hletter
          cases hletter
        simp [Option.filter, hletter, hfalse]
  rw [hfilter, hfilter after.head?]
  exact congrArg (Option.any test) (congrArg Prod.fst hahead)

theorem head_eq_of_ahead (letter : Char) (hletter : continues letter = true) :
    text.head? = some letter ↔ after.head? = some letter := by
  have hany := head_any_of_ahead hahead (· == letter)
    (fun _ hequal ↦ by rwa [eq_of_beq hequal])
  cases text <;> cases after <;> simp_all

theorem blank_head_eq_of_ahead (letter : Char) (hletter : startsSegment letter = true) :
    (text.dropWhile isWhitespace).head? = some letter ↔
      (after.dropWhile isWhitespace).head? = some letter := by
  have hsecond : (text.dropWhile isWhitespace).head?.filter startsSegment =
      (after.dropWhile isWhitespace).head?.filter startsSegment := congrArg Prod.snd hahead
  have hiff : ∀ head : Option Char,
      head = some letter ↔ head.filter startsSegment = some letter := by
    intro head
    rw [Option.filter_eq_some_iff]
    simp [hletter]
  rw [hiff, hsecond, ← hiff]

end

end Ahead

section Spans

variable {p : Char → Bool}
variable {after : List Char}

theorem span_append {word : List Char} (hword : ∀ letter ∈ word, p letter = true)
    (hafter : after.head?.any p = false) :
    (word ++ after).takeWhile p = word ∧ (word ++ after).dropWhile p = after := by
  have hstop : after.takeWhile p = [] ∧ after.dropWhile p = after := by
    cases after with
    | nil => exact ⟨rfl, rfl⟩
    | cons letter after =>
      have hletter : p letter = false := by simpa using hafter
      simp [hletter]
  rw [List.takeWhile_append_of_pos hword, List.dropWhile_append_of_pos hword, hstop.1, hstop.2]
  simp

variable (text : List Char)

theorem takeWhile_all : ∀ letter ∈ text.takeWhile p, p letter = true :=
  fun _ hmem ↦ List.mem_takeWhile_imp hmem

theorem dropWhile_stops : (text.dropWhile p).head?.any p = false := by
  induction text with
  | nil => rfl
  | cons letter text ih =>
    rw [List.dropWhile_cons]
    split
    · exact ih
    · rename_i hletter
      simpa using hletter

theorem head_append_any (word : List Char) {text : List Char} (test : Char → Bool)
    (hhead : text.head?.any test = after.head?.any test) :
    (word ++ text).head?.any test = (word ++ after).head?.any test := by
  cases word with
  | nil => exact hhead
  | cons letter word => rfl

end Spans

variable {fuel : ℕ}

section Strings

variable {after text : List Char}

theorem scanUnicodeEscape_word {unit : ℕ} (hscan : scanUnicodeEscape text = some (unit, after)) :
    ∃ word, word ≠ [] ∧ text = word ++ after ∧
      ∀ rest, scanUnicodeEscape (word ++ rest) = some (unit, rest) := by
  unfold scanUnicodeEscape at hscan
  split at hscan
  · rename_i a b c d rest
    simp only [Option.bind_eq_bind, bind_eq_some_iff, pure_def, Option.some.injEq,
      Prod.mk.injEq] at hscan
    obtain ⟨first, hfirst, second, hsecond, third, hthird, fourth, hfourth, rfl, rfl⟩ := hscan
    exact ⟨['u', a, b, c, d], by simp, rfl, fun rest ↦ by
      simp [scanUnicodeEscape, hfirst, hsecond, hthird, hfourth]⟩
  · cases hscan

variable {value : Char}

theorem letterOfUnit_word {first : ℕ} (hletter : letterOfUnit first text = some (value, after)) :
    ∃ word, text = word ++ after ∧
      ∀ rest, letterOfUnit first (word ++ rest) = some (value, rest) := by
  unfold letterOfUnit at hletter
  split at hletter
  · rename_i hhigh
    split at hletter
    · rename_i low
      obtain ⟨⟨second, rest⟩, hsecond, hpair⟩ := bind_eq_some_iff.mp hletter
      obtain ⟨word, -, rfl, hword⟩ := scanUnicodeEscape_word hsecond
      obtain ⟨⟨⟩, hguard, hpair⟩ := bind_eq_some_iff.mp hpair
      simp only [pure_def, Option.some.injEq, Prod.mk.injEq] at hpair
      obtain ⟨rfl, rfl⟩ := hpair
      exact ⟨'\\' :: word, rfl, fun rest ↦ by
        simp [letterOfUnit, hhigh, hword, hguard]⟩
    · cases hletter
  · rename_i hhigh
    split at hletter
    · cases hletter
    · rename_i hlow
      simp only [Option.some.injEq, Prod.mk.injEq] at hletter
      obtain ⟨rfl, rfl⟩ := hletter
      exact ⟨[], rfl, fun rest ↦ by simp [letterOfUnit, hhigh, hlow]⟩

variable {quote : Char}

theorem scanEscape_word (hscan : scanEscape quote text = some (value, after)) :
    ∃ word, word ≠ [] ∧ text = word ++ after ∧
      ∀ rest, scanEscape quote (word ++ rest) = some (value, rest) := by
  cases text with
  | nil => simp [scanEscape] at hscan
  | cons escaped text =>
    rw [scanEscape] at hscan
    split at hscan
    · rename_i simple hsimple
      simp only [Option.some.injEq, Prod.mk.injEq] at hscan
      obtain ⟨rfl, rfl⟩ := hscan
      exact ⟨[escaped], by simp, rfl, fun rest ↦ by simp [scanEscape, hsimple]⟩
    · rename_i hsimple
      split at hscan
      · rename_i hquote
        simp only [Option.some.injEq, Prod.mk.injEq] at hscan
        obtain ⟨rfl, rfl⟩ := hscan
        exact ⟨[escaped], by simp, rfl, fun rest ↦ by
          rw [List.singleton_append, scanEscape, hsimple, if_pos hquote]⟩
      · rename_i hquote
        obtain ⟨⟨first, middle⟩, hfirst, hscan⟩ := bind_eq_some_iff.mp hscan
        obtain ⟨word, hne, htext, hword⟩ := scanUnicodeEscape_word hfirst
        obtain ⟨pair, rfl, hpair⟩ := letterOfUnit_word hscan
        refine ⟨word ++ pair, by simp [hne], by simp [htext], fun rest ↦ ?_⟩
        obtain ⟨head, word, rfl⟩ := List.exists_cons_of_ne_nil hne
        obtain rfl : escaped = head := by simpa using congrArg List.head? htext
        have hread := hword (pair ++ rest)
        simp only [cons_append] at hread
        simp [scanEscape, hsimple, hquote, hread, hpair]

theorem scanQuotedString_word {value : List Char}
    (hscan : scanQuotedString quote fuel text = some (value, after)) :
    ∃ word, word ≠ [] ∧ text = word ++ after ∧ ∀ rest fuel', word.length ≤ fuel' →
        scanQuotedString quote fuel' (word ++ rest) = some (value, rest) := by
  induction fuel generalizing text value with
  | zero => simp [scanQuotedString] at hscan
  | succ fuel ih =>
    cases text with
    | nil => simp [scanQuotedString] at hscan
    | cons letter text =>
      rw [scanQuotedString] at hscan
      split at hscan
      · rename_i hquote
        simp only [Option.some.injEq, Prod.mk.injEq] at hscan
        obtain ⟨rfl, rfl⟩ := hscan
        refine ⟨[letter], by simp, rfl, fun rest fuel' hfuel ↦ ?_⟩
        obtain ⟨fuel', rfl⟩ := Nat.exists_eq_add_of_le' hfuel
        simp [scanQuotedString, hquote]
      · rename_i hquote
        split at hscan
        · cases hscan
        · rename_i hcontrol
          split at hscan
          · rename_i hescape
            obtain ⟨⟨inner, rest⟩, hinner, hscan⟩ := bind_eq_some_iff.mp hscan
            simp only [pure_def, Option.some.injEq, Prod.mk.injEq] at hscan
            obtain ⟨rfl, rfl⟩ := hscan
            obtain ⟨word, -, rfl, hword⟩ := ih hinner
            refine ⟨letter :: word, by simp, rfl, fun rest fuel' hfuel ↦ ?_⟩
            obtain ⟨fuel', rfl⟩ := Nat.exists_eq_add_of_le' (Nat.le_of_add_left_le hfuel)
            have hread := hword rest fuel' (by simpa using hfuel)
            simp [scanQuotedString, hquote, hcontrol, hescape, hread]
          · rename_i hescape
            obtain ⟨⟨escaped, middle⟩, hescaped, hscan⟩ := bind_eq_some_iff.mp hscan
            obtain ⟨⟨inner, rest⟩, hinner, hscan⟩ := bind_eq_some_iff.mp hscan
            simp only [pure_def, Option.some.injEq, Prod.mk.injEq] at hscan
            obtain ⟨rfl, rfl⟩ := hscan
            obtain ⟨escape, -, rfl, hread⟩ := scanEscape_word hescaped
            obtain ⟨word, -, rfl, hword⟩ := ih hinner
            refine ⟨letter :: (escape ++ word), by simp, by simp, fun rest fuel' hfuel ↦ ?_⟩
            rw [length_cons, length_append] at hfuel
            obtain ⟨fuel', rfl⟩ := Nat.exists_eq_add_of_le' (Nat.le_of_add_left_le hfuel)
            have hrest := hword rest fuel' (by omega)
            have hescape : letter = '\\' := by simpa using hescape
            rw [cons_append, scanQuotedString, if_neg hquote, if_neg hcontrol,
              if_neg (not_not.mpr hescape), append_assoc, hread]
            simp [hrest]

end Strings

variable {rest : List Char}

section Paths

theorem isNameCharacter_continues (letter : Char) (hname : isNameCharacter letter = true) :
    continues letter = true := by
  simp [continues, hname]

theorem scanName_append {name : List Char} (hname : ∀ letter ∈ name, isNameCharacter letter = true)
    (hrest : rest.head?.any isNameCharacter = false) :
    scanName (name ++ rest) = (name, rest) := by
  rw [scanName, (span_append hname hrest).1, (span_append hname hrest).2]

variable {after text : List Char} {segment : Segment}

theorem scanIndexDigits_word {negative : Bool}
    (hscan : scanIndexDigits negative text = some (segment, after)) :
    ∃ word, word ≠ [] ∧ (∀ letter ∈ word, letter.isDigit = true) ∧ text = word ++ ']' :: after ∧
      ∀ rest, scanIndexDigits negative (word ++ ']' :: rest) = some (segment, rest) := by
  unfold scanIndexDigits at hscan
  split at hscan
  · rename_i rest hdrop
    obtain ⟨value, hvalue, hscan⟩ := bind_eq_some_iff.mp hscan
    simp only [pure_def, Option.some.injEq, Prod.mk.injEq] at hscan
    obtain ⟨rfl, rfl⟩ := hscan
    refine ⟨text.takeWhile Char.isDigit, ?_, takeWhile_all text, ?_, fun tail ↦ ?_⟩
    · intro hnil
      simp [hnil, indexValue] at hvalue
    · rw [← hdrop, List.takeWhile_append_dropWhile]
    · have hstop : (']' :: tail).head?.any Char.isDigit = false := rfl
      obtain ⟨htake, hdropped⟩ := span_append (takeWhile_all text) hstop
      rw [scanIndexDigits, htake, hdropped]
      simp [hvalue]
  · cases hscan

theorem scanIndex_word (hscan : scanIndex text = some (segment, after)) :
    ∃ word, word ≠ [] ∧ text = word ++ after ∧
      ∀ rest, scanIndex (word ++ rest) = some (segment, rest) := by
  unfold scanIndex at hscan
  split at hscan
  · rename_i digits
    obtain ⟨word, -, -, rfl, hread⟩ := scanIndexDigits_word hscan
    exact ⟨'-' :: (word ++ [']']), by simp, by simp, fun rest ↦ by simp [scanIndex, hread]⟩
  · obtain ⟨word, hne, hdigits, rfl, hread⟩ := scanIndexDigits_word hscan
    refine ⟨word ++ [']'], by simp, by simp, fun rest ↦ ?_⟩
    obtain ⟨letter, word, rfl⟩ := List.exists_cons_of_ne_nil hne
    have hminus : letter ≠ '-' := by
      rintro rfl
      exact absurd (hdigits '-' (by simp)) (by decide)
    rw [append_assoc, List.singleton_append, ← hread rest]
    unfold scanIndex
    split
    · rename_i digits hcons
      exact absurd (congrArg List.head? hcons) (by simpa using hminus)
    · rfl

theorem scanSingularBracketSegment_word
    (hscan : scanSingularBracketSegment fuel text = some (segment, after)) :
    ∃ word, word ≠ [] ∧ text = word ++ after ∧ ∀ rest fuel', word.length ≤ fuel' →
        scanSingularBracketSegment fuel' (word ++ rest) = some (segment, rest) := by
  cases text with
  | nil => simp [scanSingularBracketSegment] at hscan
  | cons letter text =>
    rw [scanSingularBracketSegment] at hscan
    split at hscan
    · rename_i hquote
      obtain ⟨⟨value, middle⟩, hstring, hsegment⟩ := bind_eq_some_iff.mp hscan
      obtain ⟨word, -, rfl, hword⟩ := scanQuotedString_word hstring
      dsimp only at hsegment
      split at hsegment
      · simp only [pure_def, Option.some.injEq, Prod.mk.injEq] at hsegment
        obtain ⟨rfl, rfl⟩ := hsegment
        refine ⟨letter :: (word ++ [']']), by simp, by simp, fun rest fuel' hfuel ↦ ?_⟩
        rw [length_cons, length_append] at hfuel
        have hread := hword (']' :: rest) fuel' (by omega)
        simp [scanSingularBracketSegment, hquote, hread]
      · cases hsegment
    · rename_i hquote
      split at hscan
      · rename_i hindex
        obtain ⟨word, hne, htext, hword⟩ := scanIndex_word hscan
        refine ⟨word, hne, htext, fun rest fuel' _ ↦ ?_⟩
        obtain ⟨head, word, rfl⟩ := List.exists_cons_of_ne_nil hne
        obtain rfl : letter = head := by simpa using congrArg List.head? htext
        rw [cons_append, scanSingularBracketSegment, if_neg hquote, if_pos hindex,
          ← cons_append, hword]
      · cases hscan

theorem dropWhile_blank_append {blank : List Char}
    (hblank : ∀ letter ∈ blank, isWhitespace letter = true)
    (hletter : isWhitespace letter = false) (rest : List Char) :
    (blank ++ letter :: rest).dropWhile isWhitespace = letter :: rest := by
  rw [List.dropWhile_append_of_pos hblank, List.dropWhile_cons_of_neg (by simp [hletter])]

theorem blank_of_dropWhile (hdrop : text.dropWhile isWhitespace = letter :: rest) :
    ∃ blank, text = blank ++ letter :: rest ∧ ∀ letter ∈ blank, isWhitespace letter = true :=
  ⟨text.takeWhile isWhitespace, by rw [← hdrop, List.takeWhile_append_dropWhile],
    takeWhile_all text⟩

theorem scanPath_word {segments : List Segment}
    (hscan : scanPath fuel text = some (segments, after)) :
    ∃ word, text = word ++ after ∧ ∀ rest fuel', ahead rest = ahead after → word.length < fuel' →
        scanPath fuel' (word ++ rest) = some (segments, rest) := by
  induction fuel generalizing text segments with
  | zero => simp [scanPath] at hscan
  | succ fuel ih =>
    rw [scanPath] at hscan
    split at hscan
    · rename_i behind hdrop
      split at hscan
      · rename_i hfirst
        obtain ⟨⟨inner, rest⟩, hinner, hsegments⟩ := bind_eq_some_iff.mp hscan
        simp only [pure_def, Option.some.injEq, Prod.mk.injEq] at hsegments
        obtain ⟨rfl, rfl⟩ := hsegments
        obtain ⟨word, hword, hread⟩ := ih hinner
        obtain ⟨blank, rfl, hblank⟩ := blank_of_dropWhile hdrop
        have hname : ∀ letter ∈ (scanName behind).1, isNameCharacter letter = true :=
          takeWhile_all behind
        have hbehind : behind = (scanName behind).1 ++ (word ++ rest) := by
          rw [← hword]
          exact List.takeWhile_append_dropWhile.symm
        have hne : (scanName behind).1.head?.any isNameFirst = true := by
          cases behind with
          | nil => simp at hfirst
          | cons letter behind =>
            have hletter : isNameFirst letter = true := by simpa using hfirst
            simp [scanName, isNameCharacter, hletter]
        have hstop : (word ++ rest).head?.any isNameCharacter = false := by
          rw [← hword]
          exact dropWhile_stops behind
        refine ⟨blank ++ '.' :: ((scanName behind).1 ++ word), ?_, fun tail fuel' htail hfuel ↦ ?_⟩
        · conv_lhs => rw [hbehind]
          simp
        · have htails : (word ++ tail).head?.any isNameCharacter = false := by
            rw [← hstop]
            exact head_append_any word _ (head_any_of_ahead htail _ isNameCharacter_continues)
          rw [length_append, length_cons, length_append] at hfuel
          obtain ⟨fuel', rfl⟩ := Nat.exists_eq_add_of_le' (Nat.one_le_of_lt hfuel)
          have hdropped : (blank ++ '.' :: ((scanName behind).1 ++ word) ++ tail).dropWhile
              isWhitespace = '.' :: ((scanName behind).1 ++ (word ++ tail)) := by
            rw [append_assoc, cons_append, append_assoc]
            exact dropWhile_blank_append hblank rfl _
          have hhead : ((scanName behind).1 ++ (word ++ tail)).head?.any isNameFirst = true := by
            cases hcases : (scanName behind).1 with
            | nil => simp [hcases] at hne
            | cons letter name => simpa [hcases] using hne
          rw [scanPath, hdropped]
          simp only [hhead, if_true, scanName_append hname htails,
            hread tail fuel' htail (by omega), Option.bind_eq_bind, Option.bind_some,
            pure_def]
      · cases hscan
    · rename_i behind hdrop
      obtain ⟨⟨segment, middle⟩, hsegment, hrest⟩ := bind_eq_some_iff.mp hscan
      obtain ⟨⟨inner, rest⟩, hinner, hsegments⟩ := bind_eq_some_iff.mp hrest
      simp only [pure_def, Option.some.injEq, Prod.mk.injEq] at hsegments
      obtain ⟨rfl, rfl⟩ := hsegments
      obtain ⟨bracket, -, rfl, hbracket⟩ := scanSingularBracketSegment_word hsegment
      obtain ⟨word, rfl, hread⟩ := ih hinner
      obtain ⟨blank, rfl, hblank⟩ := blank_of_dropWhile hdrop
      refine ⟨blank ++ '[' :: (bracket ++ word), by simp, fun tail fuel' htail hfuel ↦ ?_⟩
      rw [length_append, length_cons, length_append] at hfuel
      obtain ⟨fuel', rfl⟩ := Nat.exists_eq_add_of_le' (Nat.one_le_of_lt hfuel)
      have hdropped : (blank ++ '[' :: (bracket ++ word) ++ tail).dropWhile isWhitespace =
          '[' :: (bracket ++ (word ++ tail)) := by
        rw [append_assoc, cons_append, append_assoc]
        exact dropWhile_blank_append hblank rfl _
      rw [scanPath, hdropped]
      simp [hbracket (word ++ tail) fuel' (by omega), hread tail fuel' htail (by omega)]
    · rename_i hpoint hbracket
      simp only [Option.some.injEq, Prod.mk.injEq] at hscan
      obtain ⟨rfl, rfl⟩ := hscan
      refine ⟨[], rfl, fun tail fuel' htail hfuel ↦ ?_⟩
      obtain ⟨fuel', rfl⟩ := Nat.exists_eq_add_of_le' (Nat.one_le_of_lt hfuel)
      rw [List.nil_append, scanPath]
      split
      · rename_i behind hdrop
        have hhead := (blank_head_eq_of_ahead htail '.' rfl).mp (by simp [hdrop])
        obtain ⟨letters, hletters⟩ := List.head?_eq_some_iff.mp hhead
        exact absurd hletters (hpoint letters)
      · rename_i behind hdrop
        have hhead := (blank_head_eq_of_ahead htail '[' rfl).mp (by simp [hdrop])
        obtain ⟨letters, hletters⟩ := List.head?_eq_some_iff.mp hhead
        exact absurd hletters (hbracket letters)
      · rfl

end Paths

variable {token : Token}

section Words

variable {after text : List Char}

theorem scanWord_word (hscan : scanWord text = some (token, after)) :
    text = (scanName text).1 ++ after ∧ ∀ rest, ahead rest = ahead after →
        scanWord ((scanName text).1 ++ rest) = some (token, rest) := by
  have hafter : (scanName text).2 = after := by
    unfold scanWord at hscan
    split_ifs at hscan <;> simp_all
  have hstop : after.head?.any isNameCharacter = false := by
    rw [← hafter]
    exact dropWhile_stops text
  have hparen : after.head? ≠ some '(' := by
    intro hparen
    rw [scanWord, hafter, if_pos hparen] at hscan
    cases hscan
  refine ⟨?_, fun rest hrest ↦ ?_⟩
  · rw [← hafter]
    exact List.takeWhile_append_dropWhile.symm
  · have hname : ∀ letter ∈ (scanName text).1, isNameCharacter letter = true :=
      takeWhile_all text
    have hrestName : rest.head?.any isNameCharacter = false := by
      rw [head_any_of_ahead hrest _ isNameCharacter_continues, hstop]
    have hrestParen : rest.head? ≠ some '(' :=
      fun hparen' ↦ hparen ((head_eq_of_ahead hrest '(' rfl).mp hparen')
    rw [scanWord, hafter, if_neg hparen] at hscan
    rw [scanWord, scanName_append hname hrestName, if_neg hrestParen]
    split_ifs at hscan ⊢ <;> simp_all

theorem afterInteger_word (hinteger : afterInteger text = some after) :
    ∃ word, word ≠ [] ∧ text = word ++ after ∧
      ∀ rest, (rest.head?.any Char.isDigit = true → after.head?.any Char.isDigit = true) →
        afterInteger (word ++ rest) = some rest := by
  cases text with
  | nil => simp [afterInteger] at hinteger
  | cons digit text =>
    rw [afterInteger] at hinteger
    split_ifs at hinteger with hzero hdigit
    · simp only [Option.some.injEq] at hinteger
      subst hinteger
      exact ⟨[digit], by simp, rfl, fun rest _ ↦ by simp [afterInteger, hzero]⟩
    · simp only [Option.some.injEq] at hinteger
      subst hinteger
      refine ⟨digit :: text.takeWhile Char.isDigit, by simp, by simp, fun rest hrest ↦ ?_⟩
      have hstop : rest.head?.any Char.isDigit = false := by
        by_contra hmore
        have habsurd := hrest (by simpa using hmore)
        rw [dropWhile_stops text] at habsurd
        cases habsurd
      simp [afterInteger, hzero, hdigit, (span_append (takeWhile_all text) hstop).2]

def EndsNumber (rest : List Char) : Prop :=
  rest.head?.any isNameCharacter = false ∧ rest.head? ≠ some '.'

theorem EndsNumber.no_digit (hends : EndsNumber rest) : rest.head?.any Char.isDigit = false := by
  have hname := hends.1
  cases rest with
  | nil => rfl
  | cons first rest =>
    have hfirst : isNameCharacter first = false := by simpa using hname
    simp only [isNameCharacter, Bool.or_eq_false_iff] at hfirst
    simpa using hfirst.1

theorem afterFraction_word (hpoint : (afterFraction text).head? ≠ some '.') :
    ∃ word, text = word ++ afterFraction text ∧ (word = [] ∨ word.head? = some '.') ∧
      ∀ rest, rest.head? ≠ some '.' →
        (rest.head?.any Char.isDigit = true → (afterFraction text).head?.any Char.isDigit = true) →
        afterFraction (word ++ rest) = rest := by
  by_cases hfraction : ∃ digits, text = '.' :: digits ∧ digits.head?.any Char.isDigit = true
  · obtain ⟨digits, rfl, hdigits⟩ := hfraction
    have hafter : afterFraction ('.' :: digits) = digits.dropWhile Char.isDigit := by
      simp only [afterFraction, hdigits, if_true]
    refine ⟨'.' :: digits.takeWhile Char.isDigit, ?_, .inr rfl, fun rest _ hrest ↦ ?_⟩
    · rw [hafter, cons_append, List.takeWhile_append_dropWhile]
    · rw [hafter, dropWhile_stops] at hrest
      have hstop : rest.head?.any Char.isDigit = false := by
        by_contra hmore
        exact absurd (hrest (by simpa using hmore)) (by simp)
      have hhead : (digits.takeWhile Char.isDigit ++ rest).head?.any Char.isDigit = true := by
        cases digits with
        | nil => simp at hdigits
        | cons digit digits =>
          have hdigit : digit.isDigit = true := by simpa using hdigits
          simp [hdigit]
      rw [cons_append, afterFraction]
      simp only [hhead, if_true, (span_append (takeWhile_all digits) hstop).2]
  · have hkeep : ∀ rest : List Char, rest.head? ≠ some '.' → afterFraction rest = rest := by
      intro rest hrest
      unfold afterFraction
      split
      · simp at hrest
      · rfl
    have hafter : afterFraction text = text := by
      unfold afterFraction
      split
      · rename_i digits
        rw [if_neg fun hdigits ↦ hfraction ⟨digits, rfl, hdigits⟩]
      · rfl
    exact ⟨[], by rw [hafter]; rfl, .inl rfl, fun rest hrest _ ↦ hkeep rest hrest⟩

theorem exponentDigits_append {digits : List Char} (hdigits : digits =
      if rest.head? = some '+' ∨ rest.head? = some '-' then rest.drop 1 else rest) :
    ∃ sign, rest = sign ++ digits ∧ ∀ word : List Char, word.head? = digits.head? →
      (if (sign ++ word).head? = some '+' ∨ (sign ++ word).head? = some '-' then
        (sign ++ word).drop 1 else sign ++ word) = word := by
  split_ifs at hdigits with hsign
  · obtain ⟨letter, tail, rfl⟩ : ∃ letter tail, rest = letter :: tail := by
      cases rest with
      | nil => simp at hsign
      | cons letter tail => exact ⟨letter, tail, rfl⟩
    refine ⟨[letter], by simpa using hdigits.symm, fun word _ ↦ ?_⟩
    have hletter : letter = '+' ∨ letter = '-' := by simpa using hsign
    simp [hletter]
  · subst hdigits
    exact ⟨[], rfl, fun word hword ↦ by simp [hword, not_or.mp hsign]⟩

theorem afterExponent_word (hends : EndsNumber (afterExponent text)) :
    ∃ word, text = word ++ afterExponent text ∧
      (word = [] ∨ ∃ letter, word.head? = some letter ∧ letter ≠ '.' ∧ letter.isDigit = false) ∧
      ∀ rest, EndsNumber rest → afterExponent (word ++ rest) = rest := by
  have hkeep : ∀ rest, EndsNumber rest → afterExponent rest = rest := by
    intro rest hrest
    cases rest with
    | nil => rfl
    | cons letter rest =>
      have hletter : isNameCharacter letter = false := by simpa using hrest.1
      have hexponent : ¬(letter = 'e' ∨ letter = 'E') := by
        rintro (rfl | rfl) <;> simp [isNameCharacter, isNameFirst] at hletter
      simp [afterExponent, hexponent]
  cases text with
  | nil => exact ⟨[], rfl, .inl rfl, hkeep⟩
  | cons letter text =>
    obtain ⟨digits, hdigits⟩ : ∃ digits, digits =
        if text.head? = some '+' ∨ text.head? = some '-' then text.drop 1 else text := ⟨_, rfl⟩
    by_cases hexponent : (letter = 'e' ∨ letter = 'E') ∧ digits.head?.any Char.isDigit = true
    · have hafter : afterExponent (letter :: text) = digits.dropWhile Char.isDigit := by
        rw [afterExponent, ← hdigits, if_pos hexponent]
      obtain ⟨sign, rfl, hsign⟩ := exponentDigits_append hdigits
      refine ⟨letter :: (sign ++ digits.takeWhile Char.isDigit), ?_,
        .inr ⟨letter, rfl, ?_, ?_⟩, fun rest hrest ↦ ?_⟩
      · rw [hafter, cons_append, append_assoc, List.takeWhile_append_dropWhile]
      · rcases hexponent.1 with rfl | rfl <;> decide
      · rcases hexponent.1 with rfl | rfl <;> decide
      · have hhead : (digits.takeWhile Char.isDigit ++ rest).head? = digits.head? := by
          cases digits with
          | nil => simp at hexponent
          | cons digit digits =>
            have hdigit : digit.isDigit = true := by simpa using hexponent.2
            simp [hdigit]
        rw [cons_append, append_assoc, afterExponent, hsign _ hhead, hhead,
          if_pos hexponent, (span_append (takeWhile_all digits) hrest.no_digit).2]
    · have hafter : afterExponent (letter :: text) = letter :: text := by
        rw [afterExponent, ← hdigits, if_neg hexponent]
      exact ⟨[], by rw [hafter]; rfl, .inl rfl, hkeep⟩

theorem endsNumber_of_ahead (hahead : ahead rest = ahead after)
    (hends : EndsNumber after) : EndsNumber rest :=
  ⟨by rw [head_any_of_ahead hahead _ isNameCharacter_continues, hends.1],
    fun hpoint ↦ hends.2 ((head_eq_of_ahead hahead '.' rfl).mp hpoint)⟩

/-- The digits, the fraction and the exponent are each read in the same way before every text that
ends the number. -/
theorem afterNumber_word (hnumber : afterNumber text = some after) :
    ∃ word, word ≠ [] ∧ text = word ++ after ∧
      ∀ rest, ahead rest = ahead after → afterNumber (word ++ rest) = some rest := by
  obtain ⟨first, hinteger, hnumber⟩ := bind_eq_some_iff.mp hnumber
  obtain ⟨⟨⟩, hguard, hafter⟩ := bind_eq_some_iff.mp hnumber
  have hends : EndsNumber (afterExponent (afterFraction first)) := by
    simpa [guard, EndsNumber] using hguard
  have hafter : afterExponent (afterFraction first) = after := by simpa using hafter
  obtain ⟨exponent, hexponentText, hexponentHead, hexponent⟩ := afterExponent_word hends
  have hpoint : (afterFraction first).head? ≠ some '.' := by
    rw [hexponentText]
    rcases hexponentHead with rfl | ⟨letter, hletter, hpoint, -⟩
    · exact hends.2
    · simp [List.head?_append, hletter, hpoint]
  obtain ⟨fraction, hfractionText, hfractionHead, hfraction⟩ := afterFraction_word hpoint
  obtain ⟨digits, hne, hdigitsText, hdigits⟩ := afterInteger_word hinteger
  rw [hafter] at hends hexponentText
  have hread : ∀ rest, EndsNumber rest → afterInteger (digits ++ (fraction ++ (exponent ++ rest))) =
        some (fraction ++ (exponent ++ rest)) ∧
      afterExponent (afterFraction (fraction ++ (exponent ++ rest))) = rest := by
    intro rest hrest
    have hexponentDigit : (exponent ++ rest).head?.any Char.isDigit = false := by
      rcases hexponentHead with rfl | ⟨letter, hletter, -, hdigit⟩
      · exact hrest.no_digit
      · simp [List.head?_append, hletter, hdigit]
    have hfractionDigit : (fraction ++ (exponent ++ rest)).head?.any Char.isDigit = false := by
      rcases hfractionHead with rfl | hhead
      · exact hexponentDigit
      · simp only [List.head?_append, hhead, Option.some_or]
        decide
    have hexponentPoint : (exponent ++ rest).head? ≠ some '.' := by
      rcases hexponentHead with rfl | ⟨letter, hletter, hpoint, -⟩
      · exact hrest.2
      · simp [List.head?_append, hletter, hpoint]
    refine ⟨hdigits _ fun hdigit ↦ ?_, ?_⟩
    · rw [hfractionDigit] at hdigit
      cases hdigit
    · rw [hfraction _ hexponentPoint, hexponent _ hrest]
      intro hdigit
      rw [hexponentDigit] at hdigit
      cases hdigit
  have hword : ∀ rest, EndsNumber rest → ∀ sign : List Char,
      (if (sign ++ (digits ++ (fraction ++ (exponent ++ rest)))).head? = some '-' then
        (sign ++ (digits ++ (fraction ++ (exponent ++ rest)))).drop 1
        else sign ++ (digits ++ (fraction ++ (exponent ++ rest)))) =
        digits ++ (fraction ++ (exponent ++ rest)) →
      afterNumber (sign ++ (digits ++ (fraction ++ (exponent ++ rest)))) = some rest := by
    intro rest hrest sign hsign
    have hguard : rest.head?.any isNameCharacter = false ∧ rest.head? ≠ some '.' := hrest
    rw [afterNumber, hsign, (hread rest hrest).1]
    simp [(hread rest hrest).2, guard, hguard.1, hguard.2]
  have hbody : first = fraction ++ (exponent ++ after) := by
    rw [hfractionText]
    conv_lhs => rw [hexponentText]
  by_cases hminus : text.head? = some '-'
  · rw [if_pos hminus, hbody] at hdigitsText
    obtain ⟨letter, text, rfl⟩ : ∃ letter tail, text = letter :: tail := by
      cases text with
      | nil => simp at hminus
      | cons letter tail => exact ⟨letter, tail, rfl⟩
    obtain rfl : letter = '-' := by simpa using hminus
    refine ⟨'-' :: (digits ++ (fraction ++ exponent)), by simp, ?_, fun rest hrest ↦ ?_⟩
    · simpa using hdigitsText
    · simpa using hword rest (endsNumber_of_ahead hrest hends) ['-'] (by simp)
  · rw [if_neg hminus, hbody] at hdigitsText
    refine ⟨digits ++ (fraction ++ exponent), by simp [hne], ?_, fun rest hrest ↦ ?_⟩
    · simpa using hdigitsText
    · have hhead : (digits ++ (fraction ++ (exponent ++ rest))).head? ≠ some '-' := by
        obtain ⟨digit, digits, rfl⟩ := List.exists_cons_of_ne_nil hne
        rw [hdigitsText] at hminus
        simpa using hminus
      simpa using hword rest (endsNumber_of_ahead hrest hends) []
        (by rw [List.nil_append, if_neg hhead])

theorem scanNumber_word {number : List Char → Option ℚ}
    (hscan : scanNumber number text = some (token, after)) :
    ∃ word, word ≠ [] ∧ text = word ++ after ∧
      ∀ rest, ahead rest = ahead after → scanNumber number (word ++ rest) = some (token, rest) := by
  obtain ⟨rest, hnumber, hscan⟩ := bind_eq_some_iff.mp hscan
  obtain ⟨value, hvalue, hscan⟩ := bind_eq_some_iff.mp hscan
  simp only [pure_def, Option.some.injEq, Prod.mk.injEq] at hscan
  obtain ⟨rfl, rfl⟩ := hscan
  obtain ⟨word, hne, rfl, hword⟩ := afterNumber_word hnumber
  refine ⟨word, hne, rfl, fun tail htail ↦ ?_⟩
  have hvalue : number word = some value := by simpa using hvalue
  simp [scanNumber, hword tail htail, hvalue]

theorem scanOperator_single {operator : Operator} (hsingle : ∀ next rest, next ≠ '=' →
      scanOperator (letter :: next :: rest) = some (.operator operator, next :: rest))
    (hlast : scanOperator [letter] = some (.operator operator, []))
    (hafter : ∀ rest, after = '=' :: rest → False) :
    ∃ word, word ≠ [] ∧ letter :: after = word ++ after ∧
      ∀ rest : List Char, (rest.head? = some '=' → after.head? = some '=') →
        scanOperator (word ++ rest) = some (.operator operator, rest) := by
  refine ⟨[letter], by simp, rfl, fun rest hrest ↦ ?_⟩
  cases rest with
  | nil => exact hlast
  | cons next rest =>
    refine hsingle next rest fun hequal ↦ ?_
    obtain ⟨tail, htail⟩ := List.head?_eq_some_iff.mp (hrest (by simp [hequal]))
    exact hafter tail htail

theorem scanOperator_word (hscan : scanOperator text = some (token, after)) :
    ∃ word, word ≠ [] ∧ text = word ++ after ∧
      ∀ rest, (rest.head? = some '=' → after.head? = some '=') →
        scanOperator (word ++ rest) = some (token, rest) := by
  have hsingle : ∀ next rest, next ≠ '=' →
      scanOperator ('!' :: next :: rest) = some (.operator .not, next :: rest) ∧
      scanOperator ('<' :: next :: rest) = some (.operator (.compare .less), next :: rest) ∧
      scanOperator ('>' :: next :: rest) = some (.operator (.compare .greater), next :: rest) := by
    intro next rest hnext
    refine ⟨?_, ?_, ?_⟩ <;> unfold scanOperator <;> split <;> simp_all
  unfold scanOperator at hscan
  split at hscan
  case h_7 hafter =>
    cases hscan
    exact scanOperator_single (fun next rest hnext ↦ (hsingle next rest hnext).1) rfl hafter
  case h_8 hafter =>
    cases hscan
    exact scanOperator_single (fun next rest hnext ↦ (hsingle next rest hnext).2.1) rfl hafter
  case h_9 hafter =>
    cases hscan
    exact scanOperator_single (fun next rest hnext ↦ (hsingle next rest hnext).2.2) rfl hafter
  case h_16 => cases hscan
  case h_1 | h_2 | h_3 | h_4 | h_5 | h_6 =>
    cases hscan
    exact ⟨[_, _], by simp, rfl, fun _ _ ↦ rfl⟩
  all_goals
    cases hscan
    exact ⟨[_], by simp, rfl, fun _ _ ↦ rfl⟩

end Words

section Tokens

variable {number : List Char → Option ℚ}

theorem scanToken_word {text after : List Char}
    (hscan : scanToken number fuel text = some (token, after)) :
    ∃ word, word ≠ [] ∧ text = word ++ after ∧
      ∀ rest fuel', ahead rest = ahead after → word.length ≤ fuel' →
        scanToken number fuel' (word ++ rest) = some (token, rest) := by
  cases text with
  | nil => simp [scanToken] at hscan
  | cons letter text =>
    have hhead : ∀ {word : List Char}, word ≠ [] → letter :: text = word ++ after →
        ∃ tail, word = letter :: tail := by
      intro word hne htext
      obtain ⟨head, tail, rfl⟩ := List.exists_cons_of_ne_nil hne
      obtain rfl : letter = head := by simpa using congrArg List.head? htext
      exact ⟨tail, rfl⟩
    rw [scanToken] at hscan
    split_ifs at hscan with hquote hpath hnumber hname
    · obtain ⟨⟨value, rest⟩, hstring, htoken⟩ := bind_eq_some_iff.mp hscan
      simp only [pure_def, Option.some.injEq, Prod.mk.injEq] at htoken
      obtain ⟨rfl, rfl⟩ := htoken
      obtain ⟨word, -, rfl, hword⟩ := scanQuotedString_word hstring
      refine ⟨letter :: word, by simp, rfl, fun tail fuel' _ hfuel ↦ ?_⟩
      have hread := hword tail fuel' (Nat.le_of_lt hfuel)
      simp [scanToken, hquote, hread]
    · obtain ⟨⟨segments, rest⟩, hsegments, htoken⟩ := bind_eq_some_iff.mp hscan
      simp only [pure_def, Option.some.injEq, Prod.mk.injEq] at htoken
      obtain ⟨rfl, rfl⟩ := htoken
      obtain ⟨word, rfl, hword⟩ := scanPath_word hsegments
      refine ⟨letter :: word, by simp, rfl, fun tail fuel' htail hfuel ↦ ?_⟩
      have hread := hword tail fuel' htail hfuel
      rw [cons_append, scanToken, if_neg hquote, if_pos hpath, hread]
      rfl
    · obtain ⟨word, hne, htext, hword⟩ := scanNumber_word hscan
      refine ⟨word, hne, htext, fun tail fuel' htail _ ↦ ?_⟩
      obtain ⟨rest, rfl⟩ := hhead hne htext
      rw [cons_append, scanToken, if_neg hquote, if_neg hpath, if_pos hnumber,
        ← cons_append, hword tail htail]
    · obtain ⟨htext, hword⟩ := scanWord_word hscan
      have hne : (scanName (letter :: text)).1 ≠ [] := by
        simp [scanName, isNameCharacter, hname]
      refine ⟨_, hne, htext, fun tail fuel' htail _ ↦ ?_⟩
      obtain ⟨rest, hrest⟩ := hhead hne htext
      rw [hrest] at hword ⊢
      rw [cons_append, scanToken, if_neg hquote, if_neg hpath, if_neg hnumber, if_pos hname,
        ← cons_append, hword tail htail]
    · obtain ⟨word, hne, htext, hword⟩ := scanOperator_word hscan
      refine ⟨word, hne, htext, fun tail fuel' htail _ ↦ ?_⟩
      obtain ⟨rest, rfl⟩ := hhead hne htext
      rw [cons_append, scanToken, if_neg hquote, if_neg hpath, if_neg hnumber,
        if_neg hname, ← cons_append, hword tail (head_eq_of_ahead htail '=' rfl).mp]

end Tokens

end Bdp.Selector
