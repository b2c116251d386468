import Mathlib

/-!
# Positions and resume tokens

The texts that name a point of the transaction log: scope positions, event identities, which are
also event cursors, and changefeed checkpoints. Every token that the store renders is read back as
the point it names.
-/

namespace Bdp.Transaction

def maxSafeInteger : ℕ := 9007199254740991

def isTokenChar (letter : Char) : Bool :=
  letter.isAlphanum || letter == '_' || letter == '-'

/-- The digest of a list of texts, written in the URL alphabet. -/
structure Digest where
  digest : List String → List Char
  length_digest : ∀ values, (digest values).length = 43
  alphabet : ∀ values, ∀ letter ∈ digest values, isTokenChar letter = true

/-- What an owner observation says about the store it was made in. -/
structure TransactionReadContext where
  scopeEpoch : String
  authorizationView : String
  scopePosition : ℕ
  deriving DecidableEq, Repr

/-- A decimal numeral without leading zeros. -/
def readDecimal (text : List Char) : Option ℕ :=
  let value := Nat.ofDigitChars 10 text 0
  if Nat.toDigits 10 value = text then some value else none

@[simp]
theorem readDecimal_toDigits (value : ℕ) : readDecimal (Nat.toDigits 10 value) = some value := by
  simp [readDecimal, Nat.ofDigitChars_ten_toDigits]

def stripPrefix : (front text : List Char) → Option (List Char)
  | [], text => some text
  | letter :: front, other :: text => if letter = other then stripPrefix front text else none
  | _ :: _, [] => none

@[simp]
theorem stripPrefix_append (front text : List Char) :
    stripPrefix front (front ++ text) = some text := by
  induction front with
  | nil => rfl
  | cons letter front ih => simp [stripPrefix, ih]

def readDigest (text : List Char) : Option (List Char × List Char) :=
  let front := text.take 43
  if front.length = 43 ∧ ∀ letter ∈ front, isTokenChar letter = true then some (front, text.drop 43)
  else none

variable (tags : Digest)

theorem readDigest_append (values : List String) (rest : List Char) :
    readDigest (tags.digest values ++ rest) = some (tags.digest values, rest) := by
  have length := tags.length_digest values
  have front : (tags.digest values ++ rest).take 43 = tags.digest values := List.take_left' length
  have back : (tags.digest values ++ rest).drop 43 = rest := List.drop_left' length
  simp only [readDigest, front, back]
  rw [if_pos ⟨length, tags.alphabet values⟩]

/-- Split at the first underscore, which is dropped. -/
def splitUnderscore (text : List Char) : List Char × List Char :=
  (text.takeWhile (· != '_'), (text.dropWhile (· != '_')).drop 1)

theorem splitUnderscore_append {front : List Char} (h : '_' ∉ front) (back : List Char) :
    splitUnderscore (front ++ '_' :: back) = (front, back) := by
  have plain : ∀ letter ∈ front, (letter != '_') = true := by
    intro letter member
    simp only [bne_iff_ne, ne_eq]
    intro same
    exact h (same ▸ member)
  unfold splitUnderscore
  rw [List.takeWhile_append_of_pos plain, List.dropWhile_append_of_pos plain]
  simp

variable {value : ℕ}

section Positions

/-- `pos-` and a safe decimal. -/
def renderPosition (value : ℕ) : List Char := ['p', 'o', 's', '-'] ++ Nat.toDigits 10 value

def readSafe (text : List Char) : Option ℕ :=
  (readDecimal text).bind fun value ↦ if value ≤ maxSafeInteger then some value else none

theorem readSafe_toDigits (h : value ≤ maxSafeInteger) :
    readSafe (Nat.toDigits 10 value) = some value := by
  simp [readSafe, h]

/-- The position that a minimum names, or nothing for a text of another form. -/
def readPosition (text : String) : Option ℕ :=
  if text = "genesis" then some 0
  else (stripPrefix ['p', 'o', 's', '-'] text.toList).bind readSafe

end Positions

variable {position : ℕ}

section EventCursors

structure EventCursor where
  position : ℕ
  ordinal : ℕ
  epoch : List Char
  view : List Char
  source : List Char
  deriving DecidableEq, Repr

/-- The identity of an event in a source, which is also the cursor behind it. -/
def renderEventId (tags : Digest) (context : TransactionReadContext) (source : String)
    (position ordinal : ℕ) : String :=
  String.ofList (['e', 'v', '_'] ++ (tags.digest ["epoch", context.scopeEpoch] ++ ('_' ::
    (tags.digest ["view", context.authorizationView] ++ ('_' ::
      (tags.digest ["source", source] ++ ('_' ::
        (renderPosition position ++ ('_' :: Nat.toDigits 10 ordinal)))))))))

def readCursorFields (text : List Char) : Option EventCursor := do
  let text ← stripPrefix ['e', 'v', '_'] text
  let (epoch, text) ← readDigest text
  let text ← stripPrefix ['_'] text
  let (view, text) ← readDigest text
  let text ← stripPrefix ['_'] text
  let (source, text) ← readDigest text
  let text ← stripPrefix ['_', 'p', 'o', 's', '-'] text
  let (positionText, ordinalText) := splitUnderscore text
  let position ← readSafe positionText
  let ordinal ← readSafe ordinalText
  if 1 ≤ position then some { position, ordinal, epoch, view, source } else none

def parseTransactionEventCursor (value : String) : Option EventCursor :=
  if value.length ≤ 256 then readCursorFields value.toList else none

theorem length_toDigits_safe (h : value ≤ maxSafeInteger) :
    (Nat.toDigits 10 value).length ≤ 16 := by
  rw [Nat.length_toDigits_le_iff (by decide) (by decide)]
  unfold maxSafeInteger at h
  omega

theorem parse_renderEventId (context : TransactionReadContext) (source : String)
    {ordinal : ℕ} (pos : 1 ≤ position) (safe : position ≤ maxSafeInteger)
    (ordinal_safe : ordinal ≤ maxSafeInteger) :
    parseTransactionEventCursor (renderEventId tags context source position ordinal) =
      some { position, ordinal, epoch := tags.digest ["epoch", context.scopeEpoch]
             view := tags.digest ["view", context.authorizationView]
             source := tags.digest ["source", source] } := by
  have fields : readCursorFields (renderEventId tags context source position ordinal).toList =
      some { position, ordinal, epoch := tags.digest ["epoch", context.scopeEpoch]
             view := tags.digest ["view", context.authorizationView]
             source := tags.digest ["source", source] } := by
    have digits : '_' ∉ Nat.toDigits 10 position := Nat.underscore_not_in_toDigits
    have split := splitUnderscore_append digits (Nat.toDigits 10 ordinal)
    have under (rest : List Char) : stripPrefix ['_'] ('_' :: rest) = some rest :=
      stripPrefix_append ['_'] rest
    have before (rest : List Char) :
        stripPrefix ['_', 'p', 'o', 's', '-'] ('_' :: (['p', 'o', 's', '-'] ++ rest)) = some rest :=
      stripPrefix_append ['_', 'p', 'o', 's', '-'] rest
    have first (rest : List Char) : stripPrefix ['e', 'v', '_'] (['e', 'v', '_'] ++ rest) = some rest :=
      stripPrefix_append ['e', 'v', '_'] rest
    unfold renderEventId readCursorFields renderPosition
    simp only [String.toList_ofList, first, Option.bind_eq_bind, Option.bind_some,
      readDigest_append, under, List.append_assoc, before, split, readSafe_toDigits safe, readSafe_toDigits ordinal_safe, if_pos pos]
  have short : (renderEventId tags context source position ordinal).length ≤ 256 := by
    have position_length := length_toDigits_safe safe
    have ordinal_length := length_toDigits_safe ordinal_safe
    unfold renderEventId renderPosition
    simp only [String.length_ofList, List.length_append, List.length_cons, List.length_nil,
      tags.length_digest]
    omega
  rw [parseTransactionEventCursor, if_pos short, fields]

end EventCursors

section Checkpoints

def genesis : String := "genesis"

/-- The checkpoint behind the group at a position. -/
def transactionCheckpoint (tags : Digest) (scope : String) (context : TransactionReadContext)
    (position : ℕ) : String :=
  if position = 0 then genesis
  else String.ofList (['c', 'g', '_'] ++ (tags.digest ["epoch", scope, context.scopeEpoch] ++ ('_' ::
    (tags.digest ["view", scope, context.scopeEpoch, context.authorizationView] ++ ('_' ::
      Nat.toDigits 10 position)))))

structure Checkpoint where
  position : ℕ
  epoch : List Char
  view : List Char
  deriving DecidableEq, Repr

def readCheckpointFields (text : List Char) : Option Checkpoint := do
  let text ← stripPrefix ['c', 'g', '_'] text
  let (epoch, text) ← readDigest text
  let text ← stripPrefix ['_'] text
  let (view, text) ← readDigest text
  let text ← stripPrefix ['_'] text
  let position ← readSafe text
  if 1 ≤ position then some { position, epoch, view } else none

/-- The genesis checkpoint is at position zero and carries no tags. -/
def parseCheckpoint (value : String) : Option (Option Checkpoint) :=
  if value = genesis then some none
  else if value.length ≤ 256 then (readCheckpointFields value.toList).map some else none

theorem parse_transactionCheckpoint (scope : String)
    (context : TransactionReadContext) (pos : 1 ≤ position) (safe : position ≤ maxSafeInteger) :
    parseCheckpoint (transactionCheckpoint tags scope context position) =
      some (some { position, epoch := tags.digest ["epoch", scope, context.scopeEpoch]
                   view := tags.digest
                     ["view", scope, context.scopeEpoch, context.authorizationView] }) := by
  have nonzero : position ≠ 0 := by omega
  have under (rest : List Char) : stripPrefix ['_'] ('_' :: rest) = some rest :=
    stripPrefix_append ['_'] rest
  generalize rendered : transactionCheckpoint tags scope context position = text
  rw [transactionCheckpoint, if_neg nonzero] at rendered
  have fields : readCheckpointFields text.toList =
      some { position, epoch := tags.digest ["epoch", scope, context.scopeEpoch]
             view := tags.digest
               ["view", scope, context.scopeEpoch, context.authorizationView] } := by
    unfold readCheckpointFields
    rw [← rendered, String.toList_ofList, stripPrefix_append]
    simp only [Option.bind_eq_bind, Option.bind_some, readDigest_append, under,
      readSafe_toDigits safe, if_pos pos]
  have short : text.length ≤ 256 := by
    have position_length := length_toDigits_safe safe
    rw [← rendered]
    simp only [String.length_ofList, List.length_append, List.length_cons, List.length_nil,
      tags.length_digest]
    omega
  have other : text ≠ genesis := by
    intro same
    have heads := congrArg (fun text ↦ text.toList.head?) (rendered.trans same)
    simp [genesis] at heads
  rw [parseCheckpoint, if_neg other, if_pos short, fields]
  rfl

end Checkpoints

end Bdp.Transaction
