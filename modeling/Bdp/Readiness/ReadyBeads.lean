import Bdp.Library.CodeUnits
import Bdp.Library.Json

/-!
# Ready Beads of a set of records

A Bead is ready when it is open and every one of its outbound blocking Links resolves to a closed
record. Ready Beads are sorted by priority, then by the newest creation, then by identity.
-/

namespace Bdp.Readiness

/-- What readiness reads of a Bead besides its Links. -/
structure Facts where
  id : Text
  properties : List (String × JsonValue ℚ)

structure Reference where
  uri : Text
  revision : Option Text

structure LinkRecord where
  id : Text
  type : Text
  source : Reference
  target : Reference

structure BeadRecord extends Facts where
  links : Option (List LinkRecord)

structure ReadyBead where
  bead : BeadRecord
  blockers : List BeadRecord

def referenceUri (reference : Reference) : Text := reference.uri

section Properties

def readProperty (facts : Facts) (key : String) : Option (JsonValue ℚ) :=
  (facts.properties.find? fun member ↦ member.1 = key).map Prod.snd

def readPropertyString (facts : Facts) (key : String) : Option String :=
  match readProperty facts key with
  | some (.string value) => some value
  | _ => none

def readPropertyNumber (facts : Facts) (key : String) : Option ℚ :=
  match readProperty facts key with
  | some (.number value) => some value
  | _ => none

def digitsValue (digits : List Char) : ℕ :=
  digits.foldl (fun value digit ↦ 10 * value + (digit.toNat - '0'.toNat)) 0

def digitsAt (letters : List Char) (start count : ℕ) : Option ℕ :=
  let part := (letters.drop start).take count
  if part.length = count ∧ part.all Char.isDigit then
    some (digitsValue part)
  else none

/-- The milliseconds that `Date.parse` reads of the digits of a fraction: it keeps nine digits
behind the leading zeros, and counts at most nine with them. -/
def readMilliseconds (digits : List Char) : ℕ :=
  let number := digitsValue ((digits.dropWhile fun digit ↦ digit = '0').take 9)
  let length := min digits.length 9
  number * 10 ^ (3 - length) / 10 ^ (length - 3)

/-- `(?:\.\d+)?Z`, in milliseconds. -/
def fraction : List Char → Option ℕ
  | ['Z'] => some 0
  | '.' :: rest =>
    let digits := rest.dropLast
    if rest.getLast? = some 'Z' ∧ digits ≠ [] ∧ digits.all Char.isDigit then
      some (readMilliseconds digits)
    else none
  | _ => none

example : readMilliseconds ['0', '1', '2', '3', '4', '5', '6', '7', '8', '9'] = 123 := by decide

def isLeap (year : ℕ) : Bool := year % 4 = 0 ∧ (year % 100 ≠ 0 ∨ year % 400 = 0)

def daysInMonth (year month : ℕ) : ℕ :=
  if month = 2 then (if isLeap year then 29 else 28)
  else if month = 4 ∨ month = 6 ∨ month = 9 ∨ month = 11 then 30
  else 31

/-- Days from the epoch to a date of the proleptic Gregorian calendar. -/
def daysFromEpoch (year month day : ℕ) : ℤ :=
  let before : ℤ := year - 1
  365 * before + before / 4 - before / 100 + before / 400 - 719162 +
    ((List.range (month - 1)).map fun earlier ↦ daysInMonth year (earlier + 1)).sum + day - 1

/-- A UTC timestamp in milliseconds. A date that the calendar lacks is refused, as its normal form
differs from it. -/
def parseTimestamp (letters : List Char) : Option ℤ := do
  let year ← digitsAt letters 0 4
  let month ← digitsAt letters 5 2
  let day ← digitsAt letters 8 2
  let hour ← digitsAt letters 11 2
  let minute ← digitsAt letters 14 2
  let second ← digitsAt letters 17 2
  let milliseconds ← fraction (letters.drop 19)
  guard (letters[4]? = some '-' ∧ letters[7]? = some '-' ∧ letters[10]? = some 'T' ∧
    letters[13]? = some ':' ∧ letters[16]? = some ':')
  guard (1 ≤ month ∧ month ≤ 12 ∧ 1 ≤ day ∧ day ≤ daysInMonth year month ∧ hour ≤ 23 ∧
    minute ≤ 59 ∧ second ≤ 59)
  return 1000 * (60 * (60 * (24 * daysFromEpoch year month day + hour) + minute) + second) +
    milliseconds

def readPropertyTimestamp (facts : Facts) (key : String) : Option ℚ :=
  (readPropertyString facts key).bind fun value ↦
    (parseTimestamp value.toList).map fun timestamp ↦ (timestamp : ℚ)

end Properties

section Order

def compareOptionalNumbers (left right : Option ℚ) : ℚ :=
  match left, right with
  | none, none => 0
  | none, some _ => 1
  | some _, none => -1
  | some left, some right => left - right

def compareReadyBeads (left right : Facts) : ℚ :=
  let priorityOrder := compareOptionalNumbers (readPropertyNumber left "priority")
    (readPropertyNumber right "priority")
  let creationOrder := compareOptionalNumbers (readPropertyTimestamp right "created_at")
    (readPropertyTimestamp left "created_at")
  if priorityOrder ≠ 0 then priorityOrder
  else if creationOrder ≠ 0 then creationOrder
  else if left.id < right.id then -1
  else if right.id < left.id then 1
  else 0

/-- The order by which ready Beads are sorted. -/
def SortsBefore (left right : ReadyBead) : Prop :=
  compareReadyBeads left.bead.toFacts right.bead.toFacts ≤ 0

instance : DecidableRel SortsBefore := fun left right ↦
  inferInstanceAs (Decidable (compareReadyBeads left.bead.toFacts right.bead.toFacts ≤ 0))

/-- A place of its own for a missing value, above every value. -/
def orTop : Option ℚ → WithTop ℚ
  | none => ⊤
  | some value => value

/-- The rank of a Bead: its priority, where a missing one is last, its creation, where a newer one
is earlier and a missing one first, and its identity. -/
def rank (facts : Facts) : WithTop ℚ ×ₗ (WithTop ℚ)ᵒᵈ ×ₗ Text :=
  toLex (orTop (readPropertyNumber facts "priority"),
    toLex (OrderDual.toDual (orTop (readPropertyTimestamp facts "created_at")), facts.id))

theorem compareOptionalNumbers_neg (left right : Option ℚ) :
    compareOptionalNumbers left right < 0 ↔ orTop left < orTop right := by
  cases left with
  | none => cases right <;> simp [compareOptionalNumbers, orTop]
  | some left =>
    cases right with
    | none => simp [compareOptionalNumbers, orTop]
    | some right => simp [compareOptionalNumbers, orTop]

theorem compareOptionalNumbers_eq_zero (left right : Option ℚ) :
    compareOptionalNumbers left right = 0 ↔ orTop left = orTop right := by
  cases left with
  | none => cases right <;> simp [compareOptionalNumbers, orTop]
  | some left =>
    cases right with
    | none => simp [compareOptionalNumbers, orTop]
    | some right => simp [compareOptionalNumbers, orTop, sub_eq_zero]

variable {right left : Facts}

theorem compareReadyBeads_nonpos : compareReadyBeads left right ≤ 0 ↔ rank left ≤ rank right := by
  have hpriority := compareOptionalNumbers_eq_zero (readPropertyNumber left "priority")
    (readPropertyNumber right "priority")
  have hearlier := compareOptionalNumbers_neg (readPropertyNumber left "priority")
    (readPropertyNumber right "priority")
  have hcreation := compareOptionalNumbers_eq_zero (readPropertyTimestamp right "created_at")
    (readPropertyTimestamp left "created_at")
  have hnewer := compareOptionalNumbers_neg (readPropertyTimestamp right "created_at")
    (readPropertyTimestamp left "created_at")
  rw [rank, rank, Prod.Lex.toLex_le_toLex, Prod.Lex.toLex_le_toLex, OrderDual.toDual_lt_toDual,
    OrderDual.toDual_inj, ← hearlier, ← hpriority, ← hnewer,
    eq_comm (a := orTop (readPropertyTimestamp left "created_at")), ← hcreation, compareReadyBeads]
  split
  · next hne => simp [hne, le_iff_lt_or_eq]
  split
  · next heq hne => simp [not_not.mp heq, hne, le_iff_lt_or_eq]
  next heq heq' =>
  rw [not_not.mp heq, not_not.mp heq']
  by_cases hlt : left.id < right.id
  · simp [hlt, hlt.le]
  by_cases hgt : right.id < left.id
  · have hone : ¬ (1 : ℚ) ≤ 0 := by decide
    simp [hlt, hgt, not_le.mpr hgt, hone]
  · simp [hlt, hgt, not_lt.mp hgt]

def Precedes (left right : Facts) : Prop := rank left ≤ rank right

instance : DecidableRel Precedes := fun left right ↦
  inferInstanceAs (Decidable (rank left ≤ rank right))

instance : IsTrans Facts Precedes := ⟨fun _ _ _ h h' ↦ le_trans h h'⟩

instance : Std.Total Precedes := ⟨fun left right ↦ le_total (rank left) (rank right)⟩

theorem sortsBefore_iff {left right : ReadyBead} :
    SortsBefore left right ↔ Precedes left.bead.toFacts right.bead.toFacts :=
  compareReadyBeads_nonpos

instance : IsTrans ReadyBead SortsBefore := ⟨fun _ _ _ h h' ↦
  sortsBefore_iff.mpr (IsTrans.trans _ _ _ (sortsBefore_iff.mp h) (sortsBefore_iff.mp h'))⟩

instance : Std.Total SortsBefore := ⟨fun left right ↦
  (Std.Total.total left.bead.toFacts right.bead.toFacts).imp
    sortsBefore_iff.mpr sortsBefore_iff.mpr⟩

theorem rank_injective_id (h : rank left = rank right) : left.id = right.id := by
  have hsecond := congrArg (fun value ↦ (ofLex (ofLex value).2).2) h
  exact hsecond

end Order

section Records

def isReadyBead (bead : BeadRecord) (blockers : List BeadRecord) : Bool :=
  decide (readPropertyString bead.toFacts "status" = some "open") &&
    blockers.all fun blocker ↦
      decide (readPropertyString blocker.toFacts "status" = some "closed")

/-- The record of an identity; of several, the last. -/
def beadById (beads : List BeadRecord) (id : Text) : Option BeadRecord :=
  beads.reverse.find? fun bead ↦ bead.id = id

def blockingLinks (blockingLinkType : Text) (bead : BeadRecord) : List LinkRecord :=
  (bead.links.getD []).filter fun link ↦
    link.type = blockingLinkType ∧ referenceUri link.source = bead.id

/-- The entry of a Bead that is ready among the records. -/
def readyBead (blockingLinkType : Text) (beads : List BeadRecord) (bead : BeadRecord) :
    Option ReadyBead :=
  let links := blockingLinks blockingLinkType bead
  let resolvedBlockers := links.filterMap fun link ↦ beadById beads (referenceUri link.target)
  if resolvedBlockers.length = links.length ∧ isReadyBead bead resolvedBlockers then
    some ⟨bead, resolvedBlockers⟩
  else none

def readyBeadsFromRecords (blockingLinkType : Text) (beads : List BeadRecord) : List ReadyBead :=
  (beads.filterMap (readyBead blockingLinkType beads)).insertionSort SortsBefore

end Records

end Bdp.Readiness
