import Bdp.Admission.Numbers
import Bdp.Library.DigitOrder

/-!
# Exact decimals of schema numbers

The digit arithmetic that compares, adds and divides number lexemes without big integers: integers
are signed digit texts, a decimal is a coefficient without zeros at either end and an exponent. A
charge can only throw, so within the budget the functions return what they return here.
-/

namespace Bdp.Schema

open Admission JsonGrammar

section Integers

def strip : Text → Text
  | digit :: next :: rest => if digit = 48 then strip (next :: rest) else digit :: next :: rest
  | s => s

/-- The comparison of digit texts without leading zeros. -/
def magnitude (a b : Text) : ℤ :=
  if a.length = b.length then (if a = b then 0 else if a < b then -1 else 1)
  else if a.length < b.length then -1 else 1

def column (subtract : Bool) (x y carry : ℤ) : ℤ × ℤ :=
  let n := x + (if subtract then -y else y) + carry
  if subtract then (if n < 0 then (n + 10, -1) else (n, 0))
  else if 10 ≤ n then (n - 10, 1) else (n, 0)

/-- The columns from the last digits on; a digit that is missing counts zero. -/
def columns (subtract : Bool) : ℤ → Text → Text → Text
  | carry, [], [] => if carry = 1 then [49] else []
  | carry, x :: xs, [] =>
    let n := column subtract (x - 48) 0 carry
    columns subtract n.2 xs [] ++ Decimal.integerText n.1
  | carry, [], y :: ys =>
    let n := column subtract 0 (y - 48) carry
    columns subtract n.2 [] ys ++ Decimal.integerText n.1
  | carry, x :: xs, y :: ys =>
    let n := column subtract (x - 48) (y - 48) carry
    columns subtract n.2 xs ys ++ Decimal.integerText n.1

def unsignedAdd (a b : Text) (subtract : Bool) : Text :=
  strip (columns subtract 0 a.reverse b.reverse)

structure Signed where
  minus : Bool
  digits : Text
  deriving DecidableEq

def signed (s : Text) : Signed :=
  let minus := s.head? == some 45
  let digits := strip (if s.head? = some 45 ∨ s.head? = some 43 then s.tail else s)
  ⟨minus && digits != [48], digits⟩

def signText (minus : Bool) : Text := if minus then [45] else []

def addInteger (a b : Text) : Text :=
  let x := signed a
  let y := signed b
  let cmp := magnitude x.digits y.digits
  if x.minus = y.minus then signText x.minus ++ unsignedAdd x.digits y.digits false
  else if cmp = 0 then [48]
  else
    let larger := if 0 < cmp then x else y
    let smaller := if 0 < cmp then y else x
    signText larger.minus ++ unsignedAdd larger.digits smaller.digits true

def compareInteger (a b : Text) : ℤ :=
  let x := signed a
  let y := signed b
  if x.minus ≠ y.minus then (if x.minus then -1 else 1)
  else magnitude x.digits y.digits * (if x.minus then -1 else 1)

end Integers

section Decimals

structure Decimal where
  sourceCoefficientDigits : ℕ
  negative : Bool
  coefficient : Text
  exponent : Text
  deriving DecidableEq

/-- `DecimalLimitError` -/
inductive DecimalError where
  | limit
  deriving DecidableEq

/-- What follows the first unit that passes, or `absent`. -/
def restAfter (test : ℕ → Bool) (text absent : Text) : Text :=
  match text.dropWhile fun unit ↦ !test unit with
  | [] => absent
  | _ :: rest => rest

/-- The digits of a mantissa from the first that is no zero. -/
def sourceDigits (mantissa : Text) : ℕ :=
  mantissa.foldl
    (fun count c ↦ if c ≠ 46 ∧ (0 < count ∨ c ≠ 48) then count + 1 else count) 0

def decimal (literal : Text) (coefficientLimit : ℕ) : Except DecimalError Decimal :=
  let negative := literal.head? == some 45
  let text := if negative then literal.tail else literal
  let mantissa := text.takeWhile fun unit ↦ !isMarker unit
  let exp := restAfter isMarker text [48]
  let fraction := restAfter (· == 46) mantissa []
  let sourceCoefficientDigits := max 1 (sourceDigits mantissa)
  if coefficientLimit < sourceCoefficientDigits then .error .limit
  else
    let coefficient := strip (mantissa.erase 46)
    let exponent := addInteger exp (Decimal.integerText (-fraction.length))
    if coefficient = [48] then .ok ⟨sourceCoefficientDigits, false, [48], [48]⟩
    else
      let trailing := Decimal.trailingZeros coefficient
      .ok ⟨sourceCoefficientDigits, negative, coefficient.take (coefficient.length - trailing),
        addInteger exponent (Decimal.integerText trailing)⟩

/-- The first digits that differ decide; a digit that is missing counts zero. -/
def compareDigits : Text → Text → ℤ
  | [], [] => 0
  | x :: xs, [] => if x ≠ 48 then (if x < 48 then -1 else 1) else compareDigits xs []
  | [], y :: ys => if 48 ≠ y then (if 48 < y then -1 else 1) else compareDigits [] ys
  | x :: xs, y :: ys => if x ≠ y then (if x < y then -1 else 1) else compareDigits xs ys

def compareDecimal (a b : Decimal) : ℤ :=
  if a.coefficient = [48] ∨ b.coefficient = [48] then
    if a.coefficient = b.coefficient then 0
    else if a.coefficient = [48] then (if b.negative then 1 else -1)
    else if a.negative then -1 else 1
  else if a.negative ≠ b.negative then (if a.negative then -1 else 1)
  else
    let cmp := compareInteger
      (addInteger a.exponent (Decimal.integerText a.coefficient.length))
      (addInteger b.exponent (Decimal.integerText b.coefficient.length))
    (if cmp = 0 then compareDigits a.coefficient b.coefficient else cmp) *
      (if a.negative then -1 else 1)

def isInteger (a : Decimal) : Bool :=
  decide (a.coefficient = [48]) || decide (0 ≤ compareInteger a.exponent [48])

end Decimals

section Division

/-- The quotient digits of a long division that starts with a remainder. -/
def divideFrom (n : ℕ) : ℕ → Text → Text
  | _, [] => []
  | remainder, digit :: rest =>
    let value := remainder * 10 + (digit - 48)
    Decimal.digitsOf (value / n) ++ divideFrom n (value % n) rest

def divideSmall (a : Text) (n : ℕ) : Text := strip (divideFrom n 0 a)

structure Factors where
  rest : Text
  two : ℕ
  five : ℕ

def endsEven (a : Text) : Bool :=
  match a.getLast? with
  | some digit => (digit - 48) % 2 == 0
  | none => false

def endsFive (a : Text) : Bool := a.getLast? == some 53

def divideCounted (n : ℕ) (state : Text × ℕ) : Text × ℕ := (divideSmall state.1 n, state.2 + 1)

/-- The factors two and five taken off; the value bounds the number of divisions. -/
def factor (a : Text) : Option Factors := do
  let byTwo ← runWhile (fun state ↦ endsEven state.1) (divideCounted 2) (Decimal.value a) (a, 0)
  let byFive ← runWhile (fun state ↦ endsFive state.1) (divideCounted 5) (Decimal.value byTwo.1)
    (byTwo.1, 0)
  return ⟨byFive.1, byTwo.2, byFive.2⟩

/-- The subtractions of one digit of a division. -/
def reduce (remainder b : Text) : Option Text :=
  runWhile (fun remainder ↦ decide (0 ≤ magnitude remainder b))
    (fun remainder ↦ unsignedAdd remainder b true) (Decimal.value remainder) remainder

def divisibleFrom (b : Text) : Text → Text → Option Bool
  | remainder, [] => some (decide (remainder = [48]))
  | remainder, digit :: rest => do
    let reduced ← reduce (strip (if remainder = [48] then [digit] else remainder ++ [digit])) b
    divisibleFrom b reduced rest

def divisible (a b : Text) : Option Bool :=
  if b = [49] then some true else divisibleFrom b [48] a

/-- Whether one decimal is an integer multiple of another; none for a loop that does not end. -/
def multipleOf (a b : Decimal) : Option (Except String Bool) :=
  if b.negative ∨ b.coefficient = [48] then some (.error "nonpositive divisor")
  else if a.coefficient = [48] then some (.ok true)
  else do
    let x ← factor a.coefficient
    let y ← factor b.coefficient
    let d := addInteger a.exponent
      (if b.exponent.head? = some 45 then b.exponent.tail else 45 :: b.exponent)
    if 0 ≤ compareInteger (addInteger d (Decimal.integerText (x.two - y.two))) [48] ∧
        0 ≤ compareInteger (addInteger d (Decimal.integerText (x.five - y.five))) [48] then
      let answer ← divisible x.rest y.rest
      return .ok answer
    else return .ok false

end Division

end Bdp.Schema
