/-!
# The shortest decimal text of a binary number

Every decimal strictly inside a certain interval around a binary number reads
back as that number; the ends of the interval do so when the number's
significand is even. The text written for a number has the fewest significant
digits that reach the interval, of two such decimals the nearer one, and the
larger one when both are equally near. It is always written without an exponent.
-/

namespace FontCompiler

/-- A positive number `value / scale` together with the interval that reads back as it. -/
structure RoundingInterval where
  low : Nat
  value : Nat
  high : Nat
  scale : Nat
  closed : Bool
  deriving Repr

/-- A decimal number `digits * 10 ^ exponent`. -/
structure Decimal where
  digits : Nat
  exponent : Int
  deriving DecidableEq, Repr

/-- The number of decimal digits, none for zero. -/
def decimalWidth (number : Nat) : Nat :=
  if number = 0 then 0 else decimalWidth (number / 10) + 1
termination_by number

namespace RoundingInterval

/-- The least power of ten that is larger than the value. -/
def magnitude (interval : RoundingInterval) : Int :=
  if interval.scale ≤ interval.value then decimalWidth (interval.value / interval.scale)
  else
    let inverse := (interval.scale + interval.value - 1) / interval.value
    1 - (decimalWidth (inverse - 1) : Int)

/-- Whether a numerator over a common denominator lies in the interval. -/
def holds (interval : RoundingInterval) (factor : Nat) (point : Nat) : Bool :=
  if interval.closed then
    decide (interval.low * factor ≤ point) && decide (point ≤ interval.high * factor)
  else decide (interval.low * factor < point) && decide (point < interval.high * factor)

/-- The best multiple of `10 ^ exponent` in the interval, among the value's two neighbours. -/
def onGrid? (interval : RoundingInterval) (exponent : Int) : Option Nat :=
  let factor := Nat.pow 10 (-exponent).toNat
  let step := interval.scale * Nat.pow 10 exponent.toNat
  let target := interval.value * factor
  let below := target / step
  let lower := below * step
  let upper := (below + 1) * step
  match interval.holds factor lower, interval.holds factor upper with
  | true, true => some (if target - lower < upper - target then below else below + 1)
  | true, false => some below
  | false, true => some (below + 1)
  | false, false => none

/-- Try ever finer grids until one reaches the interval. -/
def search (interval : RoundingInterval) (exponent : Int) : Nat → Decimal
  | 0 =>
      ⟨interval.value * Nat.pow 10 (-exponent).toNat / (interval.scale * Nat.pow 10 exponent.toNat),
        exponent⟩
  | attempts + 1 =>
      match interval.onGrid? exponent with
      | some digits => ⟨digits, exponent⟩
      | none => search interval (exponent - 1) attempts

/-- The shortest decimal in the interval; seventeen digits always reach it. -/
def shortest (interval : RoundingInterval) : Decimal :=
  search interval (interval.magnitude - 1) 17

end RoundingInterval

namespace Decimal

/-- Move factors of ten from the digits to the exponent. -/
def trim (number : Decimal) : Decimal :=
  if number.digits ≠ 0 ∧ number.digits % 10 = 0 then
    trim ⟨number.digits / 10, number.exponent + 1⟩
  else number
termination_by number.digits
decreasing_by omega

/-- The digits with a point where it belongs and zeros wherever a place is empty. -/
def positional (number : Decimal) : String :=
  let trimmed := number.trim
  let digits := (Nat.toDigits 10 trimmed.digits)
  if 0 ≤ trimmed.exponent then
    String.ofList (digits ++ List.replicate trimmed.exponent.toNat '0')
  else
    let places := (-trimmed.exponent).toNat
    if digits.length ≤ places then
      String.ofList ('0' :: '.' :: (List.replicate (places - digits.length) '0' ++ digits))
    else
      String.ofList (digits.take (digits.length - places) ++
        '.' :: digits.drop (digits.length - places))

end Decimal

/-- The interval around `significand * 2 ^ exponent`. Below a power of two the
numbers lie twice as close, so the interval then reaches only half as far down. -/
def RoundingInterval.around (significand : Nat) (exponent : Int) (narrowBelow : Bool) :
    RoundingInterval :=
  let unit := Nat.pow 2 (exponent - 2).toNat
  ⟨(4 * significand - if narrowBelow then 1 else 2) * unit, 4 * significand * unit,
    (4 * significand + 2) * unit, Nat.pow 2 (2 - exponent).toNat, significand % 2 == 0⟩

end FontCompiler
