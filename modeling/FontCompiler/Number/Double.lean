import FontCompiler.Number.Coordinate
import FontCompiler.Number.Shortest

/-!
# Double-precision numbers

A double is its 64 bits. Many patterns of bits are no number, and arithmetic does
not tell them apart, but the order of doubles does: it puts those with a sign
below all numbers and those without above.
-/

namespace FontCompiler

/-- A double-precision number, given by its bits. -/
structure Double where
  bits : UInt64
  deriving DecidableEq, Repr

namespace Double

/-- What arithmetic sees of a double, the same for every pattern that is no number. -/
def value (number : Double) : Float := Float.ofBits number.bits

def ofValue (value : Float) : Double := ⟨value.toBits⟩

/-- The rational number that a double stands for, if it is finite. -/
def rational? (number : Double) : Option Rat :=
  match number.value.toModel.unpack with
  | .finite sign mantissa exponent _ =>
      let significand : Int := sign.apply mantissa
      some (if 0 ≤ exponent then (significand * Nat.pow 2 exponent.toNat : Int)
        else mkRat significand (Nat.pow 2 (-exponent).toNat))
  | .zero _ => some 0
  | .infinity _ => none
  | .notANumber => none

/-- The nearest whole number, a half going away from zero; the sign stays also at zero. -/
def roundAway (number : Double) : Double :=
  match number.rational? with
  | none => ofValue number.value
  | some exact =>
      if exact.den = 1 then number
      else if exact < 0 then ofValue (-Float.ofInt (-exact + 1 / 2).floor)
      else ofValue (Float.ofInt (exact + 1 / 2).floor)

def floor (number : Double) : Double :=
  match number.rational? with
  | none => ofValue number.value
  | some exact => if exact.den = 1 then number else ofValue (Float.ofInt exact.floor)

/-- The whole part, clamped to 64 bits. -/
def truncate (number : Double) : Int :=
  match number.rational? with
  | some exact => clampWord 64 (exact.num.tdiv exact.den)
  | none =>
      if number.value.isNaN then 0
      else if number.value < 0.0 then -Nat.pow 2 63
      else Nat.pow 2 63 - 1

/-- The bits as an integer that grows with the number. Negative zero lies below zero. -/
def rank (number : Double) : Int :=
  let signBit := Nat.pow 2 63
  if number.bits.toNat < signBit then number.bits.toNat
  else signBit - 1 - (number.bits.toNat : Int)

/-- The double nearest to a literal; ties go to the even neighbour. -/
def ofLiteral : Literal → Double
  | .finite negative digits exponent =>
      let width := decimalWidth digits
      let magnitude : Float :=
        if digits = 0 ∨ (width : Int) + exponent < -330 then 0.0
        else if 310 < (width : Int) + exponent then 1.0 / 0.0
        else if 0 ≤ exponent then Float.ofScientific digits false exponent.toNat
        else Float.ofScientific digits true (-exponent).toNat
      ofValue (if negative then -magnitude else magnitude)
  | .infinite negative => ofValue (if negative then -(1.0 / 0.0) else 1.0 / 0.0)
  | .notNumber => ofValue (0.0 / 0.0)

/-- The shortest text that reads back as the number; all that is no number is written alike. -/
def text (number : Double) : String :=
  let bits := number.bits.toNat
  let sign := if bits / Nat.pow 2 63 = 1 then "-" else ""
  let biased : Nat := bits / Nat.pow 2 52 % Nat.pow 2 11
  let fraction := bits % Nat.pow 2 52
  if biased = Nat.pow 2 11 - 1 then if fraction = 0 then sign ++ "inf" else "NaN"
  else if biased = 0 ∧ fraction = 0 then sign ++ "0"
  else
    let interval :=
      if biased = 0 then RoundingInterval.around fraction (-1074) false
      else RoundingInterval.around (Nat.pow 2 52 + fraction) ((biased : Int) - 1075)
        (decide (fraction = 0) && decide (1 < biased))
    sign ++ interval.shortest.positional

end Double

instance : Coordinate Double where
  add first second := .ofValue (first.value + second.value)
  sub first second := .ofValue (first.value - second.value)
  mul first second := .ofValue (first.value * second.value)
  div first second := .ofValue (first.value / second.value)
  ofInt number := .ofValue (Float.ofInt number)
  floor := Double.floor
  roundAway := Double.roundAway
  truncate := Double.truncate
  isWhole number := number.rational?.any fun exact => exact.den == 1
  atMost first second := first.value ≤ second.value
  equals first second := first.value == second.value
  order := compareOn Double.rank
  order_trans := inferInstance
  ofLiteral? literal := some (.ofLiteral literal)

instance : DecimalText Double where
  text := Double.text

end FontCompiler
