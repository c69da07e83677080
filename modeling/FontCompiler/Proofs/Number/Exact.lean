import Mathlib.Data.Rat.Floor
import FontCompiler.Number.Coordinate

/-!
# Arithmetic without rounding error

The arithmetic of coordinates may round, but a result that is an integer of at
most 53 bits is left alone. Such arithmetic is called exact here. Every finite
number stands for a rational number.
-/

namespace FontCompiler

/-- An integer of at most 53 bits and its negative. -/
def IsSmall (number : Int) : Prop := number.natAbs < 2 ^ 53

/-- Arithmetic that does not round where the result is a small integer. -/
class ExactArithmetic (α : Type) [Coordinate α] where
  /-- The rational number that a finite number stands for. -/
  rational? : α → Option Rat
  rational?_ofInt {number : Int} (small : IsSmall number) :
    rational? (Coordinate.ofInt number) = some (number : Rat)
  rational?_mul_ofInt {number : α} {value : Rat} {factor product : Int}
    (named : rational? number = some value) (factorSmall : IsSmall factor)
    (whole : value * factor = product) (small : IsSmall product) :
    rational? (number * Coordinate.ofInt factor) = some (product : Rat)
  rational?_roundAway {number : α} {value : Int} (named : rational? number = some (value : Rat))
    (small : IsSmall value) : rational? (Coordinate.roundAway number) = some (value : Rat)
  truncate_eq {number : α} {value : Int} (named : rational? number = some (value : Rat))
    (small : IsSmall value) : Coordinate.truncate number = value
  den_of_isWhole {number : α} {value : Rat} (named : rational? number = some value)
    (whole : Coordinate.isWhole number = true) : value.den = 1
  ofInt_add {first second : Int} (firstSmall : IsSmall first) (secondSmall : IsSmall second)
    (small : IsSmall (first + second)) :
    Coordinate.ofInt first + Coordinate.ofInt second = (Coordinate.ofInt (first + second) : α)
  ofInt_sub {first second : Int} (firstSmall : IsSmall first) (secondSmall : IsSmall second)
    (small : IsSmall (first - second)) :
    Coordinate.ofInt first - Coordinate.ofInt second = (Coordinate.ofInt (first - second) : α)
  ofLiteral?_integer {number : Int} (small : IsSmall number) :
    Coordinate.ofLiteral? (.finite (decide (number < 0)) number.natAbs 0) =
      some (Coordinate.ofInt number : α)

/-- A number in the range of a signed word is not clamped. -/
theorem clampWord_eq {bits : Nat} {number : Int} (low : -2 ^ (bits - 1) ≤ number)
    (high : number < 2 ^ (bits - 1)) : clampWord bits number = number := by
  simp only [clampWord, Nat.pow_eq, Nat.cast_pow, Nat.cast_ofNat]
  omega

theorem Rat.truncate_intCast (number : Int) : Coordinate.truncate (number : Rat) = number := by
  change (number : Rat).num.tdiv (number : Rat).den = number
  rw [Rat.num_intCast, Rat.den_intCast]
  exact Int.tdiv_one number

theorem Rat.floor_intCast_add {share : Rat} (nonneg : 0 ≤ share) (small : share < 1)
    (number : Int) : ((number : Rat) + share).floor = number := by
  refine Int.le_antisymm (Int.lt_add_one_iff.mp (Rat.floor_lt_iff.mpr ?_)) (Rat.le_floor_iff.mpr ?_)
  · push_cast
    linarith
  · linarith

theorem Rat.floor_intCast_add_half (number : Int) : ((number : Rat) + 1 / 2).floor = number :=
  Rat.floor_intCast_add (by norm_num) (by norm_num) number

/-- Without rounding error, half up is down from a half further on. -/
theorem Rat.roundHalfUp_eq (number : Rat) :
    Coordinate.roundHalfUp number = ((number + 1 / 2).floor : Rat) := by
  have half : (Coordinate.half : Rat) = 1 / 2 := by
    change ((1 : Int) : Rat) / ((2 : Int) : Rat) = 1 / 2
    norm_num
  rw [← half]
  rfl

theorem Rat.roundAway_intCast (number : Int) :
    Coordinate.roundAway (number : Rat) = (number : Rat) := by
  change (if 0 ≤ (number : Rat) then (((number : Rat) + 1 / 2).floor : Rat)
    else ((-(-(number : Rat) + 1 / 2).floor : Int) : Rat)) = number
  split
  · rw [Rat.floor_intCast_add_half]
  · rw [← Rat.intCast_neg, Rat.floor_intCast_add_half, Int.neg_neg]

/-- The literal of an integer stands for it. -/
theorem Rat.ofLiteral?_integer (number : Int) :
    Coordinate.ofLiteral? (.finite (decide (number < 0)) number.natAbs 0) =
      some (number : Rat) := by
  change some (if decide (number < 0) then -((number.natAbs * 10 ^ 0 : Nat) : Rat)
    else ((number.natAbs * 10 ^ 0 : Nat) : Rat)) = some (number : Rat)
  rw [Nat.pow_zero, Nat.mul_one]
  by_cases negative : number < 0
  · have magnitude : (number.natAbs : Int) = -number :=
      Int.ofNat_natAbs_of_nonpos (Int.le_of_lt negative)
    rw [if_pos (decide_eq_true negative), ← Rat.intCast_natCast, magnitude, Rat.intCast_neg,
      Rat.neg_neg]
  · have magnitude : (number.natAbs : Int) = number := Int.natAbs_of_nonneg (Int.not_lt.mp negative)
    rw [if_neg (by simpa using negative), ← Rat.intCast_natCast, magnitude]

instance : ExactArithmetic Rat where
  rational? := some
  rational?_ofInt _ := rfl
  rational?_mul_ofInt named _ whole _ := by
    cases named
    exact congrArg some whole
  rational?_roundAway named _ := by
    cases named
    exact congrArg some (Rat.roundAway_intCast _)
  truncate_eq named _ := by
    cases named
    exact Rat.truncate_intCast _
  den_of_isWhole named whole := by
    cases named
    exact beq_iff_eq.mp whole
  ofInt_add _ _ _ := (Rat.intCast_add _ _).symm
  ofInt_sub _ _ _ := (Rat.intCast_sub _ _).symm
  ofLiteral?_integer _ := Rat.ofLiteral?_integer _

end FontCompiler
