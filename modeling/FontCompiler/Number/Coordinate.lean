import FontCompiler.Number.Literal

/-!
# The numbers that glyph data is made of

Outlines, metrics and kerning values are written over an arithmetic that is
left open. The program runs at double precision. The same definitions at the
rational numbers say what it computes when nothing is rounded away. Layout
values are written as whole multiples of a grid step: kerning goes to the
nearest multiple, a half going up, and anchors go down to a multiple.
-/

namespace FontCompiler

/-- An integer moved to the nearest end of the range of a signed word. -/
def clampWord (bits : Nat) (number : Int) : Int :=
  let bound : Int := Nat.pow 2 (bits - 1)
  max (-bound) (min (bound - 1) number)

/-- The arithmetic of coordinates. -/
class Coordinate (α : Type) extends Add α, Sub α, Mul α, Div α where
  ofInt : Int → α
  /-- The largest whole number that is not larger. -/
  floor : α → α
  /-- The nearest whole number, a half going away from zero. -/
  roundAway : α → α
  /-- The whole part, without the fraction; a value that is no number counts as zero. -/
  truncate : α → Int
  isWhole : α → Bool
  atMost : α → α → Bool
  equals : α → α → Bool
  /-- A total order that agrees with the order of numbers. -/
  order : α → α → Ordering
  order_trans : Std.TransCmp order
  /-- The number that a literal stands for, if there is one. -/
  ofLiteral? : Literal → Option α

/-- A number's decimal text. -/
class DecimalText (α : Type) where
  text : α → String

namespace Coordinate

variable {α : Type} [Coordinate α]

def zero : α := ofInt 0

def one : α := ofInt 1

def half : α := ofInt 1 / ofInt 2

def twoThirds : α := ofInt 2 / ofInt 3

/-- The nearest whole number, a half going up. -/
def roundHalfUp (number : α) : α := floor (number + half)

def isZero (number : α) : Bool := equals number zero

/-- The whole part, clamped to 32 bits. -/
def toInt32 (number : α) : Int := clampWord 32 (truncate number)

/-- The whole part, clamped to 64 bits. -/
def toInt64 (number : α) : Int := clampWord 64 (truncate number)

end Coordinate

section Grid

variable {α : Type} [Coordinate α]

/-- The nearest multiple of a step, a half going up. -/
def nearestMultiple (value : α) (step : Nat) : Int :=
  let unit : α := Coordinate.ofInt (max step 1 : Nat)
  Coordinate.toInt32 (unit * Coordinate.roundHalfUp (value / unit))

/-- The multiple of a step at or below a value; on the grid of whole numbers the nearest one. -/
def multipleBelow (value : α) (step : Nat) : Int :=
  if 1 < step then
    let unit : α := Coordinate.ofInt step
    Coordinate.toInt32 (unit * Coordinate.floor (value / unit))
  else Coordinate.toInt32 (Coordinate.roundHalfUp value)

end Grid

namespace Literal

/-- The rational number that a literal spells, if it is finite. -/
def toRat? : Literal → Option Rat
  | .finite negative digits exponent =>
      let magnitude : Rat :=
        if 0 ≤ exponent then (digits * Nat.pow 10 exponent.toNat : Nat)
        else mkRat digits (Nat.pow 10 (-exponent).toNat)
      some (if negative then -magnitude else magnitude)
  | .infinite _ => none
  | .notNumber => none

end Literal

def compareRat (first second : Rat) : Ordering :=
  if first < second then .lt else if first = second then .eq else .gt

theorem compareRat_isLE (first second : Rat) :
    (compareRat first second).isLE = true ↔ first ≤ second := by
  unfold compareRat
  split
  · next below => simpa using Rat.le_of_lt below
  · next notBelow =>
      split
      · next same => simp [same]
      · next other =>
          have above : second ≤ first := Rat.not_lt.mp notBelow
          simp only [Ordering.isLE, Bool.false_eq_true, false_iff]
          exact fun below => other (Rat.le_antisymm below above)

theorem compareRat_swap (first second : Rat) :
    compareRat first second = (compareRat second first).swap := by
  unfold compareRat
  by_cases below : first < second
  · have notAbove : ¬ second < first := Rat.not_lt.mpr (Rat.le_of_lt below)
    have other : ¬ second = first := fun same => Rat.lt_irrefl (same ▸ below)
    simp [below, notAbove, other]
  · by_cases same : first = second
    · subst same
      rw [if_neg below, if_pos rfl]
      rfl
    · have above : second < first :=
        Rat.not_le.mp fun atMost => same (Rat.le_antisymm atMost (Rat.not_lt.mp below))
      simp [below, same, above]

instance : Std.TransCmp compareRat where
  eq_swap {first second} := compareRat_swap first second
  isLE_trans {first second third} below above := by
    rw [compareRat_isLE] at below above ⊢
    exact Rat.le_trans below above

instance : Coordinate Rat where
  ofInt number := (number : Rat)
  floor number := (number.floor : Rat)
  roundAway number :=
    if 0 ≤ number then ((number + 1 / 2).floor : Rat) else (-(-number + 1 / 2).floor : Rat)
  truncate number := number.num.tdiv number.den
  isWhole number := number.den == 1
  atMost first second := decide (first ≤ second)
  equals first second := decide (first = second)
  order := compareRat
  order_trans := inferInstance
  ofLiteral? := Literal.toRat?

end FontCompiler
