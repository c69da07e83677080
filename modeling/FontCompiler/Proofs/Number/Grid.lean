import Mathlib.Tactic.Linarith
import FontCompiler.Number.Coordinate
import FontCompiler.Proofs.Number.Exact

/-!
# Values on a grid

Both ways to a grid count the steps of a value, add a share of a step and go down to a whole
number of steps. The result lies less than a step from the value, so a value a step inside
the range of 32 bits is not clamped.
-/

namespace FontCompiler

/-- The multiple of a step at or below a value with a share of a step added. -/
def gridPoint (share : Rat) (step : Nat) (value : Rat) : Int :=
  step * (value / step + share).floor

section GridPoint

variable {share : Rat} {step : Nat}

theorem gridPoint_bounds (positive : 1 ≤ step) (share : Rat) (value : Rat) :
    value - (1 - share) * step < gridPoint share step value ∧
      (gridPoint share step value : Rat) ≤ value + share * step := by
  have unit : (0 : Rat) < step := by exact_mod_cast positive
  have steps : (step : Rat) * (value / step) = value := mul_div_cancel₀ value unit.ne'
  have above := mul_lt_mul_of_pos_left (Rat.lt_floor_add_one (value / step + share)) unit
  have below := mul_le_mul_of_nonneg_left (Rat.floor_le (value / step + share)) unit.le
  unfold gridPoint
  push_cast at above below ⊢
  rw [mul_add, steps] at above below
  constructor <;> linarith

theorem gridPoint_mono (share : Rat) (step : Nat) {value other : Rat} (atMost : value ≤ other) :
    gridPoint share step value ≤ gridPoint share step other := by
  have quotients : value / step ≤ other / step :=
    div_le_div_of_nonneg_right atMost (Nat.cast_nonneg step)
  exact mul_le_mul_of_nonneg_left (Rat.floor_monotone (by linarith)) (Nat.cast_nonneg step)

/-- A multiple of the step stays where it is. -/
theorem gridPoint_gridPoint (positive : 1 ≤ step) (nonneg : 0 ≤ share) (small : share < 1)
    (value : Rat) :
    gridPoint share step (gridPoint share step value) = gridPoint share step value := by
  have unit : (step : Rat) ≠ 0 := by exact_mod_cast (Nat.one_le_iff_ne_zero.mp positive)
  have whole (number : Int) : (((step * number : Int) : Rat) / step) = number := by
    push_cast
    exact mul_div_cancel_left₀ _ unit
  conv_lhs => rw [gridPoint]
  unfold gridPoint
  rw [whole, Rat.floor_intCast_add nonneg small]

/-- A value with room for a step inside the range of 32 bits. -/
def FitsWord (step : Nat) (value : Rat) : Prop := |value| + step < 2 ^ 31

theorem gridPoint_inRange (positive : 1 ≤ step) (nonneg : 0 ≤ share) (small : share < 1)
    {value : Rat} (fits : FitsWord step value) :
    -2 ^ 31 ≤ gridPoint share step value ∧ gridPoint share step value < 2 ^ 31 := by
  have unit : (0 : Rat) < step := by exact_mod_cast positive
  obtain ⟨above, below⟩ := gridPoint_bounds positive share value
  have low : (1 - share) * step ≤ 1 * step :=
    mul_le_mul_of_nonneg_right (by linarith) unit.le
  have high : share * step ≤ 1 * step := mul_le_mul_of_nonneg_right small.le unit.le
  unfold FitsWord at fits
  obtain ⟨notBelow, notAbove⟩ := abs_lt.mp (lt_sub_iff_add_lt.mpr fits)
  have lowRat : ((-2 ^ 31 : Int) : Rat) ≤ gridPoint share step value := by
    push_cast
    linarith
  have highRat : (gridPoint share step value : Rat) < ((2 ^ 31 : Int) : Rat) := by
    push_cast
    linarith
  exact ⟨by exact_mod_cast lowRat, by exact_mod_cast highRat⟩

end GridPoint

/-- The whole number of a grid point, read from a number, is not clamped. -/
theorem toInt32_gridPoint {share : Rat} {step : Nat} (positive : 1 ≤ step) (nonneg : 0 ≤ share)
    (small : share < 1) {value : Rat} (fits : FitsWord step value) :
    Coordinate.toInt32 (gridPoint share step value : Rat) = gridPoint share step value := by
  obtain ⟨low, high⟩ := gridPoint_inRange positive nonneg small fits
  unfold Coordinate.toInt32
  rw [Rat.truncate_intCast]
  exact clampWord_eq low high

/-- A conversion to the multiples of a step, with the number that it turns into an integer. -/
structure GridConversion (step : Nat) (convert : Rat → Int) (converted : Rat → Rat) : Prop where
  conversion : ∀ value, convert value = Coordinate.toInt32 (converted value)
  /-- Where there is room, the integer is the number itself: nothing is cut off or clamped. -/
  unclamped : ∀ value, FitsWord step value → (convert value : Rat) = converted value
  onGrid : ∀ value, FitsWord step value → (step : Int) ∣ convert value
  monotone : ∀ value other, FitsWord step value → FitsWord step other → value ≤ other →
    convert value ≤ convert other
  idempotent : ∀ value, FitsWord step value → convert (convert value) = convert value

section Conversions

variable {step : Nat}

theorem GridConversion.of_gridPoint (positive : 1 ≤ step) (share : Rat) (nonneg : 0 ≤ share)
    (small : share < 1) {convert : Rat → Int} {converted : Rat → Rat}
    (conversion : ∀ value, convert value = Coordinate.toInt32 (converted value))
    (isPoint : ∀ value, converted value = gridPoint share step value) :
    GridConversion step convert converted := by
  have point {value : Rat} (fits : FitsWord step value) :
      convert value = gridPoint share step value := by
    rw [conversion, isPoint, toInt32_gridPoint positive nonneg small fits]
  refine { conversion, unclamped := ?_, onGrid := ?_, monotone := ?_, idempotent := ?_ }
  · intro value fits
    rw [point fits, isPoint]
  · intro value fits
    rw [point fits]
    exact Int.dvd_mul_right _ _
  · intro value other fits otherFits atMost
    rw [point fits, point otherFits]
    exact gridPoint_mono share step atMost
  · intro value fits
    -- The point may leave too little room for a step, but it is its own point.
    rw [point fits, conversion, isPoint, gridPoint_gridPoint positive nonneg small,
      toInt32_gridPoint positive nonneg small fits]

theorem step_mul_floor (share : Rat) (value : Rat) :
    (step : Rat) * ((value / step + share).floor : Rat) = gridPoint share step value := by
  unfold gridPoint
  push_cast
  rfl

theorem nearestMultiple_eq (positive : 1 ≤ step) (value : Rat) :
    nearestMultiple value step =
      Coordinate.toInt32 (step * Coordinate.roundHalfUp (value / step) : Rat) := by
  unfold nearestMultiple
  rw [Nat.max_eq_left positive]
  rfl

theorem multipleBelow_eq (value : Rat) :
    multipleBelow value step =
      Coordinate.toInt32 (if 1 < step then (step : Rat) * Coordinate.floor (value / step)
        else Coordinate.roundHalfUp value) := by
  unfold multipleBelow
  split
  · rfl
  · rfl

/-- On the grid of whole numbers both ways are the same. -/
theorem multipleBelow_one (value : Rat) : multipleBelow value 1 = nearestMultiple value 1 := by
  rw [nearestMultiple_eq le_rfl, Nat.cast_one, one_mul, div_one]
  exact if_neg (lt_irrefl 1)

theorem gridConversion_nearestMultiple (positive : 1 ≤ step) :
    GridConversion step (fun value => nearestMultiple value step)
      fun value => step * Coordinate.roundHalfUp (value / step) := by
  refine .of_gridPoint positive (1 / 2) (by norm_num) (by norm_num)
    (nearestMultiple_eq positive) fun value => ?_
  rw [Rat.roundHalfUp_eq, step_mul_floor]

theorem nearestMultiple_bounds (positive : 1 ≤ step) {value : Rat} (fits : FitsWord step value) :
    -(step : Rat) / 2 < nearestMultiple value step - value ∧
      nearestMultiple value step - value ≤ (step : Rat) / 2 := by
  have point := (gridConversion_nearestMultiple positive).unclamped value fits
  obtain ⟨above, below⟩ := gridPoint_bounds positive (1 / 2) value
  rw [Rat.roundHalfUp_eq, step_mul_floor] at point
  rw [← point] at above below
  constructor <;> linarith

theorem floor_eq_gridPoint (value : Rat) :
    (step : Rat) * Coordinate.floor (value / step) = gridPoint 0 step value := by
  rw [← step_mul_floor, add_zero]
  rfl

theorem gridConversion_multipleBelow (positive : 1 ≤ step) :
    GridConversion step (fun value => multipleBelow value step)
      fun value => if 1 < step then step * Coordinate.floor (value / step)
        else Coordinate.roundHalfUp value := by
  by_cases coarse : 1 < step
  · refine .of_gridPoint positive 0 le_rfl one_pos multipleBelow_eq fun value => ?_
    rw [if_pos coarse, floor_eq_gridPoint]
  · obtain rfl : step = 1 := Nat.le_antisymm (Nat.not_lt.mp coarse) positive
    refine .of_gridPoint positive (1 / 2) (by norm_num) (by norm_num) multipleBelow_eq
      fun value => ?_
    rw [if_neg coarse, Rat.roundHalfUp_eq, ← step_mul_floor, Nat.cast_one, one_mul, div_one]

theorem multipleBelow_bounds (coarse : 1 < step) {value : Rat} (fits : FitsWord step value) :
    0 ≤ value - multipleBelow value step ∧ value - multipleBelow value step < step := by
  have point := (gridConversion_multipleBelow coarse.le).unclamped value fits
  obtain ⟨above, below⟩ := gridPoint_bounds coarse.le 0 value
  rw [if_pos coarse, floor_eq_gridPoint] at point
  rw [← point] at above below
  constructor <;> linarith

end Conversions

/-- Values go to a multiple of the step, in order, and multiples stay where they are; nothing
is clamped on the way. The nearest multiple lies less than half a step below a value or at
most half a step above it, and the multiple below a value less than a step below it. -/
theorem grid_conversions_exact {step : Nat} (positive : 1 ≤ step) :
    GridConversion step (fun value => nearestMultiple value step)
        (fun value => step * Coordinate.roundHalfUp (value / step)) ∧
      (∀ value, FitsWord step value →
        -(step : Rat) / 2 < nearestMultiple value step - value ∧
          nearestMultiple value step - value ≤ (step : Rat) / 2) ∧
      GridConversion step (fun value => multipleBelow value step)
        (fun value => if 1 < step then step * Coordinate.floor (value / step)
          else Coordinate.roundHalfUp value) ∧
      (1 < step → ∀ value, FitsWord step value →
        0 ≤ value - multipleBelow value step ∧ value - multipleBelow value step < step) ∧
      (step = 1 → ∀ value : Rat, multipleBelow value step = nearestMultiple value 1) := by
  refine ⟨gridConversion_nearestMultiple positive,
    fun value fits => nearestMultiple_bounds positive fits,
    gridConversion_multipleBelow positive,
    fun coarse value fits => multipleBelow_bounds coarse fits, ?_⟩
  rintro rfl value
  exact multipleBelow_one value

/-- A tie below zero goes up to the nearest ten, as far as it may, and down to the ten below. -/
theorem grid_conversions_of_negative_tie :
    1 ≤ 10 ∧ FitsWord 10 (-25) ∧
      nearestMultiple (-25 : Rat) 10 = -20 ∧
        (nearestMultiple (-25 : Rat) 10 : Rat) - -25 ≤ (10 : Nat) / 2 ∧
      multipleBelow (-25 : Rat) 10 = -30 ∧
        -25 - (multipleBelow (-25 : Rat) 10 : Rat) < (10 : Nat) := by
  have positive : 1 ≤ 10 := by decide
  have fits : FitsWord 10 (-25) := by norm_num [FitsWord]
  obtain ⟨-, nearest, -, below, -⟩ := grid_conversions_exact positive
  exact ⟨positive, fits, by decide +kernel, (nearest (-25) fits).2, by decide +kernel,
    (below (by decide) (-25) fits).2⟩

end FontCompiler
