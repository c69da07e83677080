import FontCompiler.Proofs.Number.Double

/-!
# Rounding leaves whole coordinates alone

A coordinate is rounded by adding a half and going down to a whole number. The sum
of an integer of magnitude at most 2^51 and a half is a half integer, which a double
holds exactly, so such an integer is its own rounding.
-/

namespace FontCompiler

/-- Arithmetic in which integers of magnitude at most 2^51 are rounded to themselves. -/
class StableRounding (α : Type) [Coordinate α] : Prop where
  roundHalfUp_ofInt {number : Int} (small : number.natAbs ≤ 2 ^ 51) :
    Coordinate.roundHalfUp (Coordinate.ofInt number : α) = Coordinate.ofInt number

instance : StableRounding Rat where
  roundHalfUp_ofInt {number} _ := by
    change Coordinate.roundHalfUp (number : Rat) = number
    rw [Rat.roundHalfUp_eq, Rat.floor_intCast_add_half]

open Float.Model Float.Model.UnpackedFloat SmallInteger

namespace SmallInteger

/-- The double of half a small integer other than zero. -/
def unpackedHalf (number : Int) (other : number ≠ 0) : UnpackedFloat :=
  .finite (sign number) (significand number.natAbs) (number.natAbs.log2 - 52 + -1)
    (significand_pos (Int.natAbs_pos.mpr other))

theorem stands_unpackedHalf {number : Int} (other : number ≠ 0) (small : IsSmall number) :
    Stands (unpackedHalf number other) (number / 2) := by
  have value : scaled (sign number) (significand number.natAbs) (number.natAbs.log2 - 52 + -1) =
      number / 2 := by
    rw [← scaled_significand number small, scaled, scaled, zpow_add₀ (by norm_num), ← mul_assoc,
      zpow_neg_one, div_eq_mul_inv]
  exact value ▸ .finite ..

/-- Packing half a small integer loses nothing. -/
theorem unpack_pack_unpackedHalf {number : Int} (other : number ≠ 0) (small : IsSmall number) :
    UnpackedFloat.unpack Format.binary64
      (UnpackedFloat.pack Format.binary64 (unpackedHalf number other)) =
        unpackedHalf number other := by
  have bits := log2_lt small
  obtain ⟨low, high⟩ := significand_bounds (Int.natAbs_pos.mpr other) small
  exact unpack_pack_finite _ _ low high (by omega) (by omega)

/-- A small integer and a half add up to a half integer without rounding. -/
theorem unpacked_add_half {number : Int} (odd : 2 * number + 1 ≠ 0)
    (numberSmall : IsSmall number) (small : IsSmall (2 * number + 1)) :
    UnpackedFloat.add Format.binary64 (unpacked number) (unpackedHalf 1 one_ne_zero) =
      unpackedHalf (2 * number + 1) odd := by
  by_cases zero : number = 0
  · subst zero
    rfl
  have bits := log2_lt numberSmall
  have least : min ((number.natAbs.log2 : Int) - 52) (-53) = -(53 : Nat) := by omega
  have oneHalf : (sign 1).apply (decreaseExponent (significand 1) (-53) (-(53 : Nat))).1 =
      (2 ^ 52 : Int) := by
    decide
  have sum : (number * 2 ^ 53 + 2 ^ 52 : Int) = (2 * number + 1) * 2 ^ 52 := by ring
  have scale : (-(53 : Nat) : Int) = -1 - (52 : Nat) := by decide
  have exponent : (Nat.log2 1 : Int) - 52 + -1 = -53 := by decide
  rw [unpacked_of_ne zero]
  unfold unpackedHalf
  dsimp only [UnpackedFloat.add]
  rw [Int.natAbs_one, exponent, least, apply_decreaseExponent numberSmall (by omega), oneHalf, sum,
    scale]
  exact normalize_of_ne 52 odd small (by decide)

end SmallInteger

namespace Double

theorem unpack_half :
    (Coordinate.half : Double).value.toModel.unpack = unpackedHalf 1 one_ne_zero := rfl

/-- Half an odd integer is not whole. -/
theorem den_add_half_ne_one (number : Int) : ((number : Rat) + 1 / 2).den ≠ 1 := by
  intro whole
  have same : (number : Rat) + 1 / 2 = ((number : Rat) + 1 / 2).num :=
    (Rat.coe_int_num_of_den_eq_one whole).symm
  have doubled : 2 * number + 1 = 2 * ((number : Rat) + 1 / 2).num := by
    have scaled : (2 : Rat) * number + 1 = 2 * ((number : Rat) + 1 / 2).num := by
      rw [← same]
      ring
    exact_mod_cast scaled
  omega

/-- A small integer and a half make a double that stands for their sum. -/
theorem rational?_add_half {number : Int} (small : number.natAbs ≤ 2 ^ 51) :
    ((Coordinate.ofInt number : Double) + Coordinate.half).rational? =
      some ((number : Rat) + 1 / 2) := by
  have numberSmall : IsSmall number := by unfold IsSmall; omega
  have oddSmall : IsSmall (2 * number + 1) := by unfold IsSmall; omega
  have odd : 2 * number + 1 ≠ 0 := by omega
  have sum : (Coordinate.ofInt number : Double) + Coordinate.half =
      ofValue (.ofModel (.pack (unpackedHalf (2 * number + 1) odd))) := by
    rw [← unpacked_add_half odd numberSmall oddSmall, ← unpack_half, ← unpack_floatOf numberSmall,
      ofInt_eq_floatOf numberSmall]
    change ofValue ((ofValue (floatOf number)).value + _) = _
    rw [value_ofValue_floatOf numberSmall]
    rfl
  have halves : ((2 * number + 1 : Int) : Rat) / 2 = number + 1 / 2 := by
    push_cast
    ring
  have kept := unpack_pack_unpackedHalf odd oddSmall
  rw [sum, rational?_eq_some_iff, value_ofValue_pack kept, ← halves]
  change Stands (UnpackedFloat.unpack Format.binary64 (UnpackedFloat.pack Format.binary64 _)) _
  rw [kept]
  exact stands_unpackedHalf odd oddSmall

end Double

instance : StableRounding Double where
  roundHalfUp_ofInt {number} small := by
    change Double.floor _ = _
    rw [Double.floor, Double.rational?_add_half small]
    simp only [if_neg (Double.den_add_half_ne_one number), Rat.floor_intCast_add_half]
    rfl

end FontCompiler
