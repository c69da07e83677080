import Mathlib.Tactic.Positivity
import Mathlib.Tactic.Ring
import FontCompiler.Proofs.Number.Exact

/-!
# Small integers as floating-point numbers

An integer below 2^53 is its own significand, shifted until the highest bit is at
place 52. Nothing is rounded away from it, so sums, differences and products that
are small integers come out exactly.
-/

namespace FontCompiler

open Float.Model Float.Model.UnpackedFloat

namespace SmallInteger

/-- The significand of a positive integer, with its highest bit at place 52. -/
def significand (size : Nat) : Nat := size * 2 ^ (52 - size.log2)

theorem log2_lt {size : Nat} (small : size < 2 ^ 53) : size.log2 < 53 := by
  by_cases zero : size = 0
  · subst zero
    decide
  · exact (Nat.log2_lt zero).mpr small

theorem log2_mul_two_pow {size : Nat} (positive : 0 < size) (places : Nat) :
    (size * 2 ^ places).log2 = size.log2 + places := by
  obtain ⟨low, high⟩ := (Nat.log2_eq_iff positive.ne').mp rfl
  refine (Nat.log2_eq_iff (by positivity)).mpr ⟨?_, ?_⟩
  · rw [pow_add]
    exact Nat.mul_le_mul_right _ low
  · rw [Nat.add_right_comm, pow_add]
    exact Nat.mul_lt_mul_of_pos_right high (by positivity)

theorem significand_pos {size : Nat} (positive : 0 < size) : 0 < significand size :=
  Nat.mul_pos positive (Nat.two_pow_pos _)

/-- Bits that are all zero are shifted out without a trace. -/
theorem shiftRight_mul_two_pow (mantissa places : Nat) :
    (⟨mantissa * 2 ^ places, false, false⟩ : ExtendedMantissa) >>> places =
      ⟨mantissa, false, false⟩ := by
  change places.repeat ExtendedMantissa.shiftRightOne _ = _
  induction places generalizing mantissa with
  | zero => simp [Nat.repeat]
  | succ places ih =>
      rw [Nat.repeat, pow_succ', ← Nat.mul_assoc, ih]
      simp [ExtendedMantissa.shiftRightOne]

theorem targetExponent_eq {size places : Nat} {unit : Int} (positive : 0 < size)
    (small : size < 2 ^ 53) (least : -1022 ≤ unit) :
    Format.binary64.targetExponent (totalExponent (size * 2 ^ places) (unit - places)) =
      size.log2 - 52 + unit := by
  have bits := log2_lt small
  unfold totalExponent Format.targetExponent
  rw [log2_mul_two_pow positive]
  have minExponent : Format.binary64.minExponent = -1074 := by decide
  have digits : Format.binary64.mantissaBits = 53 := rfl
  rw [minExponent, digits]
  omega

/-- A small integer in some unit, with enough places after it, keeps all its bits. -/
theorem shiftToTargetExponent_eq {size places : Nat} {unit : Int} (positive : 0 < size)
    (small : size < 2 ^ 53) (least : -1022 ≤ unit) (enough : 52 - size.log2 ≤ places) :
    shiftToTargetExponent Format.binary64 (size * 2 ^ places) (unit - places) .exact =
      ((⟨significand size, false, false⟩ : ExtendedMantissa), (size.log2 : Int) - 52 + unit) := by
  have bits := log2_lt small
  obtain ⟨more, rfl⟩ := Nat.exists_eq_add_of_le enough
  have shift : ((size.log2 : Int) - 52 + unit - (unit - (52 - size.log2 + more : Nat))).toNat =
      more := by
    omega
  have split : size * 2 ^ (52 - size.log2 + more) = significand size * 2 ^ more := by
    rw [significand, pow_add, Nat.mul_assoc]
  unfold shiftToTargetExponent shiftToExponent
  simp only [targetExponent_eq positive small least, shift]
  rw [split]
  refine Prod.ext (shiftRight_mul_two_pow _ _) ?_
  change unit - (52 - size.log2 + more : Nat) + more = _
  omega

/-- A small integer in some unit, with enough places after it, is not rounded. -/
theorem roundWithAccuracy_eq (sign : Sign) {size places : Nat} {unit : Int} (positive : 0 < size)
    (small : size < 2 ^ 53) (least : -1022 ≤ unit) (enough : 52 - size.log2 ≤ places) :
    roundWithAccuracy Format.binary64 sign (size * 2 ^ places) (unit - places) .exact =
      .finite sign (significand size) (size.log2 - 52 + unit) (significand_pos positive) := by
  have bits := log2_lt small
  have exponent : unit - (52 - size.log2 : Nat) = size.log2 - 52 + unit := by omega
  have again := shiftToTargetExponent_eq positive small least (Nat.le_refl _)
  rw [exponent] at again
  have rounded : (⟨significand size, false, false⟩ : ExtendedMantissa).roundedMantissa =
      size * 2 ^ (52 - size.log2) := rfl
  unfold roundWithAccuracy
  rw [shiftToTargetExponent_eq positive small least enough]
  dsimp only
  rw [rounded, again]
  exact dif_neg (significand_pos positive).ne'

/-- A small integer in some unit is not rounded, however many places come after it. -/
theorem round_eq (sign : Sign) {size : Nat} {unit : Int} (places : Nat) (positive : 0 < size)
    (small : size < 2 ^ 53) (least : -1022 ≤ unit) :
    UnpackedFloat.round Format.binary64 sign (size * 2 ^ places) (unit - places) =
      .finite sign (significand size) (size.log2 - 52 + unit) (significand_pos positive) := by
  have bits := log2_lt small
  unfold UnpackedFloat.round
  rw [targetExponent_eq positive small least]
  unfold decreaseExponent
  dsimp only
  by_cases enough : 52 - size.log2 ≤ places
  · have shift : (unit - places - (size.log2 - 52 + unit)).toNat = 0 := by omega
    rw [shift, Nat.shiftLeft_zero, Int.natCast_zero, Int.sub_zero]
    exact roundWithAccuracy_eq sign positive small least enough
  · have shift : (unit - places - (size.log2 - 52 + unit)).toNat = 52 - size.log2 - places := by
      omega
    have total : places + (52 - size.log2 - places) = 52 - size.log2 := by omega
    have exponent : unit - places - (52 - size.log2 - places : Nat) =
        unit - (52 - size.log2 : Nat) := by
      omega
    rw [shift, Nat.shiftLeft_eq, Nat.mul_assoc, ← pow_add, total, exponent]
    exact roundWithAccuracy_eq sign positive small least (Nat.le_refl _)

/-- The sign of an integer, positive for zero. -/
def sign (number : Int) : Sign := if number < 0 then .negative else .positive

theorem apply_sign (number : Int) : (sign number).apply number.natAbs = number := by
  unfold sign
  split
  · exact (Int.neg_eq_comm.mp (Int.ofNat_natAbs_of_nonpos (by omega)).symm)
  · exact Int.natAbs_of_nonneg (by omega)

theorem apply_sign_mul (number : Int) (factor : Nat) :
    (sign number).apply (number.natAbs * factor : Nat) = number * factor := by
  conv_rhs => rw [← apply_sign number]
  cases sign number with
  | negative => simp [Sign.apply]
  | positive => simp [Sign.apply]

def unpacked (number : Int) : UnpackedFloat :=
  if zero : number = 0 then .zero .positive
  else
    .finite (sign number) (significand number.natAbs) (number.natAbs.log2 - 52)
      (significand_pos (Int.natAbs_pos.mpr zero))

theorem unpacked_zero : unpacked 0 = .zero .positive := rfl

theorem unpacked_of_ne {number : Int} (other : number ≠ 0) :
    unpacked number = .finite (sign number) (significand number.natAbs) (number.natAbs.log2 - 52)
      (significand_pos (Int.natAbs_pos.mpr other)) := dif_neg other

theorem neg_unpacked {number : Int} (other : number ≠ 0) :
    (unpacked number).neg = unpacked (-number) := by
  have opposite : -sign number = sign (-number) := by
    unfold sign
    rcases Int.lt_or_gt_of_ne other with negative | positive
    · rw [if_pos negative, if_neg (by omega)]
      rfl
    · rw [if_neg (by omega), if_pos (by omega)]
      rfl
  rw [unpacked_of_ne other, unpacked_of_ne (Int.neg_ne_zero.mpr other)]
  change UnpackedFloat.finite (-sign number) _ _ _ = _
  congr 1
  · rw [Int.natAbs_neg]
  · rw [Int.natAbs_neg]

/-- A small integer in some unit is normalized without rounding. -/
theorem normalize_of_ne {number unit : Int} (places : Nat) (other : number ≠ 0)
    (small : IsSmall number) (least : -1022 ≤ unit) :
    UnpackedFloat.normalize Format.binary64 (number * 2 ^ places) (unit - places) .positive =
      .finite (sign number) (significand number.natAbs) (number.natAbs.log2 - 52 + unit)
        (significand_pos (Int.natAbs_pos.mpr other)) := by
  have scale : (0 : Int) < 2 ^ places := by positivity
  have size (magnitude : Int) (same : (number.natAbs : Int) = magnitude) :
      (magnitude * 2 ^ places).toNat = number.natAbs * 2 ^ places := by
    subst same
    norm_cast
  unfold UnpackedFloat.normalize sign
  rcases Int.lt_or_gt_of_ne other with negative | positive
  · rw [compare_lt_iff_lt.mpr (Int.mul_neg_of_neg_of_pos negative scale), ← Int.neg_mul,
      size (-number) (by omega), if_pos negative]
    exact round_eq .negative places (Int.natAbs_pos.mpr other) small least
  · rw [compare_gt_iff_gt.mpr (Int.mul_pos positive scale), size number (by omega),
      if_neg (by omega)]
    exact round_eq .positive places (Int.natAbs_pos.mpr other) small least

/-- A small integer is normalized without rounding, however many places come after it. -/
theorem normalize_eq {number : Int} (places : Nat) (small : IsSmall number) :
    UnpackedFloat.normalize Format.binary64 (number * 2 ^ places) (-places) .positive =
      unpacked number := by
  by_cases zero : number = 0
  · rw [zero, Int.zero_mul, unpacked_zero]
    rfl
  · have normal := normalize_of_ne places zero small (show -1022 ≤ (0 : Int) by decide)
    rw [Int.zero_sub, Int.add_zero] at normal
    rw [normal, unpacked_of_ne zero]

/-- A small integer written with a smaller exponent. -/
theorem apply_decreaseExponent {number : Int} {places : Nat} (small : IsSmall number)
    (enough : 52 - number.natAbs.log2 ≤ places) :
    (sign number).apply
      (decreaseExponent (significand number.natAbs) (number.natAbs.log2 - 52) (-places)).1 =
        number * 2 ^ places := by
  have bits := log2_lt small
  have shift : ((number.natAbs.log2 : Int) - 52 - -(places : Int)).toNat =
      places - (52 - number.natAbs.log2) := by
    omega
  have split : significand number.natAbs * 2 ^ (places - (52 - number.natAbs.log2)) =
      number.natAbs * 2 ^ places := by
    rw [significand, Nat.mul_assoc, ← pow_add, Nat.add_sub_cancel' enough]
  rw [decreaseExponent, shift, Nat.shiftLeft_eq, split, apply_sign_mul]
  norm_cast

theorem unpacked_add {first second : Int} (firstSmall : IsSmall first)
    (secondSmall : IsSmall second) (small : IsSmall (first + second)) :
    UnpackedFloat.add Format.binary64 (unpacked first) (unpacked second) =
      unpacked (first + second) := by
  by_cases firstZero : first = 0
  · rw [firstZero, Int.zero_add, unpacked_zero]
    by_cases secondZero : second = 0
    · rw [secondZero, unpacked_zero]
      rfl
    · rw [unpacked_of_ne secondZero]
      rfl
  by_cases secondZero : second = 0
  · rw [secondZero, Int.add_zero, unpacked_zero, unpacked_of_ne firstZero]
    rfl
  have firstBits := log2_lt firstSmall
  have secondBits := log2_lt secondSmall
  obtain ⟨places, named⟩ : ∃ places : Nat,
      min ((first.natAbs.log2 : Int) - 52) (second.natAbs.log2 - 52) = -places :=
    ⟨52 - min first.natAbs.log2 second.natAbs.log2, by omega⟩
  rw [← normalize_eq places small, unpacked_of_ne firstZero, unpacked_of_ne secondZero]
  dsimp only [UnpackedFloat.add]
  rw [named, apply_decreaseExponent firstSmall (by omega),
    apply_decreaseExponent secondSmall (by omega), ← Int.add_mul]

theorem apply_neg (sign : Sign) (mantissa : Int) :
    (-sign).apply mantissa = -sign.apply mantissa := by
  cases sign with
  | negative => exact (Int.neg_neg mantissa).symm
  | positive => rfl

/-- The difference of small integers is the sum with the opposite. -/
theorem unpacked_sub_eq_add (first second : Int) :
    UnpackedFloat.sub Format.binary64 (unpacked first) (unpacked second) =
      UnpackedFloat.add Format.binary64 (unpacked first) (unpacked (-second)) := by
  by_cases secondZero : second = 0
  · rw [secondZero, Int.neg_zero, unpacked_zero]
    by_cases firstZero : first = 0
    · rw [firstZero, unpacked_zero]
      rfl
    · rw [unpacked_of_ne firstZero]
      rfl
  · rw [← neg_unpacked secondZero, unpacked_of_ne secondZero]
    by_cases firstZero : first = 0
    · rw [firstZero, unpacked_zero]
      rfl
    · rw [unpacked_of_ne firstZero]
      dsimp only [UnpackedFloat.sub, UnpackedFloat.add, UnpackedFloat.neg]
      rw [apply_neg, Int.sub_eq_add_neg]

theorem toNat_implicitBit {mantissa : Nat} (low : 2 ^ 52 ≤ mantissa) (high : mantissa < 2 ^ 53) :
    (1#1 ++ BitVec.ofNat 52 mantissa).toNat = mantissa := by
  rw [BitVec.toNat_append, ← Nat.shiftLeft_add_eq_or_of_lt (BitVec.isLt _), BitVec.toNat_ofNat,
    BitVec.toNat_ofNat, Nat.shiftLeft_eq]
  omega

theorem ofBitVec_sign_packComponents {format : Format} (sign : Sign)
    (exponent : BitVec format.exponentBits)
    (mantissa : BitVec format.mantissaBitsWithoutImplicit) :
    Sign.ofBitVec (unpackSign (packComponents format sign exponent mantissa)) = sign := by
  have bit : unpackSign (packComponents format sign exponent mantissa) = sign.toBitVec := by
    ext index below
    obtain rfl : index = 0 := Nat.lt_one_iff.mp below
    delta unpackSign
    simp +arith [packComponents, BitVec.extractLsb, BitVec.getElem_append]
  rw [bit]
  cases sign <;> rfl

/-- Packing a significand of 53 bits loses nothing. -/
theorem unpack_pack_finite (sign : Sign) {mantissa : Nat} {exponent : Int} (positive : 0 < mantissa)
    (low : 2 ^ 52 ≤ mantissa) (high : mantissa < 2 ^ 53) (least : -1074 ≤ exponent)
    (greatest : exponent ≤ 971) :
    UnpackedFloat.unpack Format.binary64
      (UnpackedFloat.pack Format.binary64 (.finite sign mantissa exponent positive)) =
        .finite sign mantissa exponent positive := by
  have bits : mantissa.log2 = 52 := (Nat.log2_eq_iff positive.ne').mpr ⟨low, high⟩
  have bias : Format.binary64.exponentBias = 1023 := by decide
  obtain ⟨biased, named⟩ := Int.eq_ofNat_of_zero_le (show 0 ≤ exponent + 1075 by omega)
  obtain rfl : exponent = biased - 1075 := by omega
  have shifted : ((biased : Int) - 1075 + Format.binary64.exponentBias + (52 : Nat)).toNat =
      biased := by
    omega
  have packed :
      UnpackedFloat.pack Format.binary64 (.finite sign mantissa (biased - 1075) positive) =
        packComponents Format.binary64 sign (BitVec.ofNat 11 biased)
          (BitVec.ofNat 52 mantissa) := by
    unfold UnpackedFloat.pack
    simp only [bits, shifted]
    rw [if_neg (by omega), if_pos (by rfl)]
  have spelled : (BitVec.ofNat 11 biased).toNat = biased := by
    rw [BitVec.toNat_ofNat]
    omega
  have notGreatest : BitVec.ofNat 11 biased ≠ -1#_ := by
    intro same
    have number := spelled.symm.trans (congrArg BitVec.toNat same)
    have greatestNumber : (-1#11).toNat = 2047 := by decide
    omega
  have notLeast : BitVec.ofNat 11 biased ≠ 0#_ := by
    intro same
    have number := spelled.symm.trans (congrArg BitVec.toNat same)
    have leastNumber : (0#11).toNat = 0 := by decide
    omega
  rw [packed]
  unfold UnpackedFloat.unpack
  dsimp only
  rw [if_neg (by rwa [unpackExponent_packComponents]),
    if_neg (by rwa [unpackExponent_packComponents])]
  congr 1
  · exact ofBitVec_sign_packComponents sign _ _
  · rw [unpackMantissa_packComponents]
    exact toNat_implicitBit low high
  · rw [unpackExponent_packComponents, spelled]
    rfl

theorem significand_bounds {size : Nat} (positive : 0 < size) (small : size < 2 ^ 53) :
    2 ^ 52 ≤ significand size ∧ significand size < 2 ^ 53 := by
  have bits := log2_lt small
  have places : (significand size).log2 = 52 := by
    rw [significand, log2_mul_two_pow positive]
    omega
  exact (Nat.log2_eq_iff (significand_pos positive).ne').mp places

theorem unpack_pack_zero (sign : Sign) :
    UnpackedFloat.unpack Format.binary64 (UnpackedFloat.pack Format.binary64 (.zero sign)) =
      .zero sign := by
  cases sign <;> rfl

/-- Packing a small integer loses nothing. -/
theorem unpack_pack {number : Int} (small : IsSmall number) :
    UnpackedFloat.unpack Format.binary64 (UnpackedFloat.pack Format.binary64 (unpacked number)) =
      unpacked number := by
  have bits := log2_lt small
  by_cases zero : number = 0
  · rw [zero, unpacked_zero]
    exact unpack_pack_zero .positive
  · rw [unpacked_of_ne zero]
    obtain ⟨low, high⟩ := significand_bounds (Int.natAbs_pos.mpr zero) small
    exact unpack_pack_finite _ _ low high (by omega) (by omega)

def floatOf (number : Int) : Float := .ofModel (.pack (unpacked number))

theorem unpack_floatOf {number : Int} (small : IsSmall number) :
    (floatOf number).toModel.unpack = unpacked number :=
  unpack_pack small

theorem floatOf_add {first second : Int} (firstSmall : IsSmall first) (secondSmall : IsSmall second)
    (small : IsSmall (first + second)) :
    floatOf first + floatOf second = floatOf (first + second) := by
  change Float.ofModel (.pack (UnpackedFloat.add Format.binary64 (floatOf first).toModel.unpack
    (floatOf second).toModel.unpack)) = _
  rw [unpack_floatOf firstSmall, unpack_floatOf secondSmall,
    unpacked_add firstSmall secondSmall small]
  rfl

theorem floatOf_sub {first second : Int} (firstSmall : IsSmall first) (secondSmall : IsSmall second)
    (small : IsSmall (first - second)) :
    floatOf first - floatOf second = floatOf (first - second) := by
  have opposite : IsSmall (-second) := by rwa [IsSmall, Int.natAbs_neg]
  change Float.ofModel (.pack (UnpackedFloat.sub Format.binary64 (floatOf first).toModel.unpack
    (floatOf second).toModel.unpack)) = _
  rw [unpack_floatOf firstSmall, unpack_floatOf secondSmall, unpacked_sub_eq_add,
    unpacked_add firstSmall opposite small]
  rfl

/-- The rational number of a significand and an exponent. -/
def scaled (sign : Sign) (mantissa : Nat) (exponent : Int) : Rat :=
  (sign.apply mantissa : Int) * 2 ^ exponent

theorem scaled_significand (number : Int) (small : IsSmall number) :
    scaled (sign number) (significand number.natAbs) (number.natAbs.log2 - 52) = number := by
  have bits := log2_lt small
  have exponent : (number.natAbs.log2 : Int) - 52 = -(52 - number.natAbs.log2 : Nat) := by omega
  rw [scaled, significand, apply_sign_mul, exponent, zpow_neg, zpow_natCast]
  push_cast
  exact mul_inv_cancel_right₀ (by positivity) _

theorem scaled_mul_scaled (first second : Sign) (left right : Nat) (low high : Int) :
    scaled first left low * scaled second right high =
      scaled (first * second) (left * right) (low + high) := by
  have signs : ((first * second).apply (left * right : Nat) : Int) =
      first.apply left * second.apply right := by
    rw [Int.natCast_mul]
    cases first with
    | negative =>
        cases second with
        | negative => exact (Int.neg_mul_neg _ _).symm
        | positive => exact (Int.neg_mul _ _).symm
    | positive =>
        cases second with
        | negative => exact (Int.mul_neg _ _).symm
        | positive => rfl
  rw [scaled, scaled, scaled, signs, zpow_add₀ (by norm_num)]
  push_cast
  ring

theorem natAbs_apply (sign : Sign) (mantissa : Nat) : (sign.apply mantissa).natAbs = mantissa := by
  cases sign with
  | negative => exact (Int.natAbs_neg _).trans (Int.natAbs_natCast _)
  | positive => exact Int.natAbs_natCast _

theorem sign_eq {direction : Sign} {mantissa : Nat} {number : Int} {factor : Nat}
    (positive : 0 < mantissa) (factorPositive : 0 < factor)
    (same : direction.apply mantissa = number * factor) : direction = sign number := by
  unfold sign
  have factorPositive : (0 : Int) < factor := by omega
  cases direction with
  | negative =>
      have below : number * factor < 0 := same ▸ (by simp only [Sign.apply]; omega)
      rw [if_pos (Int.neg_of_mul_neg_left below factorPositive)]
  | positive =>
      have above : 0 < number * factor := same ▸ (by simp only [Sign.apply]; omega)
      rw [if_neg (not_lt_of_gt (pos_of_mul_pos_left above factorPositive.le))]

/-- A significand of at least 53 bits that stands for a small integer has enough places. -/
theorem places_of_scaled {direction : Sign} {mantissa : Nat} {exponent number : Int}
    (long : 2 ^ 52 ≤ mantissa) (small : IsSmall number)
    (same : scaled direction mantissa exponent = number) :
    ∃ places : Nat, exponent = -places ∧ direction.apply mantissa = number * 2 ^ places := by
  by_cases whole : exponent ≤ 0
  · obtain ⟨places, rfl⟩ := Int.exists_eq_neg_ofNat whole
    refine ⟨places, rfl, ?_⟩
    rw [scaled, zpow_neg, zpow_natCast] at same
    have cleared := (mul_inv_eq_iff_eq_mul₀ (by positivity)).mp same
    exact_mod_cast cleared
  · obtain ⟨more, rfl⟩ := Int.eq_ofNat_of_zero_le (show 0 ≤ exponent by omega)
    rw [scaled, zpow_natCast] at same
    have large : number = direction.apply mantissa * 2 ^ more := by exact_mod_cast same.symm
    have size : number.natAbs = mantissa * 2 ^ more := by
      rw [large, Int.natAbs_mul, natAbs_apply, Int.natAbs_pow]
      rfl
    have least : 2 ^ 1 ≤ 2 ^ more := Nat.pow_le_pow_right (by decide) (by omega)
    have tooLarge : 2 ^ 52 * 2 ^ 1 ≤ mantissa * 2 ^ more := Nat.mul_le_mul long least
    unfold IsSmall at small
    omega

/-- A significand of at least 53 bits that stands for a small integer is not rounded. -/
theorem roundWithAccuracy_scaled {direction : Sign} {mantissa : Nat} {exponent number : Int}
    (long : 2 ^ 52 ≤ mantissa) (small : IsSmall number)
    (same : scaled direction mantissa exponent = number) :
    roundWithAccuracy Format.binary64 direction mantissa exponent .exact = unpacked number := by
  obtain ⟨places, rfl, named⟩ := places_of_scaled long small same
  have positive : 0 < mantissa := by omega
  have size : mantissa = number.natAbs * 2 ^ places := by
    rw [← natAbs_apply direction mantissa, named, Int.natAbs_mul, Int.natAbs_pow]
    rfl
  have other : number ≠ 0 := by
    rintro rfl
    rw [Int.natAbs_zero, Nat.zero_mul] at size
    omega
  have signs : direction = sign number :=
    sign_eq positive (Nat.two_pow_pos places) (named.trans (by norm_cast))
  have bits : 52 ≤ mantissa.log2 := (Nat.le_log2 positive.ne').mpr long
  rw [size, log2_mul_two_pow (Int.natAbs_pos.mpr other)] at bits
  have exact := roundWithAccuracy_eq (sign number) (Int.natAbs_pos.mpr other) small
    (show -1022 ≤ (0 : Int) by decide) (show 52 - number.natAbs.log2 ≤ places by omega)
  rw [Int.zero_sub, Int.add_zero] at exact
  rw [size, signs, exact, unpacked_of_ne other]

/-- A product that is a small integer is not rounded if a factor is a small integer. -/
theorem mul_unpacked {direction : Sign} {mantissa : Nat} {exponent : Int} (positive : 0 < mantissa)
    {factor product : Int} (other : factor ≠ 0) (factorSmall : IsSmall factor)
    (whole : scaled direction mantissa exponent * factor = product) (small : IsSmall product) :
    UnpackedFloat.mul Format.binary64 (.finite direction mantissa exponent positive)
      (unpacked factor) = unpacked product := by
  have long := (significand_bounds (Int.natAbs_pos.mpr other) factorSmall).1
  rw [unpacked_of_ne other]
  rw [← scaled_significand factor factorSmall, scaled_mul_scaled] at whole
  exact roundWithAccuracy_scaled (long.trans (Nat.le_mul_of_pos_left _ positive)) small whole

/-- Multiplication by one changes nothing. -/
theorem floatOf_mul_one {number : Int} (small : IsSmall number) :
    floatOf number * floatOf 1 = floatOf number := by
  have one : IsSmall 1 := by unfold IsSmall; decide
  change Float.ofModel (.pack (UnpackedFloat.mul Format.binary64 (floatOf number).toModel.unpack
    (floatOf 1).toModel.unpack)) = _
  rw [unpack_floatOf small, unpack_floatOf one]
  by_cases zero : number = 0
  · rw [zero]
    rfl
  · have named := scaled_significand number small
    rw [unpacked_of_ne zero, mul_unpacked _ one_ne_zero one (by rw [named, Int.cast_one, mul_one])
      small]
    rfl

theorem toFloat_eq {number : Nat} (small : number < 2 ^ 53) :
    number.toUInt64.toFloat = floatOf number := by
  have kept : number.toUInt64.toNat = number := by
    rw [Nat.toUInt64, UInt64.toNat_ofNat']
    omega
  have exact : UnpackedFloat.normalize Format.binary64 (number * 2 ^ 0) (-(0 : Nat)) .positive =
      unpacked number := normalize_eq 0 small
  rw [pow_zero, Int.mul_one] at exact
  change Float.ofModel (.pack (UnpackedFloat.normalize Format.binary64 number.toUInt64.toNat 0
    .positive)) = _
  rw [kept]
  exact congrArg (fun value => Float.ofModel (.pack value)) exact

/-- The float of a small natural number, read as a literal. -/
theorem ofNat_eq {number : Nat} (small : number < 2 ^ 53) :
    Float.ofNat number = floatOf number := by
  have power : Float.ofBits 0x3FF0000000000000 = floatOf 1 := rfl
  have product : Float.ofNat number =
      number.toUInt64.toFloat * Float.ofBits 0x3FF0000000000000 := by
    unfold Float.ofNat
    change Float.ofScientific number false 0 = _
    unfold Float.ofScientific
    rw [dif_pos ⟨small, by decide⟩]
    rfl
  rw [product, toFloat_eq small, power]
  exact floatOf_mul_one small

theorem neg_floatOf {number : Int} (small : IsSmall number) (other : number ≠ 0) :
    -floatOf number = floatOf (-number) := by
  change Float.ofModel (.pack (floatOf number).toModel.unpack.neg) = _
  rw [unpack_floatOf small, neg_unpacked other]
  rfl

/-- The float of a small integer. -/
theorem ofInt_eq {number : Int} (small : IsSmall number) : Float.ofInt number = floatOf number := by
  cases number with
  | ofNat size => exact ofNat_eq small
  | negSucc size =>
      have positive : IsSmall (size + 1 : Nat) := small
      have magnitude : Float.ofNat (size + 1) = floatOf (size + 1 : Nat) := ofNat_eq small
      change -Float.ofNat (size + 1) = _
      rw [magnitude, neg_floatOf positive (by omega)]
      rfl

/-- What a finite unpacked number stands for. -/
inductive Stands : UnpackedFloat → Rat → Prop
  | zero (sign : Sign) : Stands (.zero sign) 0
  | finite (sign : Sign) (mantissa : Nat) (exponent : Int) (positive : 0 < mantissa) :
      Stands (.finite sign mantissa exponent positive) (scaled sign mantissa exponent)

theorem stands_unpacked {number : Int} (small : IsSmall number) :
    Stands (unpacked number) number := by
  by_cases zero : number = 0
  · subst zero
    exact Int.cast_zero (R := Rat) ▸ .zero .positive
  · rw [unpacked_of_ne zero, ← scaled_significand number small]
    exact .finite ..

end SmallInteger

end FontCompiler
