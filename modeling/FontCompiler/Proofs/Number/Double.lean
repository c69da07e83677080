import FontCompiler.Number.Double
import FontCompiler.Proofs.Number.SmallInteger

/-!
# Arithmetic at double precision is exact

A finite double stands for the rational number of its significand and exponent.
Doubles of small integers add, subtract and multiply to the doubles of the
results, and whole doubles are left alone by rounding.
-/

namespace FontCompiler

open Float.Model Float.Model.UnpackedFloat

namespace Double

open SmallInteger

/-- A double has the value that it was made from, where packing the value loses nothing. -/
theorem value_ofValue_pack {number : UnpackedFloat}
    (kept : UnpackedFloat.unpack Format.binary64 (UnpackedFloat.pack Format.binary64 number) =
      number) :
    (ofValue (.ofModel (.pack number))).value = .ofModel (.pack number) :=
  congrArg (fun same => Float.ofModel (.pack same)) kept

theorem value_ofValue_floatOf {number : Int} (small : IsSmall number) :
    (ofValue (floatOf number)).value = floatOf number :=
  value_ofValue_pack (unpack_pack small)

theorem rational?_finite (sign : Sign) (mantissa : Nat) (exponent : Int) :
    (if 0 ≤ exponent then (sign.apply mantissa * Nat.pow 2 exponent.toNat : Int)
      else mkRat (sign.apply mantissa) (Nat.pow 2 (-exponent).toNat) : Rat) =
        scaled sign mantissa exponent := by
  unfold scaled
  split
  · next whole =>
      obtain ⟨places, rfl⟩ := Int.eq_ofNat_of_zero_le whole
      simp
  · next fraction =>
      obtain ⟨places, rfl⟩ := Int.exists_eq_neg_ofNat (Int.le_of_lt (Int.not_le.mp fraction))
      rw [Int.neg_neg, Int.toNat_natCast, zpow_neg, zpow_natCast, Rat.mkRat_eq_div, div_eq_mul_inv,
        Nat.pow_eq]
      push_cast
      rfl

theorem rational?_eq_some_iff {number : Double} {value : Rat} :
    number.rational? = some value ↔ Stands number.value.toModel.unpack value := by
  unfold rational?
  cases number.value.toModel.unpack with
  | finite sign mantissa exponent positive =>
      dsimp only
      rw [rational?_finite, Option.some.injEq]
      constructor
      · rintro rfl
        exact .finite ..
      · intro stands
        cases stands
        rfl
  | zero sign =>
      simp only [Option.some.injEq]
      constructor
      · rintro rfl
        exact .zero sign
      · intro stands
        cases stands
        rfl
  | infinity sign =>
      constructor
      · intro same
        cases same
      · intro stands
        cases stands
  | notANumber =>
      constructor
      · intro same
        cases same
      · intro stands
        cases stands

theorem ofInt_eq_floatOf {number : Int} (small : IsSmall number) :
    (Coordinate.ofInt number : Double) = ofValue (floatOf number) :=
  congrArg ofValue (ofInt_eq small)

theorem rational?_floatOf {number : Int} (small : IsSmall number) :
    (ofValue (floatOf number)).rational? = some (number : Rat) := by
  rw [rational?_eq_some_iff, value_ofValue_floatOf small, unpack_floatOf small]
  exact stands_unpacked small

theorem rational?_ofInt {number : Int} (small : IsSmall number) :
    (Coordinate.ofInt number : Double).rational? = some (number : Rat) :=
  ofInt_eq_floatOf small ▸ rational?_floatOf small

theorem rational?_zero (sign : Sign) :
    (ofValue (.ofModel (.pack (.zero sign)))).rational? = some 0 := by
  rw [rational?_eq_some_iff, value_ofValue_pack (unpack_pack_zero sign)]
  change Stands (UnpackedFloat.unpack Format.binary64 (UnpackedFloat.pack Format.binary64 _)) 0
  rw [unpack_pack_zero]
  exact .zero sign

theorem rational?_mul_ofInt {number : Double} {value : Rat} {factor product : Int}
    (named : number.rational? = some value) (factorSmall : IsSmall factor)
    (whole : value * factor = product) (small : IsSmall product) :
    (number * Coordinate.ofInt factor).rational? = some (product : Rat) := by
  have unfolded : number * Coordinate.ofInt factor = ofValue (.ofModel (.pack
      (UnpackedFloat.mul Format.binary64 number.value.toModel.unpack (unpacked factor)))) := by
    rw [ofInt_eq_floatOf factorSmall, ← unpack_floatOf factorSmall]
    change ofValue (number.value * (ofValue (floatOf factor)).value) = _
    rw [value_ofValue_floatOf factorSmall]
    rfl
  rw [rational?_eq_some_iff] at named
  rw [unfolded]
  generalize number.value.toModel.unpack = unpackedNumber at named
  by_cases factorZero : factor = 0
  · obtain rfl : product = 0 := by
      rw [factorZero, Int.cast_zero, mul_zero] at whole
      exact_mod_cast whole.symm
    rw [factorZero, unpacked_zero]
    cases named with
    | zero sign => exact rational?_zero _
    | finite sign mantissa exponent positive => exact rational?_zero _
  · cases named with
    | zero sign =>
        obtain rfl : product = 0 := by
          rw [zero_mul] at whole
          exact_mod_cast whole.symm
        rw [unpacked_of_ne factorZero]
        exact rational?_zero _
    | finite sign mantissa exponent positive =>
        rw [mul_unpacked positive factorZero factorSmall whole small]
        exact rational?_floatOf small

theorem whole_roundAway {number : Double} {value : Int}
    (named : number.rational? = some (value : Rat)) : Coordinate.roundAway number = number := by
  change number.roundAway = number
  unfold roundAway
  rw [named]
  exact if_pos (Rat.den_intCast value)

theorem whole_truncate {number : Double} {value : Int}
    (named : number.rational? = some (value : Rat)) (small : IsSmall value) :
    Coordinate.truncate number = value := by
  change number.truncate = value
  unfold truncate
  rw [named]
  simp only [Rat.num_intCast, Rat.den_intCast, Int.natCast_one, Int.tdiv_one]
  unfold IsSmall at small
  exact clampWord_eq (by omega) (by omega)

theorem decimalWidth_le {number width : Nat} (small : number < 10 ^ width) :
    decimalWidth number ≤ width := by
  induction width generalizing number with
  | zero =>
      rw [decimalWidth, if_pos (Nat.lt_one_iff.mp small)]
  | succ width ih =>
      rw [decimalWidth]
      split
      · exact Nat.zero_le _
      · exact Nat.succ_le_succ (ih (Nat.div_lt_of_lt_mul (Nat.pow_succ' ▸ small)))

theorem ofLiteral?_integer {number : Int} (small : IsSmall number) :
    Coordinate.ofLiteral? (.finite (decide (number < 0)) number.natAbs 0) =
      some (Coordinate.ofInt number : Double) := by
  change some (ofLiteral (.finite (decide (number < 0)) number.natAbs 0)) = _
  rw [ofInt_eq_floatOf small]
  by_cases zero : number = 0
  · subst zero
    rfl
  · have width : decimalWidth number.natAbs ≤ 16 :=
      decimalWidth_le (Nat.lt_of_lt_of_le small (by decide))
    have magnitude : IsSmall (number.natAbs : Int) := by
      rw [IsSmall, Int.natAbs_natCast]
      exact small
    have literal : Float.ofScientific number.natAbs false 0 = floatOf number.natAbs :=
      ofNat_eq small
    have notSmaller : ¬ (number.natAbs = 0 ∨ (decimalWidth number.natAbs : Int) + 0 < -330) := by
      omega
    have notLarger : ¬ 310 < (decimalWidth number.natAbs : Int) + 0 := by omega
    simp only [ofLiteral]
    rw [if_neg notSmaller, if_neg notLarger, if_pos (Int.le_refl 0), Int.toNat_zero, literal]
    by_cases negative : number < 0
    · rw [if_pos (decide_eq_true negative), neg_floatOf magnitude (by omega)]
      congr 3
      omega
    · rw [if_neg (by simpa using negative)]
      congr 3
      omega

end Double

instance : ExactArithmetic Double where
  rational? := Double.rational?
  rational?_ofInt := Double.rational?_ofInt
  rational?_mul_ofInt := Double.rational?_mul_ofInt
  rational?_roundAway named _ := (Double.whole_roundAway named).symm ▸ named
  truncate_eq := Double.whole_truncate
  den_of_isWhole {number _} named whole := by
    change number.rational?.any (fun exact => exact.den == 1) = true at whole
    rw [named] at whole
    exact beq_iff_eq.mp whole
  ofInt_add firstSmall secondSmall small := by
    rw [Double.ofInt_eq_floatOf firstSmall, Double.ofInt_eq_floatOf secondSmall,
      Double.ofInt_eq_floatOf small, ← SmallInteger.floatOf_add firstSmall secondSmall small]
    exact congrArg₂ (fun first second => Double.ofValue (first + second))
      (Double.value_ofValue_floatOf firstSmall) (Double.value_ofValue_floatOf secondSmall)
  ofInt_sub firstSmall secondSmall small := by
    rw [Double.ofInt_eq_floatOf firstSmall, Double.ofInt_eq_floatOf secondSmall,
      Double.ofInt_eq_floatOf small, ← SmallInteger.floatOf_sub firstSmall secondSmall small]
    exact congrArg₂ (fun first second => Double.ofValue (first - second))
      (Double.value_ofValue_floatOf firstSmall) (Double.value_ofValue_floatOf secondSmall)
  ofLiteral?_integer := Double.ofLiteral?_integer

end FontCompiler
