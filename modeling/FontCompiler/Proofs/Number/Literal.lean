import Mathlib.Data.List.TakeDrop
import Mathlib.Data.List.TakeWhile
import FontCompiler.Number.Literal

/-!
# Integers written in decimal

The text of an integer is its decimal digits, after a sign if it is negative. It
reads back as the literal of that integer.
-/

namespace FontCompiler

theorem toNat_of_isDigit {char : Char} (digit : char.isDigit = true) :
    48 ≤ char.toNat ∧ char.toNat ≤ 57 := by
  simpa [Char.isDigit, UInt32.le_iff_toNat_le] using digit

theorem toLower_of_isDigit {char : Char} (digit : char.isDigit = true) : char.toLower = char := by
  have below := (toNat_of_isDigit digit).2
  refine dif_neg fun upper => ?_
  have above : 65 ≤ char.toNat := upper.1
  omega

namespace Literal

theorem isDigit_toDigits {number : Nat} : ∀ char ∈ Nat.toDigits 10 number, char.isDigit = true :=
  fun _ listed => Nat.isDigit_of_mem_toDigits (by decide) (by decide) listed

theorem exists_toDigits_eq_cons (number : Nat) :
    ∃ digit rest, Nat.toDigits 10 number = digit :: rest ∧ digit.isDigit = true := by
  cases digits : Nat.toDigits 10 number with
  | nil => exact absurd digits Nat.toDigits_ne_nil
  | cons digit rest =>
      exact ⟨digit, rest, rfl, isDigit_toDigits digit (digits ▸ List.mem_cons_self)⟩

theorem digitsValue_toDigits (number : Nat) : digitsValue (Nat.toDigits 10 number) = number :=
  Nat.ofDigitChars_eq_foldl.symm.trans Nat.ofDigitChars_ten_toDigits

theorem splitDigits_toDigits (number : Nat) :
    splitDigits (Nat.toDigits 10 number) = (Nat.toDigits 10 number, []) := by
  rw [splitDigits, List.span_eq_takeWhile_dropWhile,
    List.takeWhile_eq_self_iff.mpr isDigit_toDigits, List.dropWhile_eq_nil_iff.mpr isDigit_toDigits]

theorem magnitude?_toDigits (number : Nat) :
    magnitude? (Nat.toDigits 10 number) = some (number, 0) := by
  unfold magnitude?
  rw [splitDigits_toDigits]
  simp [splitFraction, exponent?, Nat.toDigits_ne_nil, digitsValue_toDigits]

/-- Digits are the letters of no word. -/
theorem map_toLower_toDigits_ne (number : Nat) {letter : Char} (other : letter.isDigit = false)
    (word : List Char) : (Nat.toDigits 10 number).map Char.toLower ≠ letter :: word := by
  obtain ⟨digit, rest, digits, isDigit⟩ := exists_toDigits_eq_cons number
  rw [digits, List.map_cons, toLower_of_isDigit isDigit]
  intro same
  rw [(List.cons.inj same).1, other] at isDigit
  cases isDigit

theorem splitSign_toDigits (number : Nat) :
    splitSign (Nat.toDigits 10 number) = (false, Nat.toDigits 10 number) := by
  obtain ⟨digit, rest, digits, isDigit⟩ := exists_toDigits_eq_cons number
  rw [digits]
  unfold splitSign
  split
  · next same => cases same; cases isDigit
  · next same => cases same; cases isDigit
  · rfl

/-- A text of digits after a sign, if there is one, is read as a literal. -/
theorem ofChars?_of_splitSign {text : List Char} {negative : Bool} {number : Nat}
    (sign : splitSign text = (negative, Nat.toDigits 10 number)) :
    ofChars? text = some (.finite negative number 0) := by
  have notInfinite := map_toLower_toDigits_ne number (by decide : 'i'.isDigit = false)
  have isNumber := map_toLower_toDigits_ne number (by decide : 'n'.isDigit = false)
  unfold ofChars?
  rw [sign]
  simp only [notInfinite, isNumber, or_self, if_false, magnitude?_toDigits, Option.map_some]

/-- The text of an integer is its digits, after a sign if it is negative. -/
theorem toList_toString (number : Int) :
    (toString number).toList =
      (if number < 0 then ['-'] else []) ++ Nat.toDigits 10 number.natAbs := by
  rw [Int.toString_eq_repr, Int.repr_eq_if]
  by_cases negative : number < 0
  · have magnitude : (-number).toNat = number.natAbs := by omega
    rw [if_neg (Int.not_le.mpr negative), if_pos negative, String.toList_append, Nat.toList_repr,
      magnitude]
    rfl
  · have magnitude : number.toNat = number.natAbs := by omega
    rw [if_pos (Int.not_lt.mp negative), if_neg negative, Nat.toList_repr, magnitude]
    rfl

/-- The text of an integer is read as its literal. -/
theorem ofChars?_toString (number : Int) :
    ofChars? (toString number).toList =
      some (.finite (decide (number < 0)) number.natAbs 0) := by
  refine ofChars?_of_splitSign ?_
  rw [toList_toString]
  by_cases negative : number < 0
  · rw [if_pos negative, decide_eq_true negative]
    rfl
  · rw [if_neg negative, decide_eq_false negative]
    exact splitSign_toDigits _

end Literal

end FontCompiler
