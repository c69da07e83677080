import Mathlib.Algebra.Group.Nat.Defs
import Mathlib.Data.Nat.Basic
import FontCompiler.Names

/-!
# Texts are ordered by their bytes

In UTF-8 a character has a lead byte, which tells how many continuation bytes follow, and these
hold the digits of the character at base 64. A larger character has a larger lead byte, or the
same one and then a larger digit. So texts compared by their characters are compared by their
bytes.
-/

namespace FontCompiler

/-- The last digits of a number at base 64, each in a continuation byte. -/
def continuationBytes (number : Nat) : Nat → List UInt8
  | 0 => []
  | count + 1 => UInt8.ofNat (number / 64 ^ count % 64 + 128) :: continuationBytes number count

/-- How many continuation bytes a character has. -/
def continuationCount (number : Nat) : Nat :=
  if number ≤ 127 then 0 else if number ≤ 2047 then 1 else if number ≤ 65535 then 2 else 3

/-- The lead byte of a character, as a number: what the continuation bytes leave, above a mark for
their number. -/
def leadByte (number : Nat) : Nat :=
  if number ≤ 127 then number
  else if number ≤ 2047 then number / 64 + 192
  else if number ≤ 65535 then number / 4096 + 224
  else number / 262144 + 240

theorem toNat_lt_of_char (char : Char) : char.val.toNat < 1114112 := by
  have valid := char.valid
  simp only [UInt32.isValidChar, Nat.isValidChar] at valid
  omega

theorem utf8EncodeChar_eq (char : Char) : String.utf8EncodeChar char =
    UInt8.ofNat (leadByte char.val.toNat) ::
      continuationBytes char.val.toNat (continuationCount char.val.toNat) := by
  have bounded := toNat_lt_of_char char
  unfold String.utf8EncodeChar leadByte continuationCount
  generalize char.val.toNat = number at bounded
  dsimp only
  split_ifs
  · simp [continuationBytes]
  · have small : number / 64 % 32 = number / 64 := by omega
    simp [continuationBytes, small]
  · have small : number / 4096 % 16 = number / 4096 := by omega
    simp [continuationBytes, small]
  · have small : number / 262144 % 8 = number / 262144 := by omega
    simp [continuationBytes, small]

theorem ofNat_lt_ofNat {number other : Nat} (less : number < other) (small : other < 256) :
    UInt8.ofNat number < UInt8.ofNat other := by
  rw [UInt8.lt_iff_toNat_lt, UInt8.toNat_ofNat', UInt8.toNat_ofNat']
  omega

/-- Of two numbers that agree above their last digits, the digits of the smaller come first. -/
theorem continuationBytes_lt {number other count : Nat} (less : number < other)
    (same : number / 64 ^ count = other / 64 ^ count) (rest later : List UInt8) :
    continuationBytes number count ++ rest < continuationBytes other count ++ later := by
  induction count with
  | zero =>
      rw [pow_zero, Nat.div_one, Nat.div_one] at same
      omega
  | succ count ih =>
      rw [pow_succ, ← Nat.div_div_eq_div_mul, ← Nat.div_div_eq_div_mul] at same
      rw [continuationBytes, continuationBytes, List.cons_append, List.cons_append,
        List.cons_lt_cons_iff]
      by_cases equal : number / 64 ^ count = other / 64 ^ count
      · exact .inr ⟨by rw [equal], ih equal⟩
      · have below : number / 64 ^ count ≤ other / 64 ^ count :=
          Nat.div_le_div_right (Nat.le_of_lt less)
        exact .inl (ofNat_lt_ofNat (by omega) (by omega))

/-- A larger character has a larger lead byte, or as many continuation bytes after the same one. -/
theorem leadByte_lt_or {number other : Nat} (less : number < other) (bounded : other < 1114112) :
    leadByte number < leadByte other ∨
      leadByte number = leadByte other ∧ continuationCount number = continuationCount other ∧
        number / 64 ^ continuationCount number = other / 64 ^ continuationCount number := by
  unfold leadByte continuationCount
  split_ifs <;> omega

theorem leadByte_lt_256 {number : Nat} (bounded : number < 1114112) : leadByte number < 256 := by
  unfold leadByte
  split_ifs <;> omega

theorem utf8EncodeChar_lt {char other : Char} (less : char < other) (rest later : List UInt8) :
    String.utf8EncodeChar char ++ rest < String.utf8EncodeChar other ++ later := by
  have bounded := toNat_lt_of_char other
  have numbers : char.val.toNat < other.val.toNat := less
  rw [utf8EncodeChar_eq, utf8EncodeChar_eq, List.cons_append, List.cons_append,
    List.cons_lt_cons_iff]
  rcases leadByte_lt_or numbers bounded with below | ⟨lead, count, same⟩
  · exact .inl (ofNat_lt_ofNat below (leadByte_lt_256 bounded))
  · rw [lead, ← count]
    exact .inr ⟨rfl, continuationBytes_lt numbers same rest later⟩

theorem flatMap_utf8EncodeChar_lt {chars others : List Char} (less : chars < others) :
    chars.flatMap String.utf8EncodeChar < others.flatMap String.utf8EncodeChar := by
  induction chars generalizing others with
  | nil =>
      cases others with
      | nil => exact absurd less (List.lt_irrefl [])
      | cons other others =>
          rw [List.flatMap_cons, utf8EncodeChar_eq]
          exact List.nil_lt_cons _ _
  | cons char chars ih =>
      cases others with
      | nil => exact absurd less (List.not_lt_nil _)
      | cons other others =>
          rw [List.flatMap_cons, List.flatMap_cons]
          rcases List.cons_lt_cons_iff.mp less with below | ⟨rfl, tail⟩
          · exact utf8EncodeChar_lt below _ _
          · exact List.append_left_lt (ih tail)

def textBytes (text : String) : List UInt8 := text.toUTF8.data.toList

theorem textBytes_eq (text : String) :
    textBytes text = text.toList.flatMap String.utf8EncodeChar := by
  unfold textBytes
  rw [String.toUTF8, ← String.utf8Encode_toList, List.utf8Encode, List.toList_data_toByteArray]

/-- Texts in increasing order have increasing bytes. -/
theorem textBytes_lt {text other : String} (less : compare text other = .lt) :
    textBytes text < textBytes other := by
  rw [textBytes_eq, textBytes_eq]
  exact flatMap_utf8EncodeChar_lt (String.lt_iff.mp (compareOfLessAndEq_eq_lt.mp less))

end FontCompiler
