/-!
# Tables of codepoint ranges

A table gives one value to every codepoint of a range. Its ranges stand in
increasing order and do not overlap, so the range of a codepoint is found by
halving the table.
-/

namespace FontCompiler

universe u

/-- A number assigned to a character. -/
abbrev Codepoint := Nat

namespace Codepoint

/-- The hexadecimal text, with at least four digits. -/
def text (codepoint : Codepoint) : String :=
  let digits := (Nat.toDigits 16 codepoint).map Char.toUpper
  "U+" ++ String.ofList (List.replicate (4 - digits.length) '0' ++ digits)

/-- The character, unless the number is a surrogate or beyond the last character. -/
def char? (codepoint : Codepoint) : Option Char :=
  if valid : codepoint.isValidChar then some (Char.ofNatAux codepoint valid) else none

end Codepoint

/-- A value for all codepoints from `first` to `last`. -/
structure CodeRange (ν : Type u) where
  first : Codepoint
  last : Codepoint
  value : ν

namespace CodeRange

variable {ν : Type u}

def covers (range : CodeRange ν) (codepoint : Codepoint) : Bool :=
  decide (range.first ≤ codepoint) && decide (codepoint ≤ range.last)

end CodeRange

/-- The first index between two bounds at which a test fails, when it never
holds again once it has failed. -/
def firstFailing {α : Type u} (entries : Array α) (test : α → Bool) (low high : Nat) : Nat :=
  if low < high then
    let middle := (low + high) / 2
    match entries[middle]? with
    | some entry =>
        if test entry then firstFailing entries test (middle + 1) high
        else firstFailing entries test low middle
    | none => low
  else low
termination_by high - low

/-- Ranges in increasing order that do not overlap. -/
abbrev CodeTable (ν : Type u) := Array (CodeRange ν)

/-- The value that the table gives to a codepoint, found by halving. -/
def CodeTable.value? {ν : Type u} (table : CodeTable ν) (codepoint : Codepoint) : Option ν :=
  let index := firstFailing table (fun range => decide (range.last < codepoint)) 0 table.size
  match table[index]? with
  | some range => if range.first ≤ codepoint then some range.value else none
  | none => none

end FontCompiler
