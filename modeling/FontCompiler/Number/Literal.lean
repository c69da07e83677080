/-!
# Decimal number literals

A literal is an optional sign before digits with an optional point and an
optional exponent, or before a word for infinity or for no number. At least one
digit stands before or after the point, letter case is ignored, and nothing may
follow.
-/

namespace FontCompiler

/-- What a number literal spells. -/
inductive Literal where
  /-- The number with this sign and magnitude `digits * 10 ^ exponent`. -/
  | finite (negative : Bool) (digits : Nat) (exponent : Int)
  | infinite (negative : Bool)
  | notNumber
  deriving DecidableEq, Repr

namespace Literal

def digitsValue (digits : List Char) : Nat :=
  digits.foldl (fun value digit => 10 * value + (digit.toNat - '0'.toNat)) 0

/-- An optional sign, and what follows it. -/
def splitSign : List Char → Bool × List Char
  | '+' :: rest => (false, rest)
  | '-' :: rest => (true, rest)
  | rest => (false, rest)

/-- The digits up to the first other character, and what follows them. -/
def splitDigits (text : List Char) : List Char × List Char :=
  text.span Char.isDigit

/-- The digits after a point, if a point comes next, and what follows them. -/
def splitFraction : List Char → List Char × List Char
  | '.' :: rest => splitDigits rest
  | rest => ([], rest)

/-- The exponent that makes up a whole text, which may be empty. -/
def exponent? : List Char → Option Int
  | [] => some 0
  | mark :: rest =>
      if mark = 'e' ∨ mark = 'E' then
        let (negative, unsigned) := splitSign rest
        let (digits, remaining) := splitDigits unsigned
        if digits.isEmpty || !remaining.isEmpty then none
        else
          let size : Int := digitsValue digits
          some (if negative then -size else size)
      else none

/-- The number that makes up a whole unsigned text. -/
def magnitude? (text : List Char) : Option (Nat × Int) :=
  let (whole, afterWhole) := splitDigits text
  let (fraction, afterFraction) := splitFraction afterWhole
  if whole.isEmpty && fraction.isEmpty then none
  else (exponent? afterFraction).map fun exponent =>
    (digitsValue (whole ++ fraction), exponent - fraction.length)

def ofChars? (text : List Char) : Option Literal :=
  let (negative, unsigned) := splitSign text
  let word := unsigned.map Char.toLower
  if word = ['i', 'n', 'f'] ∨ word = ['i', 'n', 'f', 'i', 'n', 'i', 't', 'y'] then
    some (.infinite negative)
  else if word = ['n', 'a', 'n'] then some .notNumber
  else (magnitude? unsigned).map fun number => .finite negative number.1 number.2

end Literal

end FontCompiler
