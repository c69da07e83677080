/-!
# Lines and fields of a text

A line ends at a line feed, which a single carriage return may precede. What
follows the last line feed is a line unless it is empty. The fields of a line
are separated by characters with the White_Space property.
-/

namespace FontCompiler

/-- A finished line without the carriage return of its ending. -/
def dropReturn (line : List Char) : List Char :=
  if line.getLast? = some '\r' then line.dropLast else line

/-- The lines of a text after the characters of a line already begun, latest first. -/
def linesFrom : List Char → List Char → List (List Char)
  | [], [] => []
  | begun, [] => [begun.reverse]
  | begun, char :: rest =>
      if char = '\n' then dropReturn begun.reverse :: linesFrom [] rest
      else linesFrom (char :: begun) rest

def lines (text : List Char) : List (List Char) := linesFrom [] text

/-- The ranges of characters with the White_Space property. -/
def blankRanges : List (Nat × Nat) :=
  [(0x0009, 0x000D), (0x0020, 0x0020), (0x0085, 0x0085), (0x00A0, 0x00A0), (0x1680, 0x1680),
    (0x2000, 0x200A), (0x2028, 0x2029), (0x202F, 0x202F), (0x205F, 0x205F), (0x3000, 0x3000)]

def isBlank (char : Char) : Bool :=
  blankRanges.any fun range => decide (range.1 ≤ char.toNat) && decide (char.toNat ≤ range.2)

/-- The longest runs of characters that are not white space. -/
def fieldsOf : List Char → List Char → List (List Char)
  | [], [] => []
  | pending, [] => [pending.reverse]
  | pending, char :: rest =>
      if isBlank char then
        if pending.isEmpty then fieldsOf [] rest else pending.reverse :: fieldsOf [] rest
      else fieldsOf (char :: pending) rest

def fields (line : List Char) : List (List Char) := fieldsOf [] line

end FontCompiler
