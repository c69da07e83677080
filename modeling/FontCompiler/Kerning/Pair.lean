import FontCompiler.Collection.SortedSet
import FontCompiler.Collection.Sorting
import FontCompiler.Font.Basic

/-!
# Kerning pairs

A pair kerns a first side against a second, each a single glyph or a group. In
a list of pairs those of single glyphs come before those of groups, so that the
first pair that fits two glyphs is the one that names them most closely.
-/

namespace FontCompiler

/-- One side of a kerning pair. -/
inductive KernSide where
  | glyph (name : GlyphName)
  /-- A group under the name that it has without the mark of its side. -/
  | group (name : String) (members : SortedSet GlyphName)
  deriving DecidableEq

namespace KernSide

def isGroup : KernSide → Bool
  | glyph _ => false
  | group _ _ => true

def glyphs : KernSide → List GlyphName
  | glyph name => [name]
  | group _ members => members.toList

def name : KernSide → String
  | glyph name => name
  | group name _ => name

/-- Single glyphs come before groups; otherwise names and then members decide. -/
def order : KernSide → KernSide → Ordering
  | glyph first, glyph second => compare first second
  | glyph _, group _ _ => .lt
  | group _ _, glyph _ => .gt
  | group first members, group second others => (compare first second).then (compare members others)

def text : KernSide → String
  | glyph name => name
  | group name _ => "@" ++ name

end KernSide

structure KerningPair (α : Type) where
  first : KernSide
  second : KernSide
  value : α
  deriving DecidableEq

namespace KerningPair

variable {α : Type}

def sameSides (pair other : KerningPair α) : Bool :=
  decide (pair.first = other.first) && decide (pair.second = other.second)

def order [Coordinate α] (pair other : KerningPair α) : Ordering :=
  (compare pair.first.isGroup other.first.isGroup).then <|
  (compare pair.second.isGroup other.second.isGroup).then <|
  (compare pair.first.name other.first.name).then <|
  (compare pair.second.name other.second.name).then <|
  (pair.first.order other.first).then <|
  (pair.second.order other.second).then <|
  Coordinate.order pair.value other.value

def sort [Coordinate α] (pairs : List (KerningPair α)) : List (KerningPair α) :=
  sortBy (fun pair other => (pair.order other).isLE) pairs

def text [DecimalText α] (pair : KerningPair α) : String :=
  "<" ++ pair.first.text ++ " " ++ pair.second.text ++ " " ++ DecimalText.text pair.value ++ ">"

end KerningPair

end FontCompiler
