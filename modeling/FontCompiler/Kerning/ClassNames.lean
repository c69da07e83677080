import FontCompiler.Collection.Sorting
import FontCompiler.Feature.File
import FontCompiler.Feature.Statement
import FontCompiler.Kerning.Groups
import FontCompiler.Unicode.Script

/-!
# Names of kerning classes

A group in a kerning rule is written as a named class. The same members on the
same side in the same script share one name, which is made from the side, the
script and the group that came first.
-/

namespace FontCompiler

/-- What a class of kerning stands for. -/
structure KernClassKey where
  position : KernPosition
  script : Script
  members : SortedSet GlyphName
  deriving DecidableEq

/-- The classes named so far. -/
structure KernClassNames where
  taken : SortedSet String
  named : List (KernClassKey × String) := []

namespace KernPosition

def digit : KernPosition → String
  | first => "1"
  | second => "2"

end KernPosition

namespace KernClassNames

/-- The selector of a side, and the names after naming its class. -/
def select (position : KernPosition) (script : Script) (names : KernClassNames) :
    KernSide → PairSide × KernClassNames
  | .glyph name => (.glyph name, names)
  | .group group members =>
      let key : KernClassKey := ⟨position, script, members⟩
      match names.named.find? (fun row => decide (row.1 = key)) with
      | some row => (.named row.2, names)
      | none =>
          let name := freshClassName
            ("kern" ++ position.digit ++ "." ++ script.tag.text ++ "." ++ group) names.taken
          (.named name, ⟨names.taken.insert name, names.named ++ [(key, name)]⟩)

def take (name : String) (names : KernClassNames) : KernClassNames :=
  { names with taken := names.taken.insert name }

def definitions (names : KernClassNames) : List Statement :=
  (sortBy (fun row other => (compare row.2 other.2).isLE) names.named).map fun row =>
    .glyphClass ⟨row.2, row.1.members.toList⟩

end KernClassNames

end FontCompiler
