import FontCompiler.Collection.SortedMap
import FontCompiler.Kerning.Pair
import FontCompiler.Unicode.Script

/-!
# Kerning by script

A pair is cut into parts whose sides each belong to one script. A part goes to
the script that its sides share; where one side belongs to a default script, the
part goes to the script of the other. Within a script the groups on first sides
are cut further, until any two of them have the same members or none in common.
-/

namespace FontCompiler

/-- The scripts with which each glyph is used. -/
abbrev ScriptsByGlyph := SortedMap GlyphName (SortedSet Script)

namespace ScriptsByGlyph

/-- The scripts of a glyph; a glyph of no script belongs to the common one. -/
def of (scripts : ScriptsByGlyph) (glyph : GlyphName) : SortedSet Script :=
  match scripts.find? glyph with
  | some known => if known.isEmpty then .singleton .common else known
  | none => .singleton .common

end ScriptsByGlyph

/-- The script in which glyphs of two scripts are kerned, if there is one. -/
def sharedScript? (first second : Script) : Option Script :=
  if first = second ∨ second.isDefault then some first
  else if first.isDefault then some second
  else none

def KernSide.byScript (scripts : ScriptsByGlyph) (side : KernSide) : SortedMap Script KernSide :=
  match side with
  | .glyph name => .tabulate (scripts.of name) fun _ => .glyph name
  | .group name members =>
      .tabulate (.ofList (members.toList.flatMap fun glyph => (scripts.of glyph).toList))
        fun script => .group name (members.filter fun glyph => decide (script ∈ scripts.of glyph))

/-- A part of a pair, with the script of each side. -/
structure ScriptPart (α : Type) where
  firstScript : Script
  secondScript : Script
  pair : KerningPair α
  deriving DecidableEq

namespace ScriptPart

variable {α : Type}

def ofPair (scripts : ScriptsByGlyph) (pair : KerningPair α) : List (ScriptPart α) :=
  (pair.first.byScript scripts).entries.flatMap fun first =>
    (pair.second.byScript scripts).entries.map fun second =>
      ⟨first.1, second.1, ⟨first.2, second.2, pair.value⟩⟩

def script? (part : ScriptPart α) : Option Script :=
  sharedScript? part.firstScript part.secondScript

def message [DecimalText α] (part : ScriptPart α) : String :=
  "Mixed script kerning pair " ++ part.pair.text ++ " ignored (" ++ part.firstScript.tag.text ++
    ", " ++ part.secondScript.tag.text ++ ")"

end ScriptPart

section Split

variable {α : Type}

/-- The pairs without those whose sides an earlier pair has. -/
def distinctSides : List (KerningPair α) → List (KerningPair α)
  | [] => []
  | pair :: rest => pair :: (distinctSides rest).filter fun other => !pair.sameSides other

/-- The member sets of groups on first sides, each once. -/
def firstGroups (pairs : List (KerningPair α)) : List (SortedSet GlyphName) :=
  (pairs.filterMap fun pair =>
    match pair.first with
    | .glyph _ => none
    | .group _ members => some members).eraseDups

/-- Which of several sets hold a glyph. -/
def signature (sets : List (SortedSet GlyphName)) (glyph : GlyphName) : List Bool :=
  sets.map fun set => decide (glyph ∈ set)

/-- The largest parts of a set that none of several sets cuts. -/
def fragments (sets : List (SortedSet GlyphName)) (members : SortedSet GlyphName) :
    List (SortedSet GlyphName) :=
  (members.toList.map (signature sets)).eraseDups.map fun shared =>
    members.filter fun glyph => decide (signature sets glyph = shared)

/-- The pairs with every group on a first side cut into its fragments. -/
def disjointFirsts (pairs : List (KerningPair α)) : List (KerningPair α) :=
  let sets := firstGroups pairs
  pairs.flatMap fun pair =>
    match pair.first with
    | .glyph _ => [pair]
    | .group name members =>
        (fragments sets members).map fun fragment => { pair with first := .group name fragment }

variable [Coordinate α]

def scriptParts (scripts : ScriptsByGlyph) (pairs : List (KerningPair α)) : List (ScriptPart α) :=
  pairs.flatMap (ScriptPart.ofPair scripts)

/-- The pairs of a script among the given parts, in the order of a lookup. -/
def scriptBucket (parts : List (ScriptPart α)) (script : Script) : List (KerningPair α) :=
  KerningPair.sort (disjointFirsts (distinctSides
    ((parts.filter fun part => decide (part.script? = some script)).map ScriptPart.pair)))

def splitByScript (scripts : ScriptsByGlyph) (pairs : List (KerningPair α)) :
    SortedMap Script (List (KerningPair α)) :=
  let parts := scriptParts scripts pairs
  .tabulate (.ofList (parts.filterMap ScriptPart.script?)) (scriptBucket parts)

/-- The parts between two scripts that are not kerned together. -/
def mixedParts (scripts : ScriptsByGlyph) (pairs : List (KerningPair α)) : List (ScriptPart α) :=
  (scriptParts scripts pairs).filter fun part => part.script?.isNone

end Split

end FontCompiler
