import FontCompiler.Feature.File
import FontCompiler.Layout.Writer

/-!
# The cursive feature

The exit of a glyph joins the entry of the next. Anchors with the same suffix
belong together, and each suffix has its own lookups. Glyphs of scripts that run
from left to right are joined in a lookup apart from all others, unless the
suffix says which way its lookup runs.
-/

namespace FontCompiler

structure CursiveWriter where
  overlap : OverlapPolicy := .skip
  deriving DecidableEq, Repr

/-- The direction that a suffix says, if it does. -/
def suffixDirection? (suffix : Option String) : Option Direction :=
  match suffix with
  | none => none
  | some text =>
      if text = "LTR" ∨ ".LTR".toList.isSuffixOf text.toList then some .leftToRight
      else if text = "RTL" ∨ ".RTL".toList.isSuffixOf text.toList then some .rightToLeft
      else none

section Anchors

variable {α : Type}

def Anchor.entrySuffix? (anchor : Anchor α) : Option (Option String) :=
  match anchor.role? with
  | some (.entry suffix) => some suffix
  | _ => none

def Anchor.exitSuffix? (anchor : Anchor α) : Option (Option String) :=
  match anchor.role? with
  | some (.exit suffix) => some suffix
  | _ => none

/-- The suffixes with an entry and an exit somewhere, the missing one first. -/
def joinedSuffixes (glyphs : List (Glyph α)) : List (Option String) :=
  let anchors := glyphs.flatMap Glyph.anchors
  let exits := anchors.filterMap Anchor.exitSuffix?
  ((SortedSet.ofList (anchors.filterMap Anchor.entrySuffix?)).filter
    fun suffix => exits.contains suffix).toList

variable [Coordinate α]

/-- The nearest whole place to an anchor. -/
def Anchor.roundedPlace (anchor : Anchor α) : Place :=
  ⟨Coordinate.toInt32 (Coordinate.roundHalfUp anchor.position.x),
    Coordinate.toInt32 (Coordinate.roundHalfUp anchor.position.y)⟩

def Glyph.entry? (suffix : Option String) (glyph : Glyph α) : Option Place :=
  (glyph.anchors.find? fun anchor => decide (anchor.entrySuffix? = some suffix)).map
    Anchor.roundedPlace

def Glyph.exit? (suffix : Option String) (glyph : Glyph α) : Option Place :=
  (glyph.anchors.find? fun anchor => decide (anchor.exitSuffix? = some suffix)).map
    Anchor.roundedPlace

def cursiveRule? (suffix : Option String) (glyph : Glyph α) : Option Statement :=
  match glyph.entry? suffix, glyph.exit? suffix with
  | none, none => none
  | entry, exit => some (.position (.cursive glyph.name entry exit))

/-- The lookup of some glyphs, if any of them has a rule. -/
def cursiveLookup (name : String) (suffix : Option String) (direction : Direction)
    (glyphs : List (Glyph α)) : List Statement :=
  let rules := glyphs.filterMap (cursiveRule? suffix)
  if rules.isEmpty then []
  else
    let flag : LookupFlag :=
      { rightToLeft := decide (direction ≠ .leftToRight), ignoreMarks := true }
    [.block .lookup name (.lookupFlag flag :: rules)]

/-- The lookups of a suffix, and the names taken after them. -/
def suffixLookups (glyphs : List (Glyph α)) (leftToRight : SortedSet GlyphName)
    (taken : SortedSet String) (suffix : Option String) : List Statement × SortedSet String :=
  let base := match suffix with
    | none => "curs"
    | some text => "curs_" ++ text
  let pinned := suffixDirection? suffix
  if pinned.isNone && !leftToRight.isEmpty then
    let first := freshName (base ++ "_ltr") taken
    let second := freshName (base ++ "_rtl") (taken.insert first)
    (cursiveLookup first suffix .leftToRight
        (glyphs.filter fun glyph => decide (glyph.name ∈ leftToRight)) ++
      cursiveLookup second suffix .rightToLeft
        (glyphs.filter fun glyph => decide (glyph.name ∉ leftToRight)),
      (taken.insert first).insert second)
  else
    let name := freshName base taken
    (cursiveLookup name suffix (pinned.getD .rightToLeft) glyphs, taken.insert name)

def cursiveLookups (glyphs : List (Glyph α)) (leftToRight : SortedSet GlyphName)
    (taken : SortedSet String) : List (Option String) → List Statement
  | [] => []
  | suffix :: rest =>
      let (lookups, further) := suffixLookups glyphs leftToRight taken suffix
      lookups ++ cursiveLookups glyphs leftToRight further rest

end Anchors

/-- The glyphs used in scripts that run from left to right. -/
def LayoutContext.leftToRightGlyphs {α : Type} (context : LayoutContext α) (file : FeatureFile) :
    SortedSet GlyphName :=
  (context.classesBy file fun codepoint => [context.characters.scriptDirection codepoint]).findD
    .leftToRight ∅

namespace CursiveWriter

def features : List String := ["curs"]

def writerName : String := "CursFeatureWriter"

variable {α : Type} [Coordinate α]

def write (writer : CursiveWriter) (context : LayoutContext α) (file : FeatureFile) : Written α :=
  let notices := existingFeatures writerName writer.overlap file features
  if (wantedFeatures writer.overlap file features).isEmpty then .unchanged file notices
  else
    let glyphs := context.view.glyphsInOrder
    let lookups := cursiveLookups glyphs (context.leftToRightGlyphs file) file.lookupNames
      (joinedSuffixes glyphs)
    .appending (if lookups.isEmpty then [] else [.block .feature "curs" lookups]) file notices

end CursiveWriter

end FontCompiler
