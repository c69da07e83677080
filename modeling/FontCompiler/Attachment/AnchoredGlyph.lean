import FontCompiler.Layout.Writer
import FontCompiler.Number.Coordinate

/-!
# Glyphs that attach

A glyph takes part in attachment when all its anchors are named and, where
layout classes are known, it is a base, a ligature or a mark. A glyph counts as
a mark when it has a mark anchor and no class says otherwise.
-/

namespace FontCompiler

/-- A glyph with its anchors in order, placed on the grid. -/
structure AnchoredGlyph where
  glyph : GlyphName
  anchors : List (String × Place)
  isMark : Bool
  deriving DecidableEq, Repr

namespace AnchoredGlyph

def place? (anchored : AnchoredGlyph) (name : String) : Option Place :=
  (anchored.anchors.find? fun anchor => decide (anchor.1 = name)).map Prod.snd

end AnchoredGlyph

def GlyphClasses.mayAttach (classes : Option GlyphClasses) (glyph : GlyphName) : Bool :=
  classes.all fun known =>
    decide (glyph ∈ known.base) || decide (glyph ∈ known.ligature) || decide (glyph ∈ known.mark)

def GlyphClasses.mayBeMark (classes : Option GlyphClasses) (glyph : GlyphName) : Bool :=
  classes.all fun known => decide (glyph ∈ known.mark)

section Anchored

variable {α : Type}

def Glyph.hasUnnamedAnchor (glyph : Glyph α) : Bool :=
  glyph.anchors.any fun anchor => anchor.name?.isNone

/-- Whether an anchor is one by which a mark attaches. -/
def Anchor.isMarkAnchor (anchor : Anchor α) : Bool :=
  match anchor.role? with
  | some (.mark _) => true
  | _ => false

/-- The names among a list that stand there a second time, at each further occurrence. -/
def furtherOccurrences (before : List String) : List String → List String
  | [] => []
  | name :: rest =>
      if before.contains name then name :: furtherOccurrences before rest
      else furtherOccurrences (name :: before) rest

def anchorNotices (classes : Option GlyphClasses) (glyph : Glyph α) : List (Notice α) :=
  if !GlyphClasses.mayAttach classes glyph.name then []
  else if glyph.hasUnnamedAnchor then [.unnamedAnchor glyph.name]
  else (furtherOccurrences [] (glyph.anchors.filterMap Anchor.name?)).map
    (Notice.repeatedAnchor glyph.name)

variable [Coordinate α]

def placedAnchor? (step : Nat) (anchor : Anchor α) : Option (String × Place) :=
  anchor.name?.map fun name =>
    (name, ⟨multipleBelow anchor.position.x step, multipleBelow anchor.position.y step⟩)

/-- The glyph with its anchors, if it takes part in attachment. -/
def anchoredGlyph? (step : Nat) (classes : Option GlyphClasses) (glyph : Glyph α) :
    Option AnchoredGlyph :=
  if !GlyphClasses.mayAttach classes glyph.name || glyph.hasUnnamedAnchor ||
      glyph.anchors.isEmpty then none
  else some {
    glyph := glyph.name
    anchors := glyph.anchors.filterMap (placedAnchor? step)
    isMark := glyph.anchors.any Anchor.isMarkAnchor && GlyphClasses.mayBeMark classes glyph.name }

end Anchored

end FontCompiler
