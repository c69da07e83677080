import FontCompiler.Glyph.Anchor
import FontCompiler.Glyph.Contour
import FontCompiler.Unicode.CodeRange

/-!
# Glyphs

A glyph holds contours, references to other glyphs, and anchors, besides its
advance and the codepoints it stands for.
-/

namespace FontCompiler

/-- A reference to another glyph, drawn under an affine map. -/
structure Component (α : Type) where
  base : GlyphName
  transform : Affine α
  deriving DecidableEq

structure Glyph (α : Type) where
  name : GlyphName
  width : α
  height : α
  codepoints : List Codepoint := []
  contours : List (Contour α) := []
  components : List (Component α) := []
  anchors : List (Anchor α) := []
  deriving DecidableEq

namespace Glyph

variable {α : Type} [Coordinate α]

def contourEvents (glyph : Glyph α) : List (OutlineEvent α) :=
  glyph.contours.flatMap Contour.events

/-- The events that draw the glyph: its contours, then its references. -/
def events (glyph : Glyph α) : List (OutlineEvent α) :=
  glyph.contourEvents ++ glyph.components.map fun part => .component part.base part.transform

end Glyph

end FontCompiler
