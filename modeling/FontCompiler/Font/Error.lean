import FontCompiler.Names
import FontCompiler.Unicode.CodeRange

/-!
# Faults of a font

Faults that keep a table of the font from being built, and the wish for a glyph
that the font does not have.
-/

namespace FontCompiler

inductive FontError where
  /-- Two glyphs stand for one codepoint. -/
  | duplicateCodepoint (codepoint : Codepoint) (first second : GlyphName)
  /-- A chain of references leads from a glyph back to it. -/
  | componentCycle (glyph : GlyphName) (cycle : List GlyphName)
  | unknownGlyph (name : GlyphName)
  deriving DecidableEq, Repr

namespace FontError

/-- Whether the font's data contradict themselves. -/
def isInvalidData : FontError → Bool
  | duplicateCodepoint _ _ _ => true
  | componentCycle _ _ => true
  | unknownGlyph _ => false

def message : FontError → String
  | duplicateCodepoint codepoint first second =>
      "invalid font data: " ++ codepoint.text ++ " is mapped to both '" ++ first ++ "' and '" ++
        second ++ "'"
  | componentCycle glyph cycle =>
      "invalid font data: glyph '" ++ glyph ++ "' has a cyclic component reference (" ++
        " -> ".intercalate cycle ++ ")"
  | unknownGlyph name => "glyph '" ++ name ++ "' not found"

end FontError

end FontCompiler
