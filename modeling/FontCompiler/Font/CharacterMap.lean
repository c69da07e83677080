import FontCompiler.Collection.SortedMap
import FontCompiler.Font.Basic
import FontCompiler.Font.Error

/-!
# The character map

Each codepoint is mapped to the one glyph that lists it. Glyphs are visited in
glyph order, and the first codepoint met in a second glyph is a fault.
-/

namespace FontCompiler

abbrev CharacterMap := SortedMap Codepoint GlyphName

namespace CharacterMap

/-- Map a codepoint to a glyph, unless another glyph has it. -/
def assign (glyph : GlyphName) (map : CharacterMap) (codepoint : Codepoint) :
    Except FontError CharacterMap :=
  match map.find? codepoint with
  | none => .ok (map.insert codepoint glyph)
  | some owner =>
      if owner = glyph then .ok map
      else .error (.duplicateCodepoint codepoint owner glyph)

def assignAll {α : Type} (map : CharacterMap) (glyph : Glyph α) : Except FontError CharacterMap :=
  glyph.codepoints.foldlM (assign glyph.name) map

end CharacterMap

def FontView.characterMap {α : Type} (view : FontView α) : Except FontError CharacterMap :=
  view.glyphsInOrder.foldlM CharacterMap.assignAll (∅ : CharacterMap)

end FontCompiler
