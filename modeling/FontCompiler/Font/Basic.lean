import FontCompiler.Collection.KeyedList
import FontCompiler.Collection.SortedSet
import FontCompiler.Font.Category
import FontCompiler.Glyph.Basic

/-!
# Fonts and their views

A font is edited record by record. The compilers read it through a view, which
shows either the whole font or the font without the glyphs that are not
exported. References to glyphs are drawn from the whole font in both. Compiled
glyphs stand in one order: first the glyph for missing characters, then the
declared order, then all remaining glyphs by name.
-/

namespace FontCompiler

/-- Glyphs with distinct names. -/
abbrev GlyphTable (α : Type) := KeyedList (Glyph.name : Glyph α → GlyphName)

/-- Kerning values under pairs of names of glyphs or groups. -/
abbrev KerningTable (α : Type) := OrderedMap (String × String) α

/-- The listed members of each group. -/
abbrev GroupTable := OrderedMap String (List GlyphName)

abbrev CategoryTable := OrderedMap GlyphName GlyphCategory

structure Font (α : Type) where
  glyphs : GlyphTable α := ∅
  /-- The wanted glyph order, which may miss glyphs, repeat them or name others. -/
  declaredOrder : List GlyphName := []
  kerning : KerningTable α := ∅
  groups : GroupTable := ∅
  categories : CategoryTable := ∅
  /-- The glyphs that are not exported. -/
  hidden : List GlyphName := []

/-- What the compilers read of a font. -/
structure FontView (α : Type) where
  glyphs : GlyphTable α
  /-- The glyphs that references can draw. -/
  parts : GlyphTable α
  declaredOrder : List GlyphName
  kerning : KerningTable α
  groups : GroupTable
  categories : CategoryTable

namespace Font

variable {α : Type}

def empty : Font α := {}

/-- Add a glyph, or put it in the place of the glyph with its name. -/
def addGlyph (glyph : Glyph α) (font : Font α) : Font α :=
  { font with glyphs := font.glyphs.put glyph }

def setWidth (name : GlyphName) (width : α) (font : Font α) : Font α :=
  { font with
    glyphs := font.glyphs.map
      (fun glyph => if glyph.name = name then { glyph with width := width } else glyph)
      (fun glyph => by split <;> rfl) }

def setOrder (order : List GlyphName) (font : Font α) : Font α :=
  { font with declaredOrder := order }

def setKerning (first second : String) (value : α) (font : Font α) : Font α :=
  { font with kerning := font.kerning.put ((first, second), value) }

def setGroup (name : String) (members : List GlyphName) (font : Font α) : Font α :=
  { font with groups := font.groups.put (name, members) }

def setCategory (glyph : GlyphName) (category : GlyphCategory) (font : Font α) : Font α :=
  { font with categories := font.categories.put (glyph, category) }

def setHidden (names : List GlyphName) (font : Font α) : Font α :=
  { font with hidden := names }

def whole (font : Font α) : FontView α where
  glyphs := font.glyphs
  parts := font.glyphs
  declaredOrder := font.declaredOrder
  kerning := font.kerning
  groups := font.groups
  categories := font.categories

def shows (font : Font α) (name : String) : Bool := !font.hidden.contains name

/-- The view without hidden glyphs. They leave the glyph set, the order, the
groups and the categories, and take along the kerning pairs that name them. -/
def exported (font : Font α) : FontView α where
  glyphs := font.glyphs.filter fun glyph => font.shows glyph.name
  parts := font.glyphs
  declaredOrder := font.declaredOrder.filter font.shows
  kerning := font.kerning.filter fun entry => font.shows entry.1.1 && font.shows entry.1.2
  groups := font.groups.map (fun entry => (entry.1, entry.2.filter font.shows)) fun _ => rfl
  categories := font.categories.filter fun entry => font.shows entry.1

end Font

namespace FontView

variable {α : Type}

def glyph? (view : FontView α) (name : GlyphName) : Option (Glyph α) := view.glyphs.find? name

def contains (view : FontView α) (name : String) : Bool := view.glyphs.contains name

/-- The glyph that a reference to a name draws. -/
def part? (view : FontView α) (name : GlyphName) : Option (Glyph α) := view.parts.find? name

/-- The declared names of glyphs other than the first one, each once. -/
def declaredGlyphs (view : FontView α) : List GlyphName :=
  (view.declaredOrder.filter fun name => view.contains name && name != notdef).eraseDups

/-- The names that the declared order does not place, by name. -/
def undeclaredGlyphs (view : FontView α) : List GlyphName :=
  ((SortedSet.ofList view.glyphs.keys).filter fun name =>
    name != notdef && !view.declaredGlyphs.contains name).toList

/-- The names of all glyphs in the order in which they are compiled. -/
def glyphOrder (view : FontView α) : List GlyphName :=
  (if view.contains notdef then [notdef] else []) ++ view.declaredGlyphs ++ view.undeclaredGlyphs

def glyphsInOrder (view : FontView α) : List (Glyph α) := view.glyphOrder.filterMap view.glyph?

end FontView

end FontCompiler
