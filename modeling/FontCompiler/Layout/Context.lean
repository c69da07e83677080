import FontCompiler.Feature.File
import FontCompiler.Substitution.Closure
import FontCompiler.Unicode.CharacterData

/-!
# What writers know

The writers of features share a view of the font, the properties of characters,
and the character map. They see glyphs by class: by the classes of their
codepoints and by the layout classes that the feature file or the font assigns.
-/

namespace FontCompiler

/-- What the writers of features share. -/
structure LayoutContext (α : Type) where
  view : FontView α
  characters : CharacterData
  map : CharacterMap

structure GlyphClasses where
  base : SortedSet GlyphName
  ligature : SortedSet GlyphName
  mark : SortedSet GlyphName
  component : SortedSet GlyphName
  deriving DecidableEq

namespace GlyphClasses

def ofLists (lists : GlyphClassLists) : GlyphClasses :=
  ⟨.ofList lists.base, .ofList lists.ligature, .ofList lists.mark, .ofList lists.component⟩

def ofCategory (categories : CategoryTable) (category : GlyphCategory) : SortedSet GlyphName :=
  .ofList ((categories.entries.filter fun entry => decide (entry.2 = category)).map Prod.fst)

def ofCategories (categories : CategoryTable) : GlyphClasses :=
  ⟨ofCategory categories .base, ofCategory categories .ligature, ofCategory categories .mark,
    ofCategory categories .component⟩

end GlyphClasses

namespace LayoutContext

variable {α : Type}

/-- The context of a view, unless two glyphs stand for one codepoint. -/
def ofView (view : FontView α) (characters : CharacterData) : Except FontError (LayoutContext α) :=
  view.characterMap.map fun map => ⟨view, characters, map⟩

/-- The layout classes of the feature file, or else those of the font, if there are any. -/
def glyphClasses? (context : LayoutContext α) (file : FeatureFile) : Option GlyphClasses :=
  match file.glyphClassLists? with
  | some lists => some (.ofLists lists)
  | none =>
      if context.view.categories.isEmpty then none
      else some (.ofCategories context.view.categories)

/-- The closed classes of glyphs under the keys of their codepoints. -/
def classesBy {κ : Type} [Ord κ] [DecidableEq κ] [Std.TransOrd κ] (context : LayoutContext α)
    (file : FeatureFile) (classes : Codepoint → List κ) : SortedMap κ (SortedSet GlyphName) :=
  closedClasses classes context.map file.substitutions

end LayoutContext

end FontCompiler
