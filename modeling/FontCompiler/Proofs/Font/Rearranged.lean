import FontCompiler.Font.CharacterMap
import FontCompiler.Layout.Context
import FontCompiler.Layout.DefinitionWriter
import FontCompiler.Proofs.Collection.Sorting
import FontCompiler.Proofs.Font.GlyphOrder

/-!
# Fonts filled in another order

Fonts that hold the same glyphs, kerning and categories may hold them in different
orders. What is looked up under a name is the same in both, and so is what follows
the glyph order.
-/

namespace FontCompiler

namespace KeyedList

variable {κ ν : Type} {key : ν → κ} {table other : KeyedList key}

/-- Whether two tables hold the same records. -/
def Rearranged (table other : KeyedList key) : Prop := table.entries.Perm other.entries

namespace Rearranged

variable (same : table.Rearranged other)
include same

theorem filter (test : ν → Bool) : (table.filter test).Rearranged (other.filter test) :=
  List.Perm.filter test same

theorem isEmpty_eq : table.isEmpty = other.isEmpty := List.Perm.isEmpty_eq same

theorem mem_keys_iff {wanted : κ} : wanted ∈ table.keys ↔ wanted ∈ other.keys :=
  (same.map key).mem_iff

variable [DecidableEq κ]

theorem find?_eq (wanted : κ) : table.find? wanted = other.find? wanted := by
  refine Option.ext fun entry => ?_
  rw [find?_eq_some_iff, find?_eq_some_iff, same.mem_iff]

theorem contains_eq (wanted : κ) : table.contains wanted = other.contains wanted := by
  rw [contains, contains, same.find?_eq]

end Rearranged

def reverse (table : KeyedList key) : KeyedList key :=
  ⟨table.entries.reverse,
    ((List.reverse_perm table.entries).map key).nodup_iff.mpr table.distinct⟩

theorem rearranged_reverse (table : KeyedList key) : table.Rearranged table.reverse :=
  (List.reverse_perm table.entries).symm

end KeyedList

theorem OrderedMap.get?_eq_of_rearranged {κ ν : Type} [DecidableEq κ] {table other : OrderedMap κ ν}
    (same : table.Rearranged other) (wanted : κ) : table.get? wanted = other.get? wanted := by
  rw [get?, get?, same.find?_eq]

section Fonts

variable {α : Type}

/-- Whether two fonts differ at most in the order in which they hold glyphs, kerning
and categories. -/
structure Font.Rearranged (font other : Font α) : Prop where
  glyphs : font.glyphs.Rearranged other.glyphs
  kerning : font.kerning.Rearranged other.kerning
  categories : font.categories.Rearranged other.categories
  declaredOrder : font.declaredOrder = other.declaredOrder
  groups : font.groups = other.groups
  hidden : font.hidden = other.hidden

/-- Whether two views differ at most in the order in which they hold glyphs, kerning
and categories. -/
structure FontView.Rearranged (view other : FontView α) : Prop where
  glyphs : view.glyphs.Rearranged other.glyphs
  kerning : view.kerning.Rearranged other.kerning
  categories : view.categories.Rearranged other.categories
  declaredOrder : view.declaredOrder = other.declaredOrder
  groups : view.groups = other.groups

theorem Font.Rearranged.whole {font other : Font α} (same : font.Rearranged other) :
    font.whole.Rearranged other.whole :=
  ⟨same.glyphs, same.kerning, same.categories, same.declaredOrder, same.groups⟩

theorem Font.Rearranged.exported {font other : Font α} (same : font.Rearranged other) :
    font.exported.Rearranged other.exported := by
  have shows : font.shows = other.shows := funext fun name => by
    rw [Font.shows, Font.shows, same.hidden]
  unfold Font.exported
  rw [shows, same.declaredOrder, same.groups]
  exact ⟨same.glyphs.filter _, same.kerning.filter _, same.categories.filter _, rfl, rfl⟩

namespace FontView.Rearranged

variable {view other : FontView α} (same : view.Rearranged other)
include same

theorem glyph?_eq : view.glyph? = other.glyph? := funext same.glyphs.find?_eq

theorem contains_eq : view.contains = other.contains := funext same.glyphs.contains_eq

theorem glyphOrder_eq : view.glyphOrder = other.glyphOrder := by
  have names : SortedSet.ofList view.glyphs.keys = SortedSet.ofList other.glyphs.keys :=
    SortedSet.ofList_congr fun _ => same.glyphs.mem_keys_iff
  unfold glyphOrder undeclaredGlyphs declaredGlyphs
  rw [same.contains_eq, same.declaredOrder, names]

theorem glyphsInOrder_eq : view.glyphsInOrder = other.glyphsInOrder := by
  rw [glyphsInOrder, glyphsInOrder, same.glyphOrder_eq, same.glyph?_eq]

/-- The character map is the same, or there is the same conflict. -/
theorem characterMap_eq : view.characterMap = other.characterMap := by
  rw [characterMap, characterMap, same.glyphsInOrder_eq]

theorem ofCategories_eq :
    GlyphClasses.ofCategories view.categories = GlyphClasses.ofCategories other.categories := by
  have classes : ∀ category, GlyphClasses.ofCategory view.categories category =
      GlyphClasses.ofCategory other.categories category := fun category =>
    SortedSet.ofList_congr fun _ => ((same.categories.filter fun entry =>
      decide (entry.2 = category)).map Prod.fst).mem_iff
  simp only [GlyphClasses.ofCategories, classes]

theorem glyphClassLists?_eq : view.glyphClassLists? = other.glyphClassLists? := by
  have lists : view.glyphsOfCategory = other.glyphsOfCategory := funext fun category => by
    unfold glyphsOfCategory
    rw [same.glyphOrder_eq]
    exact List.filter_congr fun name _ => by
      rw [OrderedMap.get?_eq_of_rearranged same.categories]
  unfold glyphClassLists?
  rw [same.categories.isEmpty_eq, lists]

theorem missing_eq [Coordinate α] (table : List Statement) :
    DefinitionWriter.missing view table = DefinitionWriter.missing other table := by
  unfold DefinitionWriter.missing caretStatements
  rw [same.glyphClassLists?_eq, same.glyphsInOrder_eq]

end FontView.Rearranged

end Fonts

end FontCompiler
