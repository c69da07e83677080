import FontCompiler.Font.Basic
import FontCompiler.Proofs.Collection.Classes

/-!
# The glyph order lists the glyphs

Every glyph of a view is placed by one of the three parts of the glyph order,
and no part places a name without a glyph. The parts have no name in common.
The exported view has the glyphs of the font that are not hidden.
-/

namespace FontCompiler

namespace FontView

variable {α : Type} {view : FontView α} {name : GlyphName}

theorem contains_iff : view.contains name = true ↔ name ∈ view.glyphs.keys :=
  KeyedList.contains_iff

theorem mem_declaredGlyphs :
    name ∈ view.declaredGlyphs ↔
      name ∈ view.declaredOrder ∧ name ∈ view.glyphs.keys ∧ name ≠ notdef := by
  unfold declaredGlyphs
  rw [List.mem_eraseDups, List.mem_filter, Bool.and_eq_true, contains_iff, bne_iff_ne]

theorem mem_undeclaredGlyphs :
    name ∈ view.undeclaredGlyphs ↔
      name ∈ view.glyphs.keys ∧ name ≠ notdef ∧ name ∉ view.declaredGlyphs := by
  unfold undeclaredGlyphs
  rw [← SortedSet.mem_def, SortedSet.mem_filter, SortedSet.mem_ofList]
  simp

/-- The glyph order lists the names of the glyphs and no other name. -/
theorem mem_glyphOrder : name ∈ view.glyphOrder ↔ name ∈ view.glyphs.keys := by
  unfold glyphOrder
  rw [List.mem_append, List.mem_append]
  constructor
  · rintro ((first | declared) | undeclared)
    · split at first
      · next present =>
          rw [List.mem_singleton.mp first]
          exact contains_iff.mp present
      · cases first
    · exact (mem_declaredGlyphs.mp declared).2.1
    · exact (mem_undeclaredGlyphs.mp undeclared).1
  · intro listed
    by_cases first : name = notdef
    · subst first
      rw [if_pos (contains_iff.mpr listed)]
      exact .inl (.inl (List.mem_singleton_self _))
    · by_cases declared : name ∈ view.declaredGlyphs
      · exact .inl (.inr declared)
      · exact .inr (mem_undeclaredGlyphs.mpr ⟨listed, first, declared⟩)

theorem nodup_glyphOrder (view : FontView α) : view.glyphOrder.Nodup := by
  have first : (if view.contains notdef then [notdef] else []).Nodup := by
    split
    · exact List.nodup_singleton _
    · exact List.nodup_nil
  have isFirst : ∀ name ∈ (if view.contains notdef then [notdef] else []), name = notdef := by
    intro name listed
    split at listed
    · exact List.mem_singleton.mp listed
    · cases listed
  refine List.nodup_append'.mpr ⟨List.nodup_append'.mpr ⟨first, nodup_eraseDups _, ?_⟩,
    SortedSet.nodup _, fun name placed undeclared => ?_⟩
  · intro name listed declared
    exact (mem_declaredGlyphs.mp declared).2.2 (isFirst name listed)
  · obtain ⟨-, other, free⟩ := mem_undeclaredGlyphs.mp undeclared
    rcases List.mem_append.mp placed with listed | declared
    · exact other (isFirst name listed)
    · exact free declared

theorem exists_glyph?_of_mem_glyphOrder {name : GlyphName} (listed : name ∈ view.glyphOrder) :
    ∃ glyph, view.glyph? name = some glyph :=
  Option.isSome_iff_exists.mp (contains_iff.mpr (mem_glyphOrder.mp listed))

/-- The order has every glyph, at the place of its name. -/
theorem mem_glyphsInOrder {glyph : Glyph α} :
    glyph ∈ view.glyphsInOrder ↔ view.glyph? glyph.name = some glyph := by
  unfold glyphsInOrder
  rw [List.mem_filterMap]
  constructor
  · rintro ⟨name, -, found⟩
    have named : glyph.name = name := KeyedList.key_of_find? found
    rw [named]
    exact found
  · exact fun found => ⟨glyph.name, mem_glyphOrder.mpr (KeyedList.mem_keys_of_find? found), found⟩

theorem mem_glyphsInOrder_iff_mem_entries {glyph : Glyph α} :
    glyph ∈ view.glyphsInOrder ↔ glyph ∈ view.glyphs.entries := by
  rw [mem_glyphsInOrder, glyph?, KeyedList.find?_eq_some_iff]
  exact and_iff_left rfl

theorem map_name_glyphsInOrder (view : FontView α) :
    view.glyphsInOrder.map Glyph.name = view.glyphOrder := by
  have named : ∀ name ∈ view.glyphOrder, (view.glyph? name).map Glyph.name = some name := by
    intro name listed
    obtain ⟨glyph, found⟩ := exists_glyph?_of_mem_glyphOrder listed
    rw [found, Option.map_some, KeyedList.key_of_find? found]
  unfold glyphsInOrder
  rw [List.map_filterMap, List.filterMap_congr named]
  exact List.filterMap_some

/-- No two glyphs of the order have the same name. -/
theorem nodup_names_glyphsInOrder (view : FontView α) :
    (view.glyphsInOrder.map Glyph.name).Nodup := by
  rw [map_name_glyphsInOrder]
  exact nodup_glyphOrder view

end FontView

namespace Font

variable {α : Type} {font : Font α} {name : GlyphName}

theorem mem_exported_keys : name ∈ font.exported.glyphs.keys ↔
    name ∈ font.glyphs.keys ∧ name ∉ font.hidden := by
  unfold exported KeyedList.filter KeyedList.keys shows
  simp only [List.mem_map, List.mem_filter, Bool.not_eq_true', List.contains_eq_mem,
    decide_eq_false_iff_not]
  constructor
  · rintro ⟨glyph, ⟨listed, shown⟩, rfl⟩
    exact ⟨⟨glyph, listed, rfl⟩, shown⟩
  · rintro ⟨⟨glyph, listed, rfl⟩, shown⟩
    exact ⟨glyph, ⟨listed, shown⟩, rfl⟩

theorem glyph?_exported_iff {glyph : Glyph α} :
    font.exported.glyph? name = some glyph ↔
      font.whole.glyph? name = some glyph ∧ name ∉ font.hidden := by
  have shows : font.shows name = true ↔ name ∉ font.hidden := by simp [Font.shows]
  unfold FontView.glyph?
  rw [KeyedList.find?_eq_some_iff, KeyedList.find?_eq_some_iff, ← shows]
  unfold exported KeyedList.filter
  rw [List.mem_filter, and_right_comm]
  exact and_congr_right fun found => by rw [found.2]

/-- An exported glyph is drawn as it is in the font. -/
theorem part?_of_exported {glyph : Glyph α} (found : font.exported.glyph? name = some glyph) :
    font.exported.part? name = some glyph := by
  obtain ⟨listed, named⟩ := KeyedList.find?_eq_some_iff.mp found
  exact KeyedList.find?_eq_some_iff.mpr ⟨(List.mem_filter.mp listed).1, named⟩

end Font

end FontCompiler
