import Mathlib.Data.List.Induction
import FontCompiler.Proofs.Font.GlyphOrder
import FontCompiler.Proofs.Text.ByteOrder

/-!
# The glyph order of an edited font

A font is made by edits, of which the last one counts: a glyph is the last that was added under
its name, with the advance that was set last since then. However a font was made, and whether it
is read as a whole or without its hidden glyphs, its glyph order has every glyph once, in the order
of the three parts of which it consists.
-/

namespace FontCompiler

inductive FontEdit (α : Type) where
  | addGlyph (glyph : Glyph α)
  | setWidth (name : GlyphName) (width : α)
  | setOrder (order : List GlyphName)
  | setKerning (first second : String) (value : α)
  | setGroup (name : String) (members : List GlyphName)
  | setCategory (glyph : GlyphName) (category : GlyphCategory)
  | setHidden (names : List GlyphName)

namespace FontEdit

variable {α : Type}

def glyphFor? (name : GlyphName) : FontEdit α → Option (Glyph α)
  | addGlyph glyph => if glyph.name = name then some glyph else none
  | _ => none

theorem glyphFor?_eq_some_iff {name : GlyphName} {edit : FontEdit α} {glyph : Glyph α} :
    edit.glyphFor? name = some glyph ↔ edit = addGlyph glyph ∧ glyph.name = name := by
  cases edit with
  | addGlyph added =>
      simp only [glyphFor?, Option.ite_none_right_eq_some, Option.some.injEq, addGlyph.injEq]
      exact ⟨fun ⟨named, same⟩ => ⟨same, same ▸ named⟩, fun ⟨same, named⟩ => ⟨same ▸ named, same⟩⟩
  | _ => simp [glyphFor?]

def widthFor? (name : GlyphName) : FontEdit α → Option α
  | setWidth other width => if other = name then some width else none
  | _ => none

def order? : FontEdit α → Option (List GlyphName)
  | setOrder order => some order
  | _ => none

def hidden? : FontEdit α → Option (List GlyphName)
  | setHidden names => some names
  | _ => none

/-- What the last of the edits that set something sets it to. -/
def last {β : Type} (set? : FontEdit α → Option β) (edits : List (FontEdit α))
    (default : β) : β :=
  (edits.filterMap set?).getLast?.getD default

theorem last_concat {β : Type} (set? : FontEdit α → Option β) (edits : List (FontEdit α))
    (edit : FontEdit α) (default : β) :
    last set? (edits ++ [edit]) default = (set? edit).getD (last set? edits default) := by
  unfold last
  cases set : set? edit <;> simp [List.filterMap_append, set]

end FontEdit

namespace Font

variable {α : Type}

def edit (font : Font α) : FontEdit α → Font α
  | .addGlyph glyph => font.addGlyph glyph
  | .setWidth name width => font.setWidth name width
  | .setOrder order => font.setOrder order
  | .setKerning first second value => font.setKerning first second value
  | .setGroup name members => font.setGroup name members
  | .setCategory glyph category => font.setCategory glyph category
  | .setHidden names => font.setHidden names

def ofEdits (edits : List (FontEdit α)) : Font α := edits.foldl edit empty

variable {edits : List (FontEdit α)} {name : GlyphName} {glyph : Glyph α}

theorem ofEdits_concat (edits : List (FontEdit α)) (last : FontEdit α) :
    ofEdits (edits ++ [last]) = (ofEdits edits).edit last := by
  rw [ofEdits, List.foldl_append]
  rfl

/-- What one kind of edit sets and no other touches is what was set last. -/
theorem read_ofEdits {β : Type} {read : Font α → β} {set? : FontEdit α → Option β}
    (sets : ∀ font edit, read (Font.edit font edit) = (set? edit).getD (read font))
    (edits : List (FontEdit α)) : read (ofEdits edits) = FontEdit.last set? edits (read empty) := by
  induction edits using List.reverseRecOn with
  | nil => rfl
  | append_singleton edits last ih => rw [ofEdits_concat, sets, FontEdit.last_concat, ih]

theorem declaredOrder_ofEdits (edits : List (FontEdit α)) :
    (ofEdits edits).declaredOrder = FontEdit.last FontEdit.order? edits [] :=
  read_ofEdits (fun _ edit => by cases edit <;> rfl) edits

theorem hidden_ofEdits (edits : List (FontEdit α)) :
    (ofEdits edits).hidden = FontEdit.last FontEdit.hidden? edits [] :=
  read_ofEdits (fun _ edit => by cases edit <;> rfl) edits

theorem glyph?_setWidth (font : Font α) (changed : GlyphName) (width : α) (name : GlyphName) :
    (font.setWidth changed width).whole.glyph? name = (font.whole.glyph? name).map fun glyph =>
      if changed = name then { glyph with width } else glyph := by
  unfold setWidth whole FontView.glyph?
  dsimp only
  rw [KeyedList.find?_map]
  refine Option.map_congr fun glyph found => ?_
  rw [KeyedList.key_of_find? found]
  by_cases same : changed = name
  · rw [if_pos same.symm, if_pos same]
  · rw [if_neg (Ne.symm same), if_neg same]

/-- An edit puts a new glyph in the place of the old one, or sets the advance of the old one. -/
theorem glyph?_edit (font : Font α) (edit : FontEdit α) (name : GlyphName) :
    (font.edit edit).whole.glyph? name = (edit.glyphFor? name).or
      ((font.whole.glyph? name).map fun glyph =>
        { glyph with width := (edit.widthFor? name).getD glyph.width }) := by
  cases edit with
  | addGlyph glyph =>
      refine (KeyedList.find?_put glyph font.glyphs name).trans ?_
      by_cases same : glyph.name = name
      · simp [FontEdit.glyphFor?, same]
      · simp [FontEdit.glyphFor?, FontEdit.widthFor?, same, FontView.glyph?, whole]
  | setWidth changed width =>
      refine (glyph?_setWidth font changed width name).trans ?_
      by_cases same : changed = name
      · simp [FontEdit.glyphFor?, FontEdit.widthFor?, same]
      · simp [FontEdit.glyphFor?, FontEdit.widthFor?, same]
  | _ => exact (congrFun Option.map_id (font.whole.glyph? name)).symm

/-- Whether a glyph is the last that was added under a name, with the advance that was set last
since then. -/
def LastAdded (edits : List (FontEdit α)) (name : GlyphName) (glyph : Glyph α) : Prop :=
  ∃ before added after, edits = before ++ .addGlyph added :: after ∧ added.name = name ∧
    (∀ edit ∈ after, edit.glyphFor? name = none) ∧
    glyph = { added with width := FontEdit.last (FontEdit.widthFor? name) after added.width }

theorem lastAdded_of_glyph? (found : (ofEdits edits).whole.glyph? name = some glyph) :
    LastAdded edits name glyph := by
  induction edits using List.reverseRecOn generalizing glyph with
  | nil => cases found
  | append_singleton edits last ih =>
      rw [ofEdits_concat, glyph?_edit] at found
      cases added : last.glyphFor? name with
      | some new =>
          rw [added, Option.some_or] at found
          cases found
          obtain ⟨rfl, named⟩ := FontEdit.glyphFor?_eq_some_iff.mp added
          exact ⟨edits, glyph, [], rfl, named, nofun, rfl⟩
      | none =>
          rw [added, Option.none_or] at found
          obtain ⟨old, oldFound, rfl⟩ := Option.map_eq_some_iff.mp found
          obtain ⟨before, new, after, rfl, named, none, rfl⟩ := ih oldFound
          refine ⟨before, new, after ++ [last], by simp, named, ?_, ?_⟩
          · exact List.forall_mem_append.mpr ⟨none, by simpa using added⟩
          · rw [FontEdit.last_concat]

/-- A glyph that was added is never lost, though another may take its place. -/
theorem mem_keys_of_addGlyph (added : .addGlyph glyph ∈ edits) :
    glyph.name ∈ (ofEdits edits).glyphs.keys := by
  refine KeyedList.contains_iff.mp ?_
  change ((ofEdits edits).whole.glyph? glyph.name).isSome = true
  induction edits using List.reverseRecOn with
  | nil => cases added
  | append_singleton edits last ih =>
      rw [ofEdits_concat, glyph?_edit, Option.isSome_or, Option.isSome_map]
      rcases List.mem_append.mp added with old | new
      · rw [ih old, Bool.or_true]
      · rw [FontEdit.glyphFor?_eq_some_iff.mpr ⟨(List.mem_singleton.mp new).symm, rfl⟩]
        rfl

/-- A font has a glyph under a name if one was ever added under it. -/
theorem mem_keys_ofEdits_iff : name ∈ (ofEdits edits).glyphs.keys ↔
    ∃ glyph, .addGlyph glyph ∈ edits ∧ glyph.name = name := by
  constructor
  · intro listed
    obtain ⟨glyph, found⟩ := Option.isSome_iff_exists.mp (KeyedList.contains_iff.mpr listed)
    obtain ⟨before, added, after, rfl, named, -⟩ := lastAdded_of_glyph? found
    exact ⟨added, List.mem_append_right before List.mem_cons_self, named⟩
  · rintro ⟨glyph, added, rfl⟩
    exact mem_keys_of_addGlyph added

end Font

/-! ## The glyph order -/

namespace FontView

variable {α : Type} {view : FontView α} {order : List GlyphName}

theorem pairwise_declaredGlyphs {shows : GlyphName → Bool}
    (declared : view.declaredOrder = order.filter shows) :
    view.declaredGlyphs.Pairwise fun name next => order.idxOf name < order.idxOf next := by
  unfold declaredGlyphs
  rw [declared, List.filter_filter]
  exact pairwise_idxOf_eraseDups order _

theorem pairwise_undeclaredGlyphs (view : FontView α) :
    view.undeclaredGlyphs.Pairwise fun name next => textBytes name < textBytes next :=
  (SortedSet.increasing _).imp textBytes_lt

/-- Whether the names are those of the glyphs of a view in the order in which glyphs are compiled:
the glyph for missing characters, then the names of a wanted order as they first occur in it, and
then the others by their bytes. -/
structure IsOfficialOrder (view : FontView α) (order names : List GlyphName) : Prop where
  nodup : names.Nodup
  mem_iff : ∀ name, name ∈ names ↔ view.contains name = true
  parts : ∃ declared remaining,
    names = (if view.contains notdef then [notdef] else []) ++ declared ++ remaining ∧
      (∀ name, name ∈ declared ↔ name ∈ order ∧ view.contains name = true ∧ name ≠ notdef) ∧
      (declared.Pairwise fun name next => order.idxOf name < order.idxOf next) ∧
      remaining.Pairwise fun name next => textBytes name < textBytes next

/-- The glyph order follows a wanted order of which the view declares what it may show. -/
theorem isOfficialOrder_glyphOrder (shows : GlyphName → Bool)
    (declared : view.declaredOrder = order.filter shows)
    (shown : ∀ name, view.contains name = true → shows name = true) :
    view.IsOfficialOrder order view.glyphOrder where
  nodup := nodup_glyphOrder view
  mem_iff _ := mem_glyphOrder.trans contains_iff.symm
  parts := by
    refine ⟨view.declaredGlyphs, view.undeclaredGlyphs, rfl, fun name => ?_,
      pairwise_declaredGlyphs declared, pairwise_undeclaredGlyphs view⟩
    rw [mem_declaredGlyphs, declared, List.mem_filter, ← contains_iff]
    constructor
    · exact fun ⟨listed, held, other⟩ => ⟨listed.1, held, other⟩
    · exact fun ⟨listed, held, other⟩ => ⟨⟨listed, shown name held⟩, held, other⟩

/-- Whether a view shows what edits have made of a font, apart from hidden glyphs: the glyphs in
their order, each as it was added last. -/
structure Reflects (view : FontView α) (edits : List (FontEdit α)) (hidden : List GlyphName) :
    Prop where
  contains_iff : ∀ name, view.contains name = true ↔
    (∃ glyph, .addGlyph glyph ∈ edits ∧ glyph.name = name) ∧ name ∉ hidden
  order : view.IsOfficialOrder (FontEdit.last FontEdit.order? edits []) view.glyphOrder
  latest : ∀ name ∈ view.glyphOrder, ∃ glyph, view.glyph? name = some glyph ∧
    Font.LastAdded edits name glyph

theorem reflects_whole (edits : List (FontEdit α)) :
    (Font.ofEdits edits).whole.Reflects edits [] where
  contains_iff name := by
    rw [FontView.contains_iff, and_iff_left List.not_mem_nil]
    exact Font.mem_keys_ofEdits_iff
  order := by
    refine isOfficialOrder_glyphOrder (fun _ => true) ?_ fun _ _ => rfl
    rw [List.filter_true, ← Font.declaredOrder_ofEdits]
    rfl
  latest name listed := by
    obtain ⟨glyph, found⟩ := exists_glyph?_of_mem_glyphOrder listed
    exact ⟨glyph, found, Font.lastAdded_of_glyph? found⟩

theorem reflects_exported (edits : List (FontEdit α)) :
    (Font.ofEdits edits).exported.Reflects edits (FontEdit.last FontEdit.hidden? edits []) where
  contains_iff name := by
    rw [FontView.contains_iff, Font.mem_exported_keys, Font.mem_keys_ofEdits_iff,
      Font.hidden_ofEdits]
  order := by
    refine isOfficialOrder_glyphOrder (Font.ofEdits edits).shows ?_ fun name held => ?_
    · rw [← Font.declaredOrder_ofEdits]
      rfl
    · have shown := (Font.mem_exported_keys.mp (contains_iff.mp held)).2
      simpa [Font.shows] using shown
  latest name listed := by
    obtain ⟨glyph, found⟩ := exists_glyph?_of_mem_glyphOrder listed
    exact ⟨glyph, found, Font.lastAdded_of_glyph? (Font.glyph?_exported_iff.mp found).1⟩

/-- After any edits the glyph order of a font, read as a whole or without its hidden glyphs, lists
its glyphs once each in the official order, and under each name is the glyph added last. -/
theorem glyphOrder_after_edits (edits : List (FontEdit α)) :
    (Font.ofEdits edits).whole.Reflects edits [] ∧
      (Font.ofEdits edits).exported.Reflects edits (FontEdit.last FontEdit.hidden? edits []) :=
  ⟨reflects_whole edits, reflects_exported edits⟩

end FontView

end FontCompiler
