import Mathlib.Data.List.Induction
import FontCompiler.Proofs.Collection.Merge
import FontCompiler.Proofs.Feature.Walk

/-!
# The mark classes of a feature file

A mark class places glyphs, and the last entry of a glyph in a class counts. So the classes of two
files one after the other are those of both, and where both place a glyph in a class the second
file has its way.
-/

namespace FontCompiler

open Statement

/-- The place that a table of mark classes gives a glyph in a class. -/
def placeIn? (table : OrderedMap String (OrderedMap GlyphName Place)) (className : String)
    (glyph : GlyphName) : Option Place :=
  (table.get? className).bind fun places => places.get? glyph

def addMarkEntry (table : OrderedMap String (OrderedMap GlyphName Place))
    (entry : MarkClassEntry) : OrderedMap String (OrderedMap GlyphName Place) :=
  table.alter entry.className ∅ fun glyphs => glyphs.put (entry.glyph, entry.place)

section Entries

variable {table : OrderedMap String (OrderedMap GlyphName Place)} {className : String}
  {glyph : GlyphName} {place : Place}

theorem placeIn?_addMarkEntry (entry : MarkClassEntry) :
    placeIn? (addMarkEntry table entry) className glyph =
      if entry.className = className ∧ entry.glyph = glyph then some entry.place
      else placeIn? table className glyph := by
  unfold placeIn? addMarkEntry
  rw [OrderedMap.get?_alter]
  by_cases sameClass : entry.className = className
  · rw [if_pos sameClass, Option.bind_some, OrderedMap.get?, KeyedList.find?_put, sameClass]
    by_cases sameGlyph : entry.glyph = glyph
    · rw [if_pos sameGlyph, if_pos ⟨rfl, sameGlyph⟩]
      rfl
    · rw [if_neg sameGlyph, if_neg fun both => sameGlyph both.2]
      cases table.get? className <;> rfl
  · rw [if_neg sameClass, if_neg fun both => sameClass both.1]

/-- If all entries of a glyph in a class agree, they place it, or the table does already. -/
theorem placeIn?_foldl {entries : List MarkClassEntry}
    (only : ∀ entry ∈ entries, entry.className = className → entry.glyph = glyph →
      entry.place = place)
    (placed : placeIn? table className glyph = some place ∨
      ⟨glyph, place, className⟩ ∈ entries) :
    placeIn? (entries.foldl addMarkEntry table) className glyph = some place := by
  induction entries generalizing table with
  | nil => exact placed.resolve_right List.not_mem_nil
  | cons entry rest ih =>
      refine ih (fun later listed => only later (List.mem_cons_of_mem _ listed)) ?_
      rw [placeIn?_addMarkEntry]
      by_cases same : entry.className = className ∧ entry.glyph = glyph
      · rw [if_pos same, only entry List.mem_cons_self same.1 same.2]
        exact .inl rfl
      · rw [if_neg same]
        refine placed.imp_right fun listed => (List.mem_cons.mp listed).resolve_left ?_
        rintro rfl
        exact same ⟨rfl, rfl⟩

end Entries

namespace Statement

def markEntry? : Statement → Option MarkClassEntry
  | markClass entry => some entry
  | _ => none

end Statement

namespace FeatureFile

variable {file : FeatureFile} {className : String} {glyph : GlyphName} {place : Place}

/-- The place that a mark class of the file gives a glyph. -/
def markPlace? (file : FeatureFile) (className : String) (glyph : GlyphName) : Option Place :=
  placeIn? file.markClasses className glyph

theorem markClasses_eq_foldl (file : FeatureFile) :
    file.markClasses = (file.allStatements.filterMap markEntry?).foldl addMarkEntry ∅ := rfl

/-- If all added entries of a glyph in a class agree, they place it, or the file does already. -/
theorem markPlace?_append {added : List Statement}
    (only : ∀ entry, .markClass entry ∈ visit added → entry.className = className →
      entry.glyph = glyph → entry.place = place)
    (placed : file.markPlace? className glyph = some place ∨
      .markClass ⟨glyph, place, className⟩ ∈ visit added) :
    (file.append added).markPlace? className glyph = some place := by
  have isEntry : ∀ entry, entry ∈ (visit added).filterMap markEntry? ↔
      .markClass entry ∈ visit added := by
    intro entry
    rw [List.mem_filterMap]
    constructor
    · rintro ⟨statement, listed, same⟩
      cases statement <;> cases same
      exact listed
    · exact fun listed => ⟨_, listed, rfl⟩
  unfold markPlace? at placed ⊢
  rw [markClasses_eq_foldl, allStatements_append, List.filterMap_append, List.foldl_append,
    ← markClasses_eq_foldl]
  exact placeIn?_foldl (fun entry listed => only entry ((isEntry entry).mp listed))
    (placed.imp_right (isEntry _).mpr)

end FeatureFile

/-! ## The classes of two files -/

/-- The glyphs of two classes, at the places of the second class where both have a glyph. -/
def overlayPlaces (places added : OrderedMap GlyphName Place) : OrderedMap GlyphName Place :=
  places.mergeWith (fun _ place => place) added

/-- The mark classes of two tables, each with the glyphs that either table places in it. -/
def overlayMarkClasses (table added : OrderedMap String (OrderedMap GlyphName Place)) :
    OrderedMap String (OrderedMap GlyphName Place) :=
  table.mergeWith (fun places => overlayPlaces (places.getD ∅)) added

theorem get?_overlayPlaces (places added : OrderedMap GlyphName Place) (glyph : GlyphName) :
    (overlayPlaces places added).get? glyph = (added.get? glyph).or (places.get? glyph) := by
  rw [overlayPlaces, OrderedMap.get?_mergeWith, Option.map_id']

theorem overlayPlaces_getD (table added : OrderedMap String (OrderedMap GlyphName Place))
    (className : String) :
    ((overlayMarkClasses table added).get? className).getD ∅ =
      overlayPlaces ((table.get? className).getD ∅) ((added.get? className).getD ∅) := by
  rw [overlayMarkClasses, OrderedMap.get?_mergeWith]
  cases added.get? className <;> rfl

/-- Where both tables place a glyph in a class, the second one counts. -/
theorem placeIn?_overlayMarkClasses (table added : OrderedMap String (OrderedMap GlyphName Place))
    (className : String) (glyph : GlyphName) :
    placeIn? (overlayMarkClasses table added) className glyph =
      (placeIn? added className glyph).or (placeIn? table className glyph) := by
  have inClass : ∀ table : OrderedMap String (OrderedMap GlyphName Place),
      placeIn? table className glyph = ((table.get? className).getD ∅).get? glyph := by
    intro table
    unfold placeIn?
    cases table.get? className <;> rfl
  rw [inClass, inClass, inClass, overlayPlaces_getD, get?_overlayPlaces]

/-- An entry of the second table is one of the table of both. -/
theorem overlayMarkClasses_addMarkEntry
    (table added : OrderedMap String (OrderedMap GlyphName Place)) (entry : MarkClassEntry) :
    overlayMarkClasses table (addMarkEntry added entry) =
      addMarkEntry (overlayMarkClasses table added) entry := by
  have places : overlayPlaces ((table.get? entry.className).getD ∅)
      (((added.get? entry.className).getD ∅).put (entry.glyph, entry.place)) =
        (overlayPlaces ((table.get? entry.className).getD ∅)
          ((added.get? entry.className).getD ∅)).put (entry.glyph, entry.place) :=
    OrderedMap.mergeWith_put _ _ _ _
  unfold addMarkEntry OrderedMap.alter
  beta_reduce
  rw [overlayPlaces_getD, ← places]
  exact OrderedMap.mergeWith_put table added entry.className _

theorem foldl_addMarkEntry (table : OrderedMap String (OrderedMap GlyphName Place))
    (entries : List MarkClassEntry) :
    entries.foldl addMarkEntry table = overlayMarkClasses table (entries.foldl addMarkEntry ∅) := by
  induction entries using List.reverseRecOn with
  | nil => rfl
  | append_singleton entries last ih =>
      rw [List.foldl_append, List.foldl_append, ih]
      exact (overlayMarkClasses_addMarkEntry table _ last).symm

/-- The mark classes of two files one after the other are those of both, with the places of the
second file where both place a glyph in a class. -/
theorem FeatureFile.markClasses_append (file : FeatureFile) (added : List Statement) :
    (file.append added).markClasses =
      overlayMarkClasses file.markClasses (FeatureFile.mk added).markClasses := by
  rw [markClasses_eq_foldl, markClasses_eq_foldl ⟨added⟩, allStatements_append,
    List.filterMap_append, List.foldl_append, ← markClasses_eq_foldl, foldl_addMarkEntry]
  rfl

end FontCompiler
