import Mathlib.Tactic.Ring
import FontCompiler.Proofs.Font.Cycle
import FontCompiler.Proofs.Outline.DrawnReferences

/-!
# Decomposed outlines

Drawing carries a map and a path of names down a chain of references. With exact
arithmetic it comes to the same as a recursion on finished outlines: a glyph is its
contours, followed by the outline of each glyph that it refers to under the map of
the reference. The maps may be joined in either order because their composition is
associative, and the path does no harm where every chain of references ends.
-/

namespace FontCompiler

namespace Affine

theorem apply_compose (outer inner : Affine Rat) (point : Point Rat) :
    (outer.compose inner).apply point = outer.apply (inner.apply point) := by
  unfold apply compose
  congr 1 <;> ring

theorem compose_assoc (outer middle inner : Affine Rat) :
    (outer.compose middle).compose inner = outer.compose (middle.compose inner) := by
  unfold compose
  congr 1 <;> ring

theorem identity_compose (map : Affine Rat) : identity.compose map = map := by
  have one : (Coordinate.one : Rat) = 1 := rfl
  have zero : (Coordinate.zero : Rat) = 0 := rfl
  unfold compose identity
  rw [one, zero]
  cases map
  congr 1 <;> ring

end Affine

namespace OutlineEvent

theorem transform_compose (outer inner : Affine Rat) (event : OutlineEvent Rat) :
    event.transform (outer.compose inner) = (event.transform inner).transform outer := by
  cases event <;> simp only [transform, Affine.apply_compose, Affine.compose_assoc]

variable {α : Type} [Coordinate α]

/-- An event that refers to no glyph has its points mapped. -/
theorem transform_eq_mapPoints (map : Affine α) {event : OutlineEvent α}
    (direct : event.kind ≠ .reference) : event.transform map = event.mapPoints map.apply := by
  cases event with
  | component base inner => exact absurd rfl direct
  | _ => rfl

end OutlineEvent

namespace Flattened

variable {α : Type} [Coordinate α]

def under (map : Affine α) : Flattened α → Flattened α
  | drawn event => drawn (event.transform map)
  | skipped component => skipped component

theorem under_compose (outer inner : Affine Rat) (events : List (Flattened Rat)) :
    events.map (under (outer.compose inner)) = (events.map (under inner)).map (under outer) := by
  rw [List.map_map]
  refine List.map_congr_left fun event _ => ?_
  cases event with
  | drawn event => exact congrArg drawn (event.transform_compose outer inner)
  | skipped component => rfl

theorem filterMap_under (map : Affine α) (events : List (Flattened α)) :
    (events.map (under map)).filterMap event? =
      (events.filterMap event?).map (OutlineEvent.transform map) := by
  rw [List.filterMap_map, List.map_filterMap]
  refine List.filterMap_congr fun event _ => ?_
  cases event <;> rfl

end Flattened

namespace FontView

variable {view : FontView Rat} {name base : GlyphName} {glyph : Glyph Rat}
  {path : List GlyphName}

/-- Where chains of references end, a drawn reference is the flattened outline of its
glyph under the map, whatever chain of references led there. -/
theorem expand_eq_map_flatten (ends : view.ChainsEnd base)
    (leads : ∀ name ∈ path, Relation.TransGen view.Draws name base)
    (found : view.part? base = some glyph) (map : Affine Rat) :
    view.expand path base map = (view.flatten glyph.events).map (Flattened.under map) := by
  induction ends generalizing path glyph map with
  | intro base chains ih =>
      have straight : ¬ view.RunsIntoCycle base :=
        ChainsEnd.not_runsIntoCycle (.intro base chains)
      have fresh : base ∉ path := fun visited => straight ⟨base, .refl, leads base visited⟩
      rw [expand_of_part found fresh, flatten_events, List.map_append, List.map_map,
        List.map_flatMap]
      congr 1
      refine List.flatMap_congr fun part listed => ?_
      rw [Affine.identity_compose]
      cases next : view.part? part.base with
      | none =>
          rw [expand_of_missing next, expand_of_missing next]
          rfl
      | some target =>
          have draws := draws_of_part? found listed next
          -- The path is empty again where the drawing of the inner glyph starts afresh.
          rw [ih part.base draws (draws.leads_on leads) next,
            ih part.base draws (List.forall_mem_nil _) next, Flattened.under_compose]

/-- The outline of the glyph that a reference names, with its points mapped. -/
def decomposed (view : FontView Rat) (part : Component Rat) : List (OutlineEvent Rat) :=
  match view.part? part.base with
  | some base => (view.flatEvents base.events).map (OutlineEvent.mapPoints part.transform.apply)
  | none => []

/-- Where chains of references end, the outline of a glyph is its contours, and then
the outlines that it refers to. -/
theorem flatEvents_eq_decomposed (ends : view.ChainsEnd name)
    (found : view.part? name = some glyph) :
    view.flatEvents glyph.events =
      glyph.contourEvents ++ glyph.components.flatMap view.decomposed := by
  rw [flatEvents_events]
  congr 1
  refine List.flatMap_congr fun part listed => ?_
  rw [Affine.identity_compose]
  unfold decomposed
  cases next : view.part? part.base with
  | none =>
      rw [expand_of_missing next]
      rfl
  | some base =>
      have draws := draws_of_part? found listed next
      rw [expand_eq_map_flatten (ends.inv draws) (List.forall_mem_nil _) next,
        Flattened.filterMap_under]
      refine List.map_congr_left fun event drawn => ?_
      exact event.transform_eq_mapPoints _
        ((view.wellDrawn_flatEvents base).kind_ne_reference event drawn)

end FontView

/-- A font without cycles of references decomposes completely: no reference is left
out as recursive, and the outline of a glyph is its contours, followed by the outlines
that its references draw. -/
theorem decomposes_of_checkCycles {font : Font Rat} (passes : font.whole.checkCycles = .ok ())
    {glyph : Glyph Rat} (listed : glyph ∈ font.glyphs.entries) :
    (∀ base, .recursive base ∉ font.whole.skippedComponents glyph.events) ∧
      font.whole.flatEvents glyph.events =
        glyph.contourEvents ++ glyph.components.flatMap font.whole.decomposed := by
  have found : font.whole.part? glyph.name = some glyph :=
    KeyedList.find?_eq_some_iff.mpr ⟨listed, rfl⟩
  -- In the whole font, the references that are checked are those that are drawn.
  have straight : ¬ font.whole.RunsIntoCycle glyph.name := fun ⟨turn, _, round⟩ =>
    FontView.acyclic_of_checkCycles_eq_ok passes turn round
  constructor
  · intro base skipped
    exact straight ((FontView.exists_mem_skippedComponents_iff found).mp ⟨base, skipped⟩)
  · exact FontView.flatEvents_eq_decomposed (FontView.chainsEnd_iff.mpr straight) found

/-- A letter with an accent lying on its side, and with a reference to no glyph. -/
def accentedLetter : Glyph Rat where
  name := "letter"
  width := 500
  height := 0
  contours := [⟨[⟨⟨0, 0⟩, .move, false⟩, ⟨⟨0, 9⟩, .line, false⟩]⟩]
  components := [⟨"accent", ⟨0, 1, 1, 0, 7, 0⟩⟩, ⟨"ghost", .identity⟩]

/-- The letter, and its accent made of one stroke drawn twice. -/
def nestedFont : Font Rat where
  glyphs := .ofList
    [{ name := "stroke", width := 100, height := 0,
       contours := [⟨[⟨⟨0, 0⟩, .move, false⟩, ⟨⟨10, 5⟩, .line, false⟩]⟩] },
     { name := "accent", width := 100, height := 0,
       components := [⟨"stroke", .offset 20 0⟩, ⟨"stroke", ⟨2, 0, 0, 2, 0, 40⟩⟩] },
     accentedLetter]

theorem decomposes_nestedFont :
    nestedFont.whole.checkCycles = .ok () ∧ accentedLetter ∈ nestedFont.glyphs.entries ∧
      (∀ base, .recursive base ∉ nestedFont.whole.skippedComponents accentedLetter.events) ∧
        nestedFont.whole.flatEvents accentedLetter.events =
          accentedLetter.contourEvents ++
            accentedLetter.components.flatMap nestedFont.whole.decomposed := by
  have passes : nestedFont.whole.checkCycles = .ok () := by cbv
  have listed : accentedLetter ∈ nestedFont.glyphs.entries := .tail _ (.tail _ (.head _))
  exact ⟨passes, listed, decomposes_of_checkCycles passes listed⟩

end FontCompiler
