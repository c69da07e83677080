import FontCompiler.Proofs.Outline.Decomposition

/-!
# Outlines under a map

An outline may be put under a map before its references are drawn or after. In the first
case the map is joined with the maps of the references, in the second it moves the points
that they drew. With exact arithmetic both come to the same at every depth of references,
also where these run into a cycle.
-/

namespace FontCompiler.FontView

/-- A reference under a further map draws what it draws otherwise, put under that map. -/
theorem expand_compose (view : FontView Rat) (path : List GlyphName) (base : GlyphName)
    (outer map : Affine Rat) :
    view.expand path base (outer.compose map) =
      (view.expand path base map).map (Flattened.under outer) := by
  fun_induction expand view path base map with
  | case1 path base map missing =>
      rw [expand_of_missing missing]
      rfl
  | case2 path base map glyph found visited =>
      rw [expand_of_visited found visited]
      rfl
  | case3 path base map glyph found fresh ih =>
      rw [expand_of_part found fresh, List.map_append, List.map_map, List.map_flatMap]
      congr 1
      · refine List.map_congr_left fun event _ => ?_
        exact congrArg Flattened.drawn (event.transform_compose outer map)
      · refine List.flatMap_congr fun part _ => ?_
        rw [Affine.compose_assoc, ih part]

theorem flattenEvent_transform (view : FontView Rat) (map : Affine Rat)
    (event : OutlineEvent Rat) :
    view.flattenEvent (event.transform map) =
      (view.flattenEvent event).map (Flattened.under map) := by
  cases event with
  | component base inner =>
      have reference : view.flattenEvent (.component base inner) =
          view.expand [] base (Affine.identity.compose inner) := rfl
      have mapped : view.flattenEvent ((OutlineEvent.component base inner).transform map) =
          view.expand [] base (Affine.identity.compose (map.compose inner)) := rfl
      rw [reference, mapped, Affine.identity_compose, Affine.identity_compose, expand_compose]
  | _ => rfl

/-- What is drawn and what is left out come in the same order. -/
theorem flatten_map_transform (view : FontView Rat) (map : Affine Rat)
    (events : List (OutlineEvent Rat)) :
    view.flatten (events.map (OutlineEvent.transform map)) =
      (view.flatten events).map (Flattened.under map) := by
  unfold flatten
  rw [List.flatMap_map, List.map_flatMap]
  exact List.flatMap_congr fun event _ => view.flattenEvent_transform map event

section Direct

variable {α : Type} [Coordinate α] {view : FontView α} {events : List (OutlineEvent α)}
  {event : OutlineEvent α}

theorem kind_ne_reference_of_mem_flatten (drawn : .drawn event ∈ view.flatten events) :
    event.kind ≠ .reference := by
  obtain ⟨original, -, found⟩ := List.mem_flatMap.mp drawn
  cases original with
  | component base inner =>
      have wellDrawn := view.wellDrawn_expand [] base (Affine.identity.compose inner)
      exact wellDrawn.kind_ne_reference event (List.mem_filterMap.mpr ⟨_, found, rfl⟩)
  | _ =>
      cases List.mem_singleton.mp found
      exact nofun

/-- A flattened sequence refers to no glyph. -/
theorem kind_ne_reference_of_mem_flatEvents (drawn : event ∈ view.flatEvents events) :
    event.kind ≠ .reference := by
  obtain ⟨flat, listed, isEvent⟩ := List.mem_filterMap.mp drawn
  cases flat with
  | drawn other =>
      cases isEvent
      exact kind_ne_reference_of_mem_flatten listed
  | skipped component => cases isEvent

end Direct

/-- Whether a sequence of events is put under a map before its references are drawn or after,
every point that it draws without the map is moved by the map, and the same references are
left out. -/
theorem flattening_commutes_with_maps (view : FontView Rat) (map : Affine Rat)
    (events : List (OutlineEvent Rat)) :
    let moved := (view.flatEvents events).map (OutlineEvent.mapPoints map.apply)
    view.flatEvents (events.map (OutlineEvent.transform map)) = moved ∧
      (view.flatEvents events).map (OutlineEvent.transform map) = moved ∧
      view.skippedComponents (events.map (OutlineEvent.transform map)) =
        view.skippedComponents events := by
  intro moved
  have after : (view.flatEvents events).map (OutlineEvent.transform map) = moved :=
    List.map_congr_left fun event drawn =>
      event.transform_eq_mapPoints map (kind_ne_reference_of_mem_flatEvents drawn)
  have before : view.flatEvents (events.map (OutlineEvent.transform map)) =
      (view.flatEvents events).map (OutlineEvent.transform map) := by
    unfold flatEvents
    rw [flatten_map_transform, Flattened.filterMap_under]
  refine ⟨before.trans after, after, ?_⟩
  unfold skippedComponents
  rw [flatten_map_transform, List.filterMap_map]
  refine List.filterMap_congr fun event _ => ?_
  cases event <;> rfl

end FontCompiler.FontView
