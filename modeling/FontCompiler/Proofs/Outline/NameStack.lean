import FontCompiler.Proofs.Outline.Transformed

/-!
# The stack of names

Step by step, drawing without references keeps the glyphs that it is inside, each with the
events still to come, and beside them one stack of names that all references share. Every
reference that is entered is left again, and its name leaves the stack with it. A name is
never on the stack twice, so the stack is no deeper than there are glyphs, and the steps come
to an end also where references run in a circle.
-/

namespace FontCompiler

/-- A glyph that is being drawn through a reference. -/
structure OpenGlyph (α : Type) where
  name : GlyphName
  /-- The map of the reference, joined with the maps of the references around it. -/
  map : Affine α
  /-- The events of the glyph that are still to come. -/
  rest : List (OutlineEvent α)

/-- How far a sequence of events is drawn without references. -/
structure Decomposer (α : Type) where
  /-- The events that are still to come. -/
  events : List (OutlineEvent α)
  /-- The glyphs that are being drawn, the innermost first. -/
  glyphs : List (OpenGlyph α) := []
  /-- The names that no reference may name for now. -/
  stack : List GlyphName := []
  output : List (Flattened α) := []

theorem OutlineEvent.kind_transform {α : Type} [Coordinate α] (map : Affine α)
    (event : OutlineEvent α) : (event.transform map).kind = event.kind := by
  cases event <;> rfl

/-- A reference among the events of a glyph is one of its references. -/
theorem Glyph.exists_part_of_mem_events {α : Type} [Coordinate α] {glyph : Glyph α}
    {base : GlyphName} {inner : Affine α} (listed : .component base inner ∈ glyph.events) :
    ∃ part ∈ glyph.components, part.base = base := by
  rcases List.mem_append.mp listed with contour | reference
  · exact absurd rfl ((FontView.wellDrawn_contourEvents glyph).kind_ne_reference _ contour)
  · obtain ⟨part, isPart, same⟩ := List.mem_map.mp reference
    cases same
    exact ⟨part, isPart, rfl⟩

namespace Decomposer

section Steps

variable {α : Type} [Coordinate α]

omit [Coordinate α] in
/-- Pass something on. -/
def send (flat : Flattened α) (state : Decomposer α) : Decomposer α :=
  { state with output := state.output ++ [flat] }

def enter (view : FontView α) (base : GlyphName) (map : Affine α) (state : Decomposer α) :
    Decomposer α :=
  match view.part? base with
  | none => state.send (.skipped (.missing base))
  | some glyph =>
      if base ∈ state.stack then state.send (.skipped (.recursive base))
      else
        { state with
          glyphs := ⟨base, map, glyph.events⟩ :: state.glyphs
          stack := base :: state.stack }

/-- Take up an event: follow it under a map if it is a reference, or pass on how it is drawn. -/
def take (view : FontView α) (map : Affine α) (drawn : OutlineEvent α) :
    OutlineEvent α → Decomposer α → Decomposer α
  | .component base inner => enter view base (map.compose inner)
  | _ => send (.drawn drawn)

/-- The next step: take up the next event, or leave a glyph that has no more events. -/
def step? (view : FontView α) (state : Decomposer α) : Option (Decomposer α) :=
  match state.glyphs, state.events with
  | [], [] => none
  | [], event :: rest => some (take view .identity event event { state with events := rest })
  | ⟨_, _, []⟩ :: outer, _ => some { state with glyphs := outer, stack := state.stack.tail }
  | ⟨name, map, event :: rest⟩ :: outer, _ =>
      some (take view map (event.transform map) event
        { state with glyphs := ⟨name, map, rest⟩ :: outer })

abbrev Steps (view : FontView α) : Decomposer α → Decomposer α → Prop :=
  Relation.ReflTransGen fun state next => state.step? view = some next

end Steps

/-! ## Where the steps lead -/

section Run

variable {α : Type} [Coordinate α] {view : FontView α} {name : GlyphName} {map : Affine α}
  {events rest : List (OutlineEvent α)} {outer : List (OpenGlyph α)} {stack : List GlyphName}
  {output : List (Flattened α)}

theorem take_of_ne_reference {event : OutlineEvent α} (direct : event.kind ≠ .reference)
    (map : Affine α) (drawn : OutlineEvent α) (state : Decomposer α) :
    take view map drawn event state = state.send (.drawn drawn) := by
  cases event with
  | component base inner => exact absurd rfl direct
  | _ => rfl

/-- Events other than references are passed on under the map of their glyph. -/
theorem steps_direct {others : List (OutlineEvent α)}
    (direct : ∀ event ∈ others, event.kind ≠ .reference) :
    Steps view ⟨events, ⟨name, map, others ++ rest⟩ :: outer, stack, output⟩
      ⟨events, ⟨name, map, rest⟩ :: outer, stack,
        output ++ others.map fun event => .drawn (event.transform map)⟩ := by
  induction others generalizing output with
  | nil =>
      rw [List.map_nil, List.append_nil]
      exact .refl
  | cons event others ih =>
      obtain ⟨first, later⟩ := List.forall_mem_cons.mp direct
      refine .head (congrArg some (take_of_ne_reference first _ _ _)) ?_
      rw [List.map_cons, List.append_cons output]
      exact ih later

/-- References are followed one after the other, if each of them is followed to its end. -/
theorem steps_references {parts : List (Component α)}
    (follow : ∀ part : Component α, ∀ state : Decomposer α, state.stack = stack →
      Steps view (state.enter view part.base (map.compose part.transform))
        { state with
          output := state.output ++
            view.expand stack part.base (map.compose part.transform) }) :
    Steps view
      ⟨events, ⟨name, map, parts.map fun part => .component part.base part.transform⟩ :: outer,
        stack, output⟩
      ⟨events, ⟨name, map, []⟩ :: outer, stack,
        output ++ parts.flatMap fun part =>
          view.expand stack part.base (map.compose part.transform)⟩ := by
  induction parts generalizing output with
  | nil =>
      rw [List.flatMap_nil, List.append_nil]
      exact .refl
  | cons part parts ih =>
      refine .head rfl ((follow part _ rfl).trans ?_)
      rw [List.flatMap_cons, ← List.append_assoc]
      exact ih

/-- A reference is followed to its end, and what is open and on the stack then is what was
before. The induction is that of the drawing; its path is the stack. -/
theorem steps_enter {path : List GlyphName} {base : GlyphName} {state : Decomposer α}
    (same : state.stack = path) :
    Steps view (state.enter view base map)
      { state with output := state.output ++ view.expand path base map } := by
  fun_induction FontView.expand view path base map generalizing state with
  | case1 path base map missing =>
      have left : state.enter view base map = state.send (.skipped (.missing base)) := by
        rw [enter, missing]
      rw [left]
      exact .refl
  | case2 path base map glyph found visited =>
      have left : state.enter view base map = state.send (.skipped (.recursive base)) := by
        rw [enter, found]
        exact if_pos (same ▸ visited)
      rw [left]
      exact .refl
  | case3 path base map glyph found fresh ih =>
      have entered : state.enter view base map =
          { state with
            glyphs := ⟨base, map, glyph.events⟩ :: state.glyphs
            stack := base :: state.stack } := by
        rw [enter, found]
        exact if_neg (same ▸ fresh)
      rw [entered, ← List.append_assoc, same]
      have contours : Steps view
          ⟨state.events, ⟨base, map, glyph.events⟩ :: state.glyphs, base :: path, state.output⟩ _ :=
        steps_direct (FontView.wellDrawn_contourEvents glyph).kind_ne_reference
      refine (contours.trans (steps_references fun part state => ih part)).tail ?_
      -- The glyph is left, and its name with it.
      rw [← same]
      rfl

/-- An event of the sequence is drawn without references. -/
theorem steps_event (event : OutlineEvent α) :
    Steps view { events := event :: rest, output }
      { events := rest, output := output ++ view.flattenEvent event } := by
  cases event with
  | component base inner => exact .head rfl (steps_enter rfl)
  | _ => exact .single rfl

/-- After some events nothing is open, and they have been drawn without references. -/
theorem steps_append (view : FontView α) (handled rest : List (OutlineEvent α))
    (output : List (Flattened α)) :
    Steps view { events := handled ++ rest, output }
      { events := rest, output := output ++ view.flatten handled } := by
  induction handled generalizing output with
  | nil =>
      rw [FontView.flatten, List.flatMap_nil, List.append_nil]
      exact .refl
  | cons event handled ih =>
      refine (steps_event event).trans ?_
      rw [FontView.flatten, List.flatMap_cons, ← List.append_assoc]
      exact ih _

/-- Each state has at most one next state, so steps that lead to a last state end. -/
theorem acc_of_steps {state last : Decomposer α} (ends : last.step? view = none)
    (steps : Steps view state last) :
    Acc (fun next state => state.step? view = some next) state := by
  induction steps using Relation.ReflTransGen.head_induction_on with
  | refl =>
      refine .intro last fun next step => ?_
      rw [ends] at step
      cases step
  | head first _ ih =>
      refine .intro _ fun next step => ?_
      cases first.symm.trans step
      exact ih

end Run

/-! ## What holds at every step -/

/-- Whether the stack is that of the glyphs being drawn: distinct glyphs, each with events of
its own still to come, and each drawn by a reference of the one around it. -/
structure Nested {α : Type} [Coordinate α] (view : FontView α) (state : Decomposer α) : Prop where
  stack_eq : state.stack = state.glyphs.map OpenGlyph.name
  distinct : state.stack.Nodup
  chain : state.stack.IsChain fun inner outer => view.Draws outer inner
  drawing : ∀ inside ∈ state.glyphs, ∃ glyph, view.part? inside.name = some glyph ∧
    inside.rest <:+ glyph.events
  /-- No reference is passed on. -/
  direct : ∀ event, .drawn event ∈ state.output → event.kind ≠ .reference

namespace Nested

variable {α : Type} [Coordinate α] {view : FontView α} {state next : Decomposer α}

theorem start (view : FontView α) (events : List (OutlineEvent α)) :
    Nested view { events } where
  stack_eq := rfl
  distinct := List.nodup_nil
  chain := .nil
  drawing _ inside := nomatch inside
  direct _ drawn := nomatch drawn

/-- The stack is no deeper than there are glyphs. -/
theorem length_stack_le (nested : Nested view state) : state.stack.length ≤ view.parts.size := by
  have resolved : state.stack ⊆ view.parts.keys := by
    intro name listed
    rw [nested.stack_eq] at listed
    obtain ⟨inside, isOpen, rfl⟩ := List.mem_map.mp listed
    obtain ⟨glyph, found, -⟩ := nested.drawing inside isOpen
    exact KeyedList.mem_keys_of_find? found
  calc state.stack.length ≤ view.parts.keys.length :=
        (List.subperm_of_subset nested.distinct resolved).length_le
    _ = view.parts.size := List.length_map _

theorem send (nested : Nested view state) {flat : Flattened α}
    (direct : ∀ event, flat = .drawn event → event.kind ≠ .reference) :
    Nested view (state.send flat) :=
  { nested with
    direct := fun event listed => by
      rcases List.mem_append.mp listed with earlier | last
      · exact nested.direct event earlier
      · exact direct event (List.mem_singleton.mp last).symm }

theorem enter (nested : Nested view state) {base : GlyphName}
    (refers : ∀ outer ∈ state.stack.head?, base ∈ view.parts.keys → view.Draws outer base)
    (map : Affine α) : Nested view (state.enter view base map) := by
  unfold Decomposer.enter
  cases found : view.part? base with
  | none => exact nested.send nofun
  | some glyph =>
      dsimp only
      split
      · exact nested.send nofun
      · next fresh =>
          have present : base ∈ view.parts.keys := KeyedList.mem_keys_of_find? found
          exact
            { nested with
              stack_eq := congrArg (base :: ·) nested.stack_eq
              distinct := List.nodup_cons.mpr ⟨fresh, nested.distinct⟩
              chain := List.isChain_cons.mpr
                ⟨fun outer around => refers outer around present, nested.chain⟩
              drawing := List.forall_mem_cons.mpr
                ⟨⟨glyph, found, List.suffix_refl _⟩, nested.drawing⟩ }

theorem take (nested : Nested view state) {event drawn : OutlineEvent α}
    (kept : drawn.kind = event.kind)
    (refers : ∀ base inner, event = .component base inner → ∀ outer ∈ state.stack.head?,
      base ∈ view.parts.keys → view.Draws outer base) (map : Affine α) :
    Nested view (take view map drawn event state) := by
  by_cases direct : event.kind = .reference
  · cases event with
    | component base inner => exact nested.enter (refers base inner rfl) _
    | _ => cases direct
  · rw [take_of_ne_reference direct]
    refine nested.send fun other same => ?_
    cases same
    exact kept ▸ direct

/-- A step keeps the stack that of the glyphs being drawn. -/
theorem step (nested : Nested view state) (steps : state.step? view = some next) :
    Nested view next := by
  obtain ⟨events, glyphs, stack, output⟩ := state
  obtain ⟨stackEq, distinct, chain, drawing, direct⟩ := nested
  cases glyphs with
  | nil =>
      cases stackEq
      cases events with
      | nil => cases steps
      | cons event rest =>
          cases steps
          have waiting : Nested view { events := rest, output } :=
            ⟨rfl, distinct, chain, drawing, direct⟩
          exact waiting.take rfl (fun _ _ _ _ around => nomatch around) _
  | cons inside outer =>
      cases stackEq
      obtain ⟨⟨glyph, found, suffix⟩, around⟩ := List.forall_mem_cons.mp drawing
      obtain ⟨name, map, rest⟩ := inside
      cases rest with
      | nil =>
          cases steps
          exact ⟨rfl, (List.nodup_cons.mp distinct).2, chain.tail, around, direct⟩
      | cons event rest =>
          cases steps
          have further : rest <:+ glyph.events := (List.suffix_cons event rest).trans suffix
          have waiting : Nested view
              ⟨events, ⟨name, map, rest⟩ :: outer, name :: outer.map OpenGlyph.name, output⟩ :=
            ⟨rfl, distinct, chain,
              List.forall_mem_cons.mpr ⟨⟨glyph, found, further⟩, around⟩, direct⟩
          refine waiting.take (event.kind_transform map) ?_ map
          rintro base inner rfl _ ⟨⟩ present
          exact (FontView.draws_iff found).mpr
            ⟨Glyph.exists_part_of_mem_events (suffix.subset List.mem_cons_self), present⟩

theorem steps (nested : Nested view state) (steps : Steps view state next) :
    Nested view next := by
  induction steps with
  | refl => exact nested
  | tail _ last ih => exact ih.step last

end Nested

/-- Events are drawn without references in finitely many steps, after each of which the stack
is that of the glyphs being drawn and no deeper than there are glyphs. When an event is dealt
with, no glyph is open and no name on the stack. -/
theorem ends_and_restores {α : Type} [Coordinate α] (view : FontView α)
    (events : List (OutlineEvent α)) :
    Acc (fun next state : Decomposer α => state.step? view = some next) { events } ∧
      (∀ handled rest, events = handled ++ rest →
        Steps view { events } { events := rest, output := view.flatten handled }) ∧
      ∀ state, Steps view { events } state →
        Nested view state ∧ state.stack.length ≤ view.parts.size := by
  have reaches : ∀ handled rest, events = handled ++ rest →
      Steps view { events } { events := rest, output := view.flatten handled } := by
    rintro handled rest rfl
    exact steps_append view handled rest []
  refine ⟨?_, reaches, fun state steps => ?_⟩
  · exact acc_of_steps rfl (reaches events [] (List.append_nil events).symm)
  · have nested := (Nested.start view events).steps steps
    exact ⟨nested, nested.length_stack_le⟩

end Decomposer

end FontCompiler
