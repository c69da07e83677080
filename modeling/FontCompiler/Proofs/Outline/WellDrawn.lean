import Mathlib.Data.List.SplitBy
import FontCompiler.Glyph.Basic
import FontCompiler.Outline.Flatten
import FontCompiler.Proofs.Outline.Coalescing

/-!
# Outlines are well drawn

The outline of a glyph consists of subpaths, each of which is a move, then lines
and curves, and then an end. This holds of contours, of references, and of
whatever a flattened glyph is made of.
-/

namespace FontCompiler

/-- The part that an event plays in an outline. -/
inductive EventKind where
  | move
  /-- A line or a curve. -/
  | segment
  /-- The end of a subpath, closed or open. -/
  | ending
  | reference
  deriving DecidableEq

namespace OutlineEvent

variable {α : Type}

def kind : OutlineEvent α → EventKind
  | move _ => .move
  | line _ => .segment
  | curve _ _ _ => .segment
  | close => .ending
  | finish => .ending
  | component _ _ => .reference

/-- The subpaths of an outline, each of which begins with a move. -/
def subpaths (events : List (OutlineEvent α)) : List (List (OutlineEvent α)) :=
  events.splitBy fun _ next => decide (next.kind ≠ .move)

/-- The outline without the subpaths that have no line or curve. -/
def onlyDrawn (events : List (OutlineEvent α)) : List (OutlineEvent α) :=
  ((subpaths events).filter fun subpath =>
    subpath.any fun event => decide (event.kind = .segment)).flatten

/-- A line or a curve is kept, after the move that waits. -/
theorem coalesce_segment {event : OutlineEvent α} (drawn : event.kind = .segment)
    (held : Option (Point α)) (rest : List (OutlineEvent α)) :
    coalesce held (event :: rest) = held.toList.map move ++ event :: coalesce none rest := by
  cases event with
  | line target => rfl
  | curve control1 control2 target => rfl
  | _ => cases drawn

/-- An end is kept, and the move that waits goes on waiting. -/
theorem coalesce_ending {event : OutlineEvent α} (ends : event.kind = .ending)
    (held : Option (Point α)) (rest : List (OutlineEvent α)) :
    coalesce held (event :: rest) = event :: coalesce held rest := by
  cases event with
  | close => rfl
  | finish => rfl
  | _ => cases ends

/-- Lines, curves and ends are kept while no move waits. -/
theorem coalesce_none_append {others : List (OutlineEvent α)}
    (still : ∀ event ∈ others, event.kind = .segment ∨ event.kind = .ending)
    (rest : List (OutlineEvent α)) :
    coalesce none (others ++ rest) = others ++ coalesce none rest := by
  induction others with
  | nil => rfl
  | cons event others ih =>
      obtain ⟨first, later⟩ := List.forall_mem_cons.mp still
      rw [List.cons_append, List.cons_append, ← ih later]
      rcases first with drawn | ends
      · exact coalesce_segment drawn none _
      · exact coalesce_ending ends none _

theorem coalesce_segments {segments : List (OutlineEvent α)}
    (drawn : ∀ event ∈ segments, event.kind = .segment) (rest : List (OutlineEvent α)) :
    coalesce none (segments ++ rest) = segments ++ coalesce none rest :=
  coalesce_none_append (fun event listed => .inl (drawn event listed)) rest

end OutlineEvent

open OutlineEvent

/-- An outline of subpaths: a move, then lines and curves, then an end. -/
inductive WellDrawn {α : Type} : List (OutlineEvent α) → Prop where
  | nil : WellDrawn []
  | subpath {start ending : OutlineEvent α} {segments rest : List (OutlineEvent α)}
      (moves : start.kind = .move) (drawn : ∀ event ∈ segments, event.kind = .segment)
      (ends : ending.kind = .ending) (later : WellDrawn rest) :
      WellDrawn (start :: (segments ++ ending :: rest))

namespace WellDrawn

variable {α : Type}

theorem append {first second : List (OutlineEvent α)} (wellDrawn : WellDrawn first)
    (next : WellDrawn second) : WellDrawn (first ++ second) := by
  induction wellDrawn with
  | nil => exact next
  | subpath moves drawn ends _ ih =>
      rw [List.cons_append, List.append_assoc, List.cons_append]
      exact .subpath moves drawn ends ih

theorem flatMap {β : Type} {items : List β} {events : β → List (OutlineEvent α)}
    (wellDrawn : ∀ item ∈ items, WellDrawn (events item)) : WellDrawn (items.flatMap events) := by
  induction items with
  | nil => exact .nil
  | cons item items ih =>
      exact (wellDrawn item List.mem_cons_self).append
        (ih fun later listed => wellDrawn later (List.mem_cons_of_mem item listed))

/-- Well-drawn outlines stay so when other events of the same kinds take their places. -/
theorem map {image : OutlineEvent α → OutlineEvent α}
    (kinds : ∀ event, (image event).kind = event.kind)
    {events : List (OutlineEvent α)} (wellDrawn : WellDrawn events) :
    WellDrawn (events.map image) := by
  induction wellDrawn with
  | nil => exact .nil
  | @subpath start ending _ _ moves drawn ends _ ih =>
      rw [List.map_cons, List.map_append, List.map_cons]
      refine .subpath ((kinds start).trans moves) ?_ ((kinds ending).trans ends) ih
      intro event listed
      obtain ⟨original, found, rfl⟩ := List.mem_map.mp listed
      exact (kinds original).trans (drawn original found)

theorem map_mapPoints (image : Point α → Point α) {events : List (OutlineEvent α)}
    (wellDrawn : WellDrawn events) : WellDrawn (events.map (mapPoints image)) := by
  refine wellDrawn.map fun event => ?_
  cases event <;> rfl

theorem head_kind {events : List (OutlineEvent α)} (wellDrawn : WellDrawn events) :
    ∀ event ∈ events.head?, event.kind = .move := by
  cases wellDrawn with
  | nil => exact fun _ found => nomatch found
  | subpath moves _ _ _ => exact fun _ found => Option.some.inj found ▸ moves

theorem kind_ne_reference {events : List (OutlineEvent α)} (wellDrawn : WellDrawn events) :
    ∀ event ∈ events, event.kind ≠ .reference := by
  induction wellDrawn with
  | nil => exact fun _ listed => absurd listed List.not_mem_nil
  | subpath moves drawn ends _ ih =>
      rw [List.forall_mem_cons, List.forall_mem_append, List.forall_mem_cons]
      refine ⟨?_, fun event segment => ?_, ?_, ih⟩
      · rw [moves]
        exact nofun
      · rw [drawn event segment]
        exact nofun
      · rw [ends]
        exact nofun

end WellDrawn

theorem isChain_of_forall_mem {α : Type} {holds : α → Prop} (start : α) {later : List α}
    (all : ∀ next ∈ later, holds next) : (start :: later).IsChain fun _ next => holds next := by
  induction later generalizing start with
  | nil => exact .singleton start
  | cons next later ih =>
      obtain ⟨first, rest⟩ := List.forall_mem_cons.mp all
      exact .cons_cons first (ih next rest)

/-- What comes before the next move belongs to one subpath. -/
theorem subpaths_cons_append {α : Type} {first : OutlineEvent α}
    {others rest : List (OutlineEvent α)} (unmoved : ∀ event ∈ others, event.kind ≠ .move)
    (moves : ∀ event ∈ rest.head?, event.kind = .move) :
    subpaths (first :: (others ++ rest)) = (first :: others) :: subpaths rest := by
  have chain : (first :: others).IsChain fun _ next => decide (next.kind ≠ .move) = true :=
    isChain_of_forall_mem first fun event listed => decide_eq_true (unmoved event listed)
  unfold subpaths
  rw [← List.cons_append, List.splitBy_append, List.splitBy_of_isChain (List.cons_ne_nil _ _) chain]
  · rfl
  · intro _ _ next found
    rw [moves next found]
    rfl

/-- The first subpath of an outline is left out if nothing is drawn in it. -/
theorem onlyDrawn_subpath {α : Type} {start ending : OutlineEvent α}
    {segments rest : List (OutlineEvent α)}
    (moves : start.kind = .move) (drawn : ∀ event ∈ segments, event.kind = .segment)
    (ends : ending.kind = .ending) (later : WellDrawn rest) :
    onlyDrawn (start :: (segments ++ ending :: rest)) =
      (if segments.isEmpty then [] else start :: (segments ++ [ending])) ++ onlyDrawn rest := by
  have unmoved : ∀ event ∈ segments ++ [ending], event.kind ≠ .move := by
    refine List.forall_mem_append.mpr ⟨fun event segment => ?_, fun event last => ?_⟩
    · rw [drawn event segment]
      exact nofun
    · rw [List.mem_singleton.mp last, ends]
      exact nofun
  have joined : segments ++ ending :: rest = segments ++ [ending] ++ rest := by
    rw [List.append_assoc, List.singleton_append]
  unfold onlyDrawn
  rw [joined, subpaths_cons_append unmoved later.head_kind, List.filter_cons]
  cases segments with
  | nil => simp [moves, ends]
  | cons segment segments => simp [drawn segment List.mem_cons_self]

namespace Contour

variable {α : Type} [Coordinate α]

theorem quadraticRun_kind (start : Point α) (controls : List (Point α)) (target : Point α) :
    ∀ event ∈ quadraticRun start controls target, event.kind = .segment := by
  fun_induction quadraticRun start controls target with
  | case1 => exact fun _ listed => absurd listed List.not_mem_nil
  | case2 => exact fun _ listed => List.mem_singleton.mp listed ▸ rfl
  | case3 _ _ _ _ _ ih => exact List.forall_mem_cons.mpr ⟨rfl, ih⟩

theorem segmentTo_kind (start : Point α) (pending : List (Point α)) (target : ContourPoint α) :
    ∀ event ∈ segmentTo start pending target, event.kind = .segment := by
  unfold segmentTo
  split
  · exact fun _ listed => List.mem_singleton.mp listed ▸ rfl
  · exact fun _ listed => List.mem_singleton.mp listed ▸ rfl
  · exact quadraticRun_kind start pending target.point
  · exact fun _ listed => List.mem_singleton.mp listed ▸ rfl

theorem segments_kind (start : Point α) (pending : List (Point α))
    (points : List (ContourPoint α)) :
    ∀ event ∈ segments start pending points, event.kind = .segment := by
  induction points generalizing start pending with
  | nil => exact fun _ listed => absurd listed List.not_mem_nil
  | cons point rest ih =>
      rw [segments]
      split
      · exact ih start (pending ++ [point.point])
      · exact List.forall_mem_append.mpr ⟨segmentTo_kind start pending point, ih point.point []⟩

/-- A contour is one subpath. -/
theorem wellDrawn_events (contour : Contour α) : WellDrawn contour.events := by
  unfold events
  split
  · exact .nil
  · split
    · exact .subpath rfl (segments_kind _ _ _) rfl .nil
    · exact .subpath rfl (segments_kind _ _ _) rfl .nil

end Contour

namespace FontView

variable {α : Type} [Coordinate α]

theorem wellDrawn_contourEvents (glyph : Glyph α) : WellDrawn glyph.contourEvents :=
  .flatMap fun contour _ => contour.wellDrawn_events

/-- A drawn reference is well drawn, however deep its glyph refers on. -/
theorem wellDrawn_expand (view : FontView α) (path : List GlyphName) (base : GlyphName)
    (map : Affine α) :
    WellDrawn ((view.expand path base map).filterMap Flattened.event?) := by
  fun_induction expand view path base map with
  | case1 => exact .nil
  | case2 => exact .nil
  | case3 path base map glyph found visited ih =>
      rw [List.filterMap_append, List.filterMap_flatMap, List.filterMap_map]
      refine .append ?_ (.flatMap fun part _ => ih part)
      have drawn : glyph.contourEvents.filterMap
          (Flattened.event? ∘ fun event => .drawn (event.transform map)) =
            glyph.contourEvents.map fun event => event.transform map :=
        congrFun List.filterMap_eq_map glyph.contourEvents
      rw [drawn]
      refine (wellDrawn_contourEvents glyph).map fun event => ?_
      cases event <;> rfl

/-- Events other than references are drawn as they are. -/
theorem flatten_of_ne_reference (view : FontView α) {events : List (OutlineEvent α)}
    (direct : ∀ event ∈ events, event.kind ≠ .reference) :
    view.flatten events = events.map .drawn := by
  unfold flatten
  induction events with
  | nil => rfl
  | cons event rest ih =>
      obtain ⟨first, later⟩ := List.forall_mem_cons.mp direct
      have drawn : view.flattenEvent event = [.drawn event] := by
        cases event <;> first | rfl | exact absurd rfl first
      rw [List.flatMap_cons, drawn, ih later]
      rfl

/-- A glyph is drawn as its contours, and then its references one by one. -/
theorem flatten_events (view : FontView α) (glyph : Glyph α) :
    view.flatten glyph.events = glyph.contourEvents.map .drawn ++
      glyph.components.flatMap fun part =>
        view.expand [] part.base (Affine.identity.compose part.transform) := by
  rw [← view.flatten_of_ne_reference (wellDrawn_contourEvents glyph).kind_ne_reference]
  unfold flatten Glyph.events
  rw [List.flatMap_append, List.flatMap_map]
  rfl

theorem flatEvents_events (view : FontView α) (glyph : Glyph α) :
    view.flatEvents glyph.events = glyph.contourEvents ++ glyph.components.flatMap fun part =>
      (view.expand [] part.base (Affine.identity.compose part.transform)).filterMap
        Flattened.event? := by
  have contours : (glyph.contourEvents.map Flattened.drawn).filterMap Flattened.event? =
      glyph.contourEvents := by
    rw [List.filterMap_map]
    exact List.filterMap_some
  unfold flatEvents
  rw [flatten_events, List.filterMap_append, List.filterMap_flatMap, contours]

/-- Only references are left out of a drawing. -/
theorem skippedComponents_events (view : FontView α) (glyph : Glyph α) :
    view.skippedComponents glyph.events = glyph.components.flatMap fun part =>
      (view.expand [] part.base (Affine.identity.compose part.transform)).filterMap
        Flattened.skipped? := by
  have contours : (glyph.contourEvents.map Flattened.drawn).filterMap Flattened.skipped? = [] := by
    rw [List.filterMap_map]
    exact List.filterMap_eq_nil_iff.mpr fun _ _ => rfl
  unfold skippedComponents
  rw [flatten_events, List.filterMap_append, List.filterMap_flatMap, contours, List.nil_append]

/-- The flattened outline of a glyph is well drawn. -/
theorem wellDrawn_flatEvents (view : FontView α) (glyph : Glyph α) :
    WellDrawn (view.flatEvents glyph.events) := by
  rw [flatEvents_events]
  exact (wellDrawn_contourEvents glyph).append (.flatMap fun part _ => view.wellDrawn_expand _ _ _)

end FontView

end FontCompiler
