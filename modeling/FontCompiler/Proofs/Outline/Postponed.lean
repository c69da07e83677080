import FontCompiler.Proofs.Outline.WellDrawn

/-!
# Relative drawing postpones moves

An outline is cut into stretches, each of which lasts until the next move. The move
of a stretch is drawn right before the first line or curve of the stretch, or not at
all; everything else is drawn in its place. The steps of a relative drawing add up to
the points of the outline arranged so, and the move that is left waiting is that of a
last stretch without lines and curves.
-/

namespace FontCompiler

namespace OutlineEvent

variable {α : Type}

/-- A stretch with its move right before its first line or curve, or without its move if
there is none. -/
def postponeMove : List (OutlineEvent α) → List (OutlineEvent α)
  | move start :: events =>
      match events.dropWhile fun event => decide (event.kind ≠ .segment) with
      | [] => events
      | drawn =>
          (events.takeWhile fun event => decide (event.kind ≠ .segment)) ++ move start :: drawn
  | events => events

/-- The outline with every move right before the first line or curve after it, and without
the moves that none follows before the next move or the end. References are left out. -/
def postponeMoves (events : List (OutlineEvent α)) : List (OutlineEvent α) :=
  (subpaths (events.filter fun event => decide (event.kind ≠ .reference))).flatMap postponeMove

/-- The last move, if no line or curve follows it. -/
def waitingMove? (events : List (OutlineEvent α)) : Option (Point α) :=
  match (subpaths events).getLast? with
  | some (move start :: later) =>
      if later.any fun event => decide (event.kind = .segment) then none else some start
  | _ => none

/-- Induction over the stretches of an outline. -/
theorem subpaths_induction {motive : List (OutlineEvent α) → Prop} (nil : motive [])
    (subpath : ∀ first others rest, (∀ event ∈ others, event.kind ≠ .move) →
      (∀ event ∈ rest.head?, event.kind = .move) → motive rest →
      motive (first :: (others ++ rest))) :
    ∀ events, motive events
  | [] => nil
  | first :: later => by
      have moves := List.head?_dropWhile_not (fun event => decide (event.kind ≠ .move)) later
      rw [← List.takeWhile_append_dropWhile (p := fun event => decide (event.kind ≠ .move))
        (l := later)]
      refine subpath _ _ _ (fun event listed => ?_) (fun event found => ?_)
        (subpaths_induction nil subpath _)
      · exact of_decide_eq_true (List.all_eq_true.mp List.all_takeWhile event listed)
      · rw [found] at moves
        simpa using moves
termination_by events => events.length
decreasing_by exact Nat.lt_succ_of_le (List.dropWhile_sublist _).length_le

section Stretch

theorem postponeMove_segment (start : Point α) {event : OutlineEvent α}
    (drawn : event.kind = .segment) (rest : List (OutlineEvent α)) :
    postponeMove (move start :: event :: rest) = move start :: event :: rest := by
  simp [postponeMove, drawn]

theorem postponeMove_ending (start : Point α) {event : OutlineEvent α}
    (ends : event.kind = .ending) (rest : List (OutlineEvent α)) :
    postponeMove (move start :: event :: rest) = event :: postponeMove (move start :: rest) := by
  simp only [postponeMove, List.dropWhile_cons, List.takeWhile_cons, ends, ne_eq, reduceCtorEq,
    not_false_eq_true, decide_true, if_true]
  split <;> rfl

/-- A move that waits is forgotten at the next move. -/
theorem coalesce_of_moves {rest : List (OutlineEvent α)}
    (moves : ∀ event ∈ rest.head?, event.kind = .move) (held : Option (Point α)) :
    coalesce held rest = coalesce none rest := by
  cases rest with
  | nil => rfl
  | cons event rest =>
      have first := moves event rfl
      cases event with
      | move target => rfl
      | _ => cases first

theorem coalesce_some_append (start : Point α) {others rest : List (OutlineEvent α)}
    (still : ∀ event ∈ others, event.kind = .segment ∨ event.kind = .ending)
    (moves : ∀ event ∈ rest.head?, event.kind = .move) :
    coalesce (some start) (others ++ rest) =
      postponeMove (move start :: others) ++ coalesce none rest := by
  induction others with
  | nil => exact coalesce_of_moves moves (some start)
  | cons event others ih =>
      obtain ⟨first, later⟩ := List.forall_mem_cons.mp still
      rcases first with drawn | ends
      · rw [List.cons_append, coalesce_segment drawn, coalesce_none_append later,
          postponeMove_segment start drawn]
        rfl
      · rw [List.cons_append, coalesce_ending ends, ih later, postponeMove_ending start ends,
          List.cons_append]

end Stretch

theorem coalesce_filter (held : Option (Point α)) (events : List (OutlineEvent α)) :
    coalesce held (events.filter fun event => decide (event.kind ≠ .reference)) =
      coalesce held events := by
  induction events generalizing held with
  | nil => rfl
  | cons event rest ih =>
      cases event with
      | move target => exact ih (some target)
      | line target => exact congrArg (_ ++ line target :: ·) (ih none)
      | curve control1 control2 target =>
          exact congrArg (_ ++ curve control1 control2 target :: ·) (ih none)
      | close => exact congrArg (close :: ·) (ih held)
      | finish => exact congrArg (finish :: ·) (ih held)
      | component base transform => exact ih held

/-- Coalescing treats each stretch by itself. -/
theorem coalesce_eq_flatMap {events : List (OutlineEvent α)}
    (direct : ∀ event ∈ events, event.kind ≠ .reference) :
    coalesce none events = (subpaths events).flatMap postponeMove := by
  induction events using subpaths_induction with
  | nil => rfl
  | subpath first others rest unmoved moves ih =>
      obtain ⟨firstDirect, laterDirect⟩ := List.forall_mem_cons.mp direct
      obtain ⟨othersDirect, restDirect⟩ := List.forall_mem_append.mp laterDirect
      have still : ∀ event ∈ others, event.kind = .segment ∨ event.kind = .ending := by
        intro event listed
        have notMove := unmoved event listed
        have notReference := othersDirect event listed
        cases kind : event.kind <;> simp_all
      rw [subpaths_cons_append unmoved moves, List.flatMap_cons, ← ih restDirect]
      cases first with
      | move start => exact coalesce_some_append start still moves
      | component base transform => exact absurd rfl firstDirect
      | _ => exact coalesce_none_append (List.forall_mem_cons.mpr ⟨by simp [kind], still⟩) rest

theorem coalesce_eq_postponeMoves (events : List (OutlineEvent α)) :
    coalesce none events = postponeMoves events := by
  rw [← coalesce_filter, coalesce_eq_flatMap]
  · rfl
  · exact fun event listed => of_decide_eq_true (List.mem_filter.mp listed).2

theorem coalesce_mapPoints (image : Point α → Point α) (held : Option (Point α))
    (events : List (OutlineEvent α)) :
    coalesce (held.map image) (events.map (mapPoints image)) =
      (coalesce held events).map (mapPoints image) := by
  induction events generalizing held with
  | nil => rfl
  | cons event rest ih =>
      cases event with
      | move target => exact ih (some target)
      | line target => cases held <;> simp [coalesce, mapPoints, ← ih]
      | curve control1 control2 target => cases held <;> simp [coalesce, mapPoints, ← ih]
      | close => exact congrArg (close :: ·) (ih held)
      | finish => exact congrArg (finish :: ·) (ih held)
      | component base transform => exact ih held

end OutlineEvent

open OutlineEvent

namespace RelativeState

variable {α : Type} [Coordinate α] (round : Bool)

theorem drawAll_append (state : RelativeState α) (events later : List (OutlineEvent α)) :
    state.drawAll round (events ++ later) =
      ((state.drawAll round events).1 ++ ((state.drawAll round events).2.drawAll round later).1,
        ((state.drawAll round events).2.drawAll round later).2) := by
  induction events generalizing state with
  | nil => rfl
  | cons event rest ih =>
      rw [List.cons_append, drawAll, drawAll]
      simp only [ih, List.append_assoc]

/-- Without further moves, the move that waits goes on waiting until a line or a curve. -/
theorem held_drawAll_of_unmoved (state : RelativeState α) {events : List (OutlineEvent α)}
    (unmoved : ∀ event ∈ events, event.kind ≠ .move) :
    (state.drawAll round events).2.held =
      if events.any fun event => decide (event.kind = .segment) then none else state.held := by
  induction events generalizing state with
  | nil => rfl
  | cons event rest ih =>
      obtain ⟨first, later⟩ := List.forall_mem_cons.mp unmoved
      have next : (state.drawAll round (event :: rest)).2 =
          ((state.draw round event).2.drawAll round rest).2 := rfl
      rw [next, ih _ later]
      cases event with
      | move target => exact absurd rfl first
      | line target => simp [draw, kind]
      | curve control1 control2 target => simp [draw, kind]
      | _ => simp [draw, kind]

end RelativeState

section Waiting

variable {α : Type} {first : OutlineEvent α} {others rest : List (OutlineEvent α)}

/-- In one stretch, the move that begins it waits as long as nothing is drawn. -/
theorem waitingMove?_stretch (unmoved : ∀ event ∈ others, event.kind ≠ .move) :
    waitingMove? (first :: others) =
      match first with
      | .move start =>
          if others.any fun event => decide (event.kind = .segment) then none else some start
      | _ => none := by
  have alone : subpaths (first :: (others ++ [])) = [first :: others] :=
    subpaths_cons_append unmoved nofun
  rw [List.append_nil] at alone
  unfold waitingMove?
  rw [alone]
  cases first <;> rfl

/-- Only the last stretch matters. -/
theorem waitingMove?_append (unmoved : ∀ event ∈ others, event.kind ≠ .move)
    (moves : ∀ event ∈ rest.head?, event.kind = .move) (more : rest ≠ []) :
    waitingMove? (first :: (others ++ rest)) = waitingMove? rest := by
  have last : ((first :: others) :: subpaths rest).getLast? = (subpaths rest).getLast? := by
    cases cut : subpaths rest with
    | nil => exact absurd (List.splitBy_eq_nil.mp cut) more
    | cons stretch later => exact List.getLast?_cons_cons
  unfold waitingMove?
  rw [subpaths_cons_append unmoved moves, last]

/-- The move that is left waiting is the last one, unless a line or a curve follows it. -/
theorem held_drawAll [Coordinate α] (round : Bool) (state : RelativeState α)
    {events : List (OutlineEvent α)}
    (fresh : state.held = none ∨ ∃ event ∈ events.head?, event.kind = .move) :
    (state.drawAll round events).2.held = waitingMove? events := by
  induction events using subpaths_induction generalizing state with
  | nil =>
      rcases fresh with none | ⟨_, found, _⟩
      · exact none
      · cases found
  | subpath first others rest unmoved moves ih =>
      cases rest with
      | nil =>
          rw [List.append_nil, waitingMove?_stretch unmoved]
          have later := RelativeState.held_drawAll_of_unmoved round (state.draw round first).2 unmoved
          have waits (other : first.kind ≠ .move) : state.held = none := by
            rcases fresh with none | ⟨event, found, moved⟩
            · exact none
            · exact absurd (Option.some.inj found ▸ moved) other
          have settled (still : (state.draw round first).2.held = none) :
              (state.drawAll round (first :: others)).2.held = none :=
            later.trans (by rw [still, ite_self])
          cases first with
          | move start => exact later
          | line target => exact settled rfl
          | curve control1 control2 target => exact settled rfl
          | close => exact settled (waits nofun)
          | finish => exact settled (waits nofun)
          | component base transform => exact settled (waits nofun)
      | cons next rest =>
          have begins : ∃ event ∈ (next :: rest).head?, event.kind = .move :=
            ⟨next, rfl, moves next rfl⟩
          rw [waitingMove?_append unmoved moves (List.cons_ne_nil _ _), ← List.cons_append,
            RelativeState.drawAll_append]
          exact ih _ (.inr begins)

end Waiting

/-- What a relative drawing does at one step. -/
inductive RelativeKind where
  | move
  | line
  | curve
  | close
  | finish
  deriving DecidableEq

namespace RelativeEvent

variable {α : Type}

def kind : RelativeEvent α → RelativeKind
  | move _ => .move
  | line _ => .line
  | curve _ _ _ => .curve
  | close => .close
  | finish => .finish

/-- The steps from point to point, in order. -/
def steps : RelativeEvent α → List (Point α)
  | move step => [step]
  | line step => [step]
  | curve step1 step2 step3 => [step1, step2, step3]
  | close => []
  | finish => []

end RelativeEvent

/-- What a relative drawing does at an event; references are not drawn. -/
def OutlineEvent.relativeKind? {α : Type} : OutlineEvent α → Option RelativeKind
  | move _ => some .move
  | line _ => some .line
  | curve _ _ _ => some .curve
  | close => some .close
  | finish => some .finish
  | component _ _ => none

/-- The points that steps lead to one after the other, from the origin on. -/
def runningSums {α : Type} [Coordinate α] (steps : List (Point α)) : List (Point α) :=
  (steps.scanl (· + ·) ⟨Coordinate.zero, Coordinate.zero⟩).tail

theorem kinds_stepsAlong {α : Type} [Coordinate α] (last : Option (Point α))
    (events : List (OutlineEvent α)) :
    (stepsAlong last events).map RelativeEvent.kind = events.filterMap relativeKind? := by
  induction events generalizing last with
  | nil => rfl
  | cons event rest ih =>
      cases event with
      | move target => exact congrArg (.move :: ·) (ih (some target))
      | line target => exact congrArg (.line :: ·) (ih (some target))
      | curve control1 control2 target => exact congrArg (.curve :: ·) (ih (some target))
      | close => exact congrArg (.close :: ·) (ih last)
      | finish => exact congrArg (.finish :: ·) (ih last)
      | component base transform => exact ih last

/-- Without rounding error, the steps along an outline add up to its points. -/
theorem scanl_stepsAlong (last : Option (Point Rat)) (events : List (OutlineEvent Rat)) :
    ((stepsAlong last events).flatMap RelativeEvent.steps).scanl (· + ·) (stepOrigin last) =
      stepOrigin last :: events.flatMap points := by
  induction events generalizing last with
  | nil => rfl
  | cons event rest ih =>
      -- The sum so far is the point that was named last.
      have along (target : Point Rat) :
          ((stepsAlong (some target) rest).flatMap RelativeEvent.steps).scanl (· + ·) target =
            target :: rest.flatMap points := ih (some target)
      cases event with
      | move target =>
          simp [stepsAlong, RelativeEvent.steps, points, stepOrigin_add_stepFrom, along]
      | line target =>
          simp [stepsAlong, RelativeEvent.steps, points, stepOrigin_add_stepFrom, along]
      | curve control1 control2 target =>
          have second : control1 + _ = _ := stepOrigin_add_stepFrom (some control1) control2
          have third : control2 + _ = _ := stepOrigin_add_stepFrom (some control2) target
          simp [stepsAlong, RelativeEvent.steps, points, stepOrigin_add_stepFrom, second, third,
            along]
      | close => exact ih last
      | finish => exact ih last
      | component base transform => exact ih last

/-- A relative drawing does what its outline does once moves are postponed, and its steps add
up to the points of that outline, rounded if points are rounded. The move that is left waiting
is the last one, unless a line or a curve follows it. -/
theorem relativeEvents_exact (round : Bool) (events : List (OutlineEvent Rat)) :
    let drawn := (postponeMoves events).map (mapPoints (rounding round))
    (relativeEvents round events).map RelativeEvent.kind = drawn.filterMap relativeKind? ∧
      runningSums ((relativeEvents round events).flatMap RelativeEvent.steps) =
        drawn.flatMap points ∧
      (RelativeState.drawAll round {} events).2.held = waitingMove? events := by
  intro drawn
  have along : relativeEvents round events = stepsAlong none drawn := by
    rw [relativeEvents, RelativeState.drawAll_eq_stepsAlong, Option.map_none]
    exact congrArg (stepsAlong none) ((coalesce_mapPoints (rounding round) none events).trans
      (congrArg _ (coalesce_eq_postponeMoves events)))
  rw [along]
  refine ⟨kinds_stepsAlong none drawn, ?_, held_drawAll round {} (.inl rfl)⟩
  exact congrArg List.tail (scanl_stepsAlong none drawn)

end FontCompiler
