import FontCompiler.Charstring.Program
import FontCompiler.Proofs.Bez.RoundTrip
import FontCompiler.Proofs.Number.HalfInteger

/-!
# Bez texts are canonical

What a bez text draws is written as the same text again. Of an outline, the text
keeps the coalesced events, except that it leaves out the ends of subpaths in which
nothing is drawn, and closes all others. Nothing of this is left to be done when the
text is drawn and written once more, and a charstring program has no ends.
-/

namespace FontCompiler

open OutlineEvent

/-- An outline in which every move stands right before a line or a curve. -/
inductive Coalesced {α : Type} : List (OutlineEvent α) → Prop where
  | nil : Coalesced []
  | segment {event : OutlineEvent α} {rest : List (OutlineEvent α)}
      (drawn : event.kind = .segment) (later : Coalesced rest) : Coalesced (event :: rest)
  | moved (start : Point α) {event : OutlineEvent α} {rest : List (OutlineEvent α)}
      (drawn : event.kind = .segment) (later : Coalesced rest) :
      Coalesced (.move start :: event :: rest)
  | ending {event : OutlineEvent α} {rest : List (OutlineEvent α)}
      (ends : event.kind = .ending) (later : Coalesced rest) : Coalesced (event :: rest)

section Outlines

variable {α : Type}

/-- The move that waits may come before a segment. -/
theorem Coalesced.held_append (held : Option (Point α)) {event : OutlineEvent α}
    {rest : List (OutlineEvent α)} (drawn : event.kind = .segment) (later : Coalesced rest) :
    Coalesced (held.toList.map move ++ event :: rest) := by
  cases held with
  | none => exact .segment drawn later
  | some start => exact .moved start drawn later

theorem coalesced_coalesce (held : Option (Point α)) (events : List (OutlineEvent α)) :
    Coalesced (coalesce held events) := by
  induction events generalizing held with
  | nil => exact .nil
  | cons event rest ih =>
      cases event with
      | move target => exact ih (some target)
      | line target => exact (ih none).held_append held rfl
      | curve control1 control2 target => exact (ih none).held_append held rfl
      | close => exact .ending rfl (ih held)
      | finish => exact .ending rfl (ih held)
      | component base transform => exact ih held

/-- A coalesced outline is not changed by coalescing it again. -/
theorem Coalesced.coalesce_eq {events : List (OutlineEvent α)} (coalesced : Coalesced events) :
    coalesce none events = events := by
  induction coalesced with
  | nil => rfl
  | segment drawn _ ih =>
      rw [coalesce_segment drawn, ih]
      rfl
  | moved start drawn _ ih =>
      rw [coalesce, coalesce_segment drawn, ih]
      rfl
  | ending ends _ ih => rw [coalesce_ending ends, ih]

/-- The outline that is written of an outline, after a subpath begun with or without a
segment: every subpath with a segment is closed, and other ends are left out. -/
def writtenOutline (drawn : Bool) : List (OutlineEvent α) → List (OutlineEvent α)
  | [] => []
  | .move target :: rest => .move target :: writtenOutline false rest
  | .line target :: rest => .line target :: writtenOutline true rest
  | .curve control1 control2 target :: rest =>
      .curve control1 control2 target :: writtenOutline true rest
  | .close :: rest =>
      if drawn then .close :: writtenOutline false rest else writtenOutline false rest
  | .finish :: rest =>
      if drawn then .close :: writtenOutline false rest else writtenOutline false rest
  | .component _ _ :: rest => writtenOutline drawn rest

theorem writtenOutline_segment {event : OutlineEvent α} (segment : event.kind = .segment)
    (drawn : Bool) (rest : List (OutlineEvent α)) :
    writtenOutline drawn (event :: rest) = event :: writtenOutline true rest := by
  cases event with
  | line target => rfl
  | curve control1 control2 target => rfl
  | _ => cases segment

theorem writtenOutline_ending {event : OutlineEvent α} (ends : event.kind = .ending)
    (drawn : Bool) (rest : List (OutlineEvent α)) :
    writtenOutline drawn (event :: rest) =
      (if drawn then [.close] else []) ++ writtenOutline false rest := by
  cases event with
  | close => cases drawn <;> rfl
  | finish => cases drawn <;> rfl
  | _ => cases ends

/-- An outline stays coalesced when ends are left out or replaced. -/
theorem Coalesced.writtenOutline {events : List (OutlineEvent α)} (coalesced : Coalesced events)
    (drawn : Bool) : Coalesced (writtenOutline drawn events) := by
  induction coalesced generalizing drawn with
  | nil => exact .nil
  | segment segment _ ih =>
      rw [writtenOutline_segment segment]
      exact .segment segment (ih true)
  | moved start segment _ ih =>
      rw [FontCompiler.writtenOutline, writtenOutline_segment segment]
      exact .moved start segment (ih true)
  | ending ends _ ih =>
      rw [writtenOutline_ending ends]
      cases drawn with
      | false => exact ih false
      | true => exact .ending rfl (ih false)

end Outlines

section Steps

variable {α : Type}

/-- Instructions leave out what is not written. -/
theorem bezInstructions_writtenSteps [Coordinate α] (drawn : Bool)
    (steps : List (RelativeEvent α)) :
    bezInstructions drawn (writtenSteps drawn steps) = bezInstructions drawn steps := by
  induction steps generalizing drawn with
  | nil => rfl
  | cons step rest ih =>
      cases step with
      | move target => exact congrArg (_ :: ·) (ih false)
      | line target => exact congrArg (_ :: ·) (ih true)
      | curve step1 step2 step3 => exact congrArg (_ :: ·) (ih true)
      | close =>
          cases drawn with
          | false => exact ih false
          | true => exact congrArg (_ :: ·) (ih false)
      | finish =>
          cases drawn with
          | false => exact ih false
          | true => exact congrArg (_ :: ·) (ih false)

/-- Commands leave out all ends. -/
theorem commands_writtenSteps (drawn : Bool) (steps : List (RelativeEvent α)) :
    (writtenSteps drawn steps).filterMap CharstringProgram.command? =
      steps.filterMap CharstringProgram.command? := by
  induction steps generalizing drawn with
  | nil => rfl
  | cons step rest ih =>
      cases step with
      | move target => exact congrArg (_ :: ·) (ih false)
      | line target => exact congrArg (_ :: ·) (ih true)
      | curve step1 step2 step3 => exact congrArg (_ :: ·) (ih true)
      | close => cases drawn <;> exact ih false
      | finish => cases drawn <;> exact ih false

variable [Coordinate α]

/-- What is written of the steps along an outline are the steps along what is written. -/
theorem stepsAlong_writtenOutline (drawn : Bool) (last : Option (Point α))
    (events : List (OutlineEvent α)) :
    stepsAlong last (writtenOutline drawn events) =
      writtenSteps drawn (stepsAlong last events) := by
  induction events generalizing drawn last with
  | nil => rfl
  | cons event rest ih =>
      cases event with
      | move target => exact congrArg (_ :: ·) (ih false (some target))
      | line target => exact congrArg (_ :: ·) (ih true (some target))
      | curve control1 control2 target => exact congrArg (_ :: ·) (ih true (some target))
      | close =>
          cases drawn with
          | false => exact ih false last
          | true => exact congrArg (_ :: ·) (ih false last)
      | finish =>
          cases drawn with
          | false => exact ih false last
          | true => exact congrArg (_ :: ·) (ih false last)
      | component base transform => exact ih drawn last

theorem OutlineEvent.AllWhole.writtenOutline {events : List (OutlineEvent α)}
    (whole : AllWhole events) (drawn : Bool) : AllWhole (writtenOutline drawn events) := by
  induction events generalizing drawn with
  | nil => exact whole
  | cons event rest ih =>
      obtain ⟨first, later⟩ := List.forall_mem_cons.mp whole
      have closing : AllWhole (.close :: FontCompiler.writtenOutline false rest) :=
        List.forall_mem_cons.mpr ⟨nofun, ih later false⟩
      cases event with
      | move target => exact List.forall_mem_cons.mpr ⟨first, ih later false⟩
      | line target => exact List.forall_mem_cons.mpr ⟨first, ih later true⟩
      | curve control1 control2 target => exact List.forall_mem_cons.mpr ⟨first, ih later true⟩
      | close =>
          cases drawn with
          | false => exact ih later false
          | true => exact closing
      | finish =>
          cases drawn with
          | false => exact ih later false
          | true => exact closing
      | component base transform => exact ih later drawn

/-- Whole points are their own roundings. -/
theorem OutlineEvent.AllWhole.map_round [StableRounding α] {events : List (OutlineEvent α)}
    (whole : AllWhole events) : events.map (mapPoints Point.round) = events := by
  have same {point : Point α} (whole : point.IsWhole (2 ^ 51)) : point.round = point := by
    obtain ⟨x, y, smallX, smallY, rfl⟩ := whole
    exact congrArg₂ Point.mk (StableRounding.roundHalfUp_ofInt smallX)
      (StableRounding.roundHalfUp_ofInt smallY)
  refine (List.map_congr_left fun event listed => ?_).trans (List.map_id events)
  have points := whole event listed
  cases event with
  | move target => exact congrArg move (same (points target List.mem_cons_self))
  | line target => exact congrArg line (same (points target List.mem_cons_self))
  | curve control1 control2 target =>
      have first := same (points control1 (by simp [OutlineEvent.points]))
      have second := same (points control2 (by simp [OutlineEvent.points]))
      have third := same (points target (by simp [OutlineEvent.points]))
      rw [mapPoints, first, second, third]
      rfl
  | _ => rfl

/-- What is written of a coalesced outline is drawn as it is: no move closes a subpath. -/
theorem Coalesced.drawAll_eq [ExactArithmetic α] {events : List (OutlineEvent α)}
    (coalesced : Coalesced events) (whole : AllWhole events) {last : Option (Point α)}
    (lastWhole : ∀ point ∈ last, point.IsWhole (2 ^ 51)) (drawn : Bool) :
    BezState.drawAll ⟨last, false⟩ (writtenSteps drawn (stepsAlong last events)) =
      FontCompiler.writtenOutline drawn events := by
  induction coalesced generalizing last drawn with
  | nil => rfl
  | segment segment _ ih =>
      obtain ⟨first, later⟩ := List.forall_mem_cons.mp whole
      obtain ⟨next, nextWhole, step⟩ := drawAll_segment segment first lastWhole
      rw [step, ih later (isWhole_some nextWhole), writtenOutline_segment segment]
  | moved start segment _ ih =>
      obtain ⟨startWhole, restWhole⟩ := List.forall_mem_cons.mp whole
      obtain ⟨first, later⟩ := List.forall_mem_cons.mp restWhole
      have targetWhole := startWhole start List.mem_cons_self
      obtain ⟨next, nextWhole, step⟩ := drawAll_segment segment first (isWhole_some targetWhole)
      rw [drawAll_move targetWhole lastWhole, step, ih later (isWhole_some nextWhole),
        FontCompiler.writtenOutline, writtenOutline_segment segment]
  | ending ends _ ih =>
      have later := (List.forall_mem_cons.mp whole).2
      rw [writtenSteps_ending ends, writtenOutline_ending ends, ← ih later lastWhole false]
      cases drawn <;> rfl

end Steps

section Texts

variable {α : Type} [Coordinate α] {events : List (OutlineEvent α)}

theorem relativeEvents_round (events : List (OutlineEvent α)) : relativeEvents true events =
    stepsAlong none (coalesce none (events.map (mapPoints Point.round))) :=
  RelativeState.drawAll_eq_stepsAlong true {} events

theorem OutlineEvent.AllWhole.coalesce (whole : AllWhole events) :
    AllWhole (coalesce none events) := by
  intro event listed
  rcases mem_or_of_mem_coalesce listed with found | ⟨_, none, _⟩
  · exact whole event found
  · cases none

/-- Relative drawing of what is written of an outline gives what is written of the relative
drawing. -/
theorem relativeEvents_writtenOutline [StableRounding α]
    (whole : AllWhole (events.map (mapPoints Point.round))) :
    relativeEvents true
        (writtenOutline false (coalesce none (events.map (mapPoints Point.round)))) =
      writtenSteps false (relativeEvents true events) := by
  rw [relativeEvents_round, relativeEvents_round, (whole.coalesce.writtenOutline false).map_round,
    ((coalesced_coalesce none _).writtenOutline false).coalesce_eq, stepsAlong_writtenOutline]

variable [ExactArithmetic α]

/-- The bez text of an outline is drawn as what is written of the coalesced outline with
rounded points. -/
theorem ofText_bezOfEvents (whole : AllWhole (events.map (mapPoints Point.round))) :
    BezDrawing.ofText (bezOfEvents events) =
      ⟨writtenOutline false (coalesce none (events.map (mapPoints Point.round))), none⟩ := by
  have noPoint : ∀ point ∈ (none : Option (Point α)), point.IsWhole (2 ^ 51) :=
    fun _ none => nomatch none
  unfold bezOfEvents bezOfRelative
  rw [relativeEvents_round, ofText_bezText (spells_stepsAlong false noPoint whole.coalesce)]
  exact congrArg (BezDrawing.mk · none)
    ((coalesced_coalesce none _).drawAll_eq whole.coalesce noPoint false)

/-- A bez text that was written of an outline with whole rounded points can be drawn. What
it draws is written as the same text again, and has the same charstring program as the
outline. -/
theorem ofText_bezOfEvents_canonical [StableRounding α] (width : Option α)
    (events : List (OutlineEvent α)) (whole : AllWhole (events.map (mapPoints Point.round))) :
    let drawing : BezDrawing α := BezDrawing.ofText (bezOfEvents events)
    drawing.fault = none ∧
      bezOfEvents drawing.events = bezOfEvents events ∧
      CharstringProgram.ofEvents true width drawing.events =
        CharstringProgram.ofEvents true width events := by
  intro drawing
  have drawn : drawing = ⟨writtenOutline false (coalesce none (events.map (mapPoints Point.round))),
      none⟩ := ofText_bezOfEvents whole
  have again : relativeEvents true drawing.events =
      writtenSteps false (relativeEvents true events) := by
    rw [drawn]
    exact relativeEvents_writtenOutline whole
  refine ⟨congrArg BezDrawing.fault drawn, ?_, ?_⟩
  · unfold bezOfEvents bezOfRelative
    rw [again, bezInstructions_writtenSteps]
  · unfold CharstringProgram.ofEvents CharstringProgram.ofRelative
    rw [again, commands_writtenSteps]

end Texts

/-- Drawing without a move, a move that waits beyond an end, and a subpath left open. -/
theorem ofText_bezOfEvents_unbegun :
    let half : Double := .ofLiteral (.finite false 5 (-1))
    let whole (number : Int) : Double := Coordinate.ofInt number
    let events : List (OutlineEvent Double) :=
      [.line ⟨half, whole 20⟩, .move ⟨whole 30, whole 30⟩, .move ⟨whole 1, half - whole 8⟩,
        .finish, .curve ⟨half, whole 0⟩ ⟨whole 3, whole 0⟩ ⟨whole 3, whole 9⟩,
        .move ⟨whole 3, whole 9⟩, .line ⟨half, whole 9⟩]
    let drawing : BezDrawing Double := BezDrawing.ofText (bezOfEvents events)
    AllWhole (events.map (mapPoints Point.round)) ∧
      drawing.fault = none ∧
      bezOfEvents drawing.events = bezOfEvents events ∧
      CharstringProgram.ofEvents true none drawing.events =
        CharstringProgram.ofEvents true none events := by
  intro half whole events drawing
  have rounded : events.map (mapPoints Point.round) =
      [.line ⟨whole 1, whole 20⟩, .move ⟨whole 30, whole 30⟩, .move ⟨whole 1, whole (-7)⟩,
        .finish, .curve ⟨whole 1, whole 0⟩ ⟨whole 3, whole 0⟩ ⟨whole 3, whole 9⟩,
        .move ⟨whole 3, whole 9⟩, .line ⟨whole 1, whole 9⟩] := by
    decide +kernel
  have point (x y : Int) (small : x.natAbs ≤ 2 ^ 51 ∧ y.natAbs ≤ 2 ^ 51) :
      Point.IsWhole (2 ^ 51) ⟨whole x, whole y⟩ :=
    ⟨x, y, small.1, small.2, rfl⟩
  have allWhole : AllWhole (events.map (mapPoints Point.round)) := by
    rw [rounded]
    simp only [AllWhole, points, List.forall_mem_cons, List.not_mem_nil, false_implies,
      implies_true, and_true, true_and]
    exact ⟨point 1 20 (by decide), point 30 30 (by decide), point 1 (-7) (by decide),
      ⟨point 1 0 (by decide), point 3 0 (by decide), point 3 9 (by decide)⟩,
      point 3 9 (by decide), point 1 9 (by decide)⟩
  exact ⟨allWhole, ofText_bezOfEvents_canonical none events allWhole⟩

end FontCompiler
