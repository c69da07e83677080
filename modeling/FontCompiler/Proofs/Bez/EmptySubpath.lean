import FontCompiler.Charstring.Program
import FontCompiler.Proofs.Bez.RoundTrip
import FontCompiler.Proofs.Outline.Postponed

/-!
# Empty subpaths in what is written

Of a move with an end right after it, relative drawing keeps the end. A charstring
program has no ends, so it does not tell whether the empty subpath was drawn. A bez
text has the end of a subpath with a line or a curve, and if the subpath before was
left open, it takes the end of the empty one for that. The text then differs, unless
an end is the next thing to be drawn, which would have been taken so instead.
-/

namespace FontCompiler

open OutlineEvent

namespace OutlineEvent

variable {α : Type}

/-- Whether all lines, curves and ends stand in subpaths begun by a move, where one may be
begun already. The next move may come whether or not the subpath was ended. -/
def eachBegun (begun : Bool) : List (OutlineEvent α) → Bool
  | [] => true
  | event :: rest =>
      match event.kind with
      | .move => eachBegun true rest
      | .segment => begun && eachBegun true rest
      | .ending => begun && eachBegun false rest
      | .reference => eachBegun begun rest

/-- The lines and curves and the ends of an outline. -/
def strokes (events : List (OutlineEvent α)) : List EventKind :=
  (events.map kind).filter fun kind => decide (kind = .segment ∨ kind = .ending)

/-- Whether there is a line or a curve that no end follows. -/
def LeavesOpen (events : List (OutlineEvent α)) : Prop :=
  (strokes events).getLast? = some .segment

instance (events : List (OutlineEvent α)) : Decidable (LeavesOpen events) :=
  inferInstanceAs (Decidable ((strokes events).getLast? = some .segment))

/-- Whether there is an end that no line or curve precedes. -/
def EndsFirst (events : List (OutlineEvent α)) : Prop :=
  (strokes events).head? = some .ending

instance (events : List (OutlineEvent α)) : Decidable (EndsFirst events) :=
  inferInstanceAs (Decidable ((strokes events).head? = some .ending))

end OutlineEvent

section Instructions

variable {α : Type} [Coordinate α]

omit [Coordinate α] in
/-- Whether something was drawn since the last move or end, after a subpath begun with or
without a segment. -/
def drawnAfter (drawn : Bool) : List (RelativeEvent α) → Bool
  | [] => drawn
  | .move _ :: rest => drawnAfter false rest
  | .line _ :: rest => drawnAfter true rest
  | .curve _ _ _ :: rest => drawnAfter true rest
  | .close :: rest => drawnAfter false rest
  | .finish :: rest => drawnAfter false rest

theorem bezInstructions_append (drawn : Bool) (steps later : List (RelativeEvent α)) :
    bezInstructions drawn (steps ++ later) =
      bezInstructions drawn steps ++ bezInstructions (drawnAfter drawn steps) later := by
  induction steps generalizing drawn with
  | nil => rfl
  | cons step rest ih =>
      cases step with
      | move target => exact congrArg (_ :: ·) (ih false)
      | line target => exact congrArg (_ :: ·) (ih true)
      | curve step1 step2 step3 => exact congrArg (_ :: ·) (ih true)
      | close =>
          cases drawn with
          | false => exact ih false
          | true => exact congrArg (_ :: ·) (ih false)
      | finish =>
          cases drawn with
          | false => exact ih false
          | true => exact congrArg (_ :: ·) (ih false)

/-- The last line, curve or end of an outline tells whether something was drawn after it. -/
theorem drawnAfter_drawAll (round drawn : Bool) (state : RelativeState α)
    (events : List (OutlineEvent α)) :
    drawnAfter drawn (state.drawAll round events).1 =
      ((strokes events).getLast?.map fun kind => decide (kind = .segment)).getD drawn := by
  have last (begun : Bool) (kind : EventKind) (kinds : List EventKind) :
      ((kind :: kinds).getLast?.map fun kind => decide (kind = .segment)).getD begun =
        (kinds.getLast?.map fun kind => decide (kind = .segment)).getD
          (decide (kind = .segment)) := by
    rw [List.getLast?_cons]
    cases kinds.getLast? <;> rfl
  induction events generalizing drawn state with
  | nil => rfl
  | cons event rest ih =>
      cases event with
      | move target => exact ih drawn (state.holdMove target)
      | line target =>
          refine Eq.trans ?_ (last drawn .segment (strokes rest)).symm
          cases held : state.held <;> simp [RelativeState.drawAll, RelativeState.draw,
            RelativeState.drawHeld, held, drawnAfter, ih]
      | curve control1 control2 target =>
          refine Eq.trans ?_ (last drawn .segment (strokes rest)).symm
          cases held : state.held <;> simp [RelativeState.drawAll, RelativeState.draw,
            RelativeState.drawHeld, held, drawnAfter, ih]
      | close => exact (ih false state).trans (last drawn .ending (strokes rest)).symm
      | finish => exact (ih false state).trans (last drawn .ending (strokes rest)).symm
      | component base transform => exact ih drawn state

theorem drawnAfter_relativeEvents_iff (round : Bool) (events : List (OutlineEvent α)) :
    drawnAfter false (relativeEvents round events) = true ↔ LeavesOpen events := by
  unfold LeavesOpen
  rw [relativeEvents, drawnAfter_drawAll]
  cases (strokes events).getLast? <;> simp

/-- An end is written if something was drawn before it. -/
theorem bezInstructions_ending {closing : RelativeEvent α}
    (closes : closing = .close ∨ closing = .finish) (drawn : Bool)
    (later : List (RelativeEvent α)) :
    bezInstructions drawn (closing :: later) =
      (if drawn then [⟨[], .close⟩] else []) ++ bezInstructions false later := by
  rcases closes with rfl | rfl <;> cases drawn <;> rfl

/-- Only an end that is the first thing drawn sees whether something was drawn before. -/
theorem bezInstructions_drawAll (round : Bool) (state : RelativeState α)
    (events : List (OutlineEvent α)) :
    bezInstructions true (state.drawAll round events).1 =
      (if EndsFirst events then [⟨[], .close⟩] else []) ++
        bezInstructions false (state.drawAll round events).1 := by
  induction events generalizing state with
  | nil => rfl
  | cons event rest ih =>
      cases event with
      | move target => exact ih (state.holdMove target)
      | line target =>
          cases held : state.held <;> simp [RelativeState.drawAll, RelativeState.draw,
            RelativeState.drawHeld, held, bezInstructions, EndsFirst, strokes, kind]
      | curve control1 control2 target =>
          cases held : state.held <;> simp [RelativeState.drawAll, RelativeState.draw,
            RelativeState.drawHeld, held, bezInstructions, EndsFirst, strokes, kind]
      | close => rfl
      | finish => rfl
      | component base transform => exact ih state

omit [Coordinate α] in
/-- Bez texts of different numbers of instructions are different. -/
theorem length_eq_of_bezText_eq {first second : List BezInstruction}
    (same : bezText first = bezText second) : first.length = second.length := by
  have lines := congrArg (fun text => (lines text.toList).length) same
  cases first <;> cases second <;> simp [lines_bezText] at lines ⊢; omega

/-- Of an empty subpath, a relative drawing keeps the end. -/
theorem relativeEvents_emptySubpath (round : Bool) (before : List (OutlineEvent α))
    {after : List (OutlineEvent α)} (point : Point α) {ending : OutlineEvent α}
    (ends : ending.kind = .ending) (moves : ∀ event ∈ after.head?, event.kind = .move) :
    ∃ (closing : RelativeEvent α) (later : List (RelativeEvent α)),
      (closing = .close ∨ closing = .finish) ∧
      relativeEvents round (before ++ .move point :: ending :: after) =
        relativeEvents round before ++ closing :: later ∧
      relativeEvents round (before ++ after) = relativeEvents round before ++ later ∧
      later = ((RelativeState.drawAll round {} before).2.drawAll round after).1 := by
  generalize reached : (RelativeState.drawAll round {} before).2 = state
  have split (rest : List (OutlineEvent α)) : relativeEvents round (before ++ rest) =
      relativeEvents round before ++ (state.drawAll round rest).1 := by
    rw [relativeEvents, RelativeState.drawAll_append, reached]
    rfl
  -- The move of the empty subpath gives way to the next one.
  have replaced : ((state.holdMove point).drawAll round after).1 =
      (state.drawAll round after).1 := by
    cases after with
    | nil => rfl
    | cons event rest =>
        obtain ⟨target, rfl⟩ := exists_eq_move (moves event rfl)
        rfl
  cases ending with
  | close =>
      refine ⟨.close, _, .inl rfl, (split _).trans ?_, split after, rfl⟩
      exact congrArg (fun steps => _ ++ .close :: steps) replaced
  | finish =>
      refine ⟨.finish, _, .inr rfl, (split _).trans ?_, split after, rfl⟩
      exact congrArg (fun steps => _ ++ .finish :: steps) replaced
  | _ => cases ends

end Instructions

/-- A charstring program does not change when an empty subpath is drawn before a move or at
the end. A bez text does not change if and only if there is no open subpath before it to which
its end could belong, or an end follows that would have been taken for that. -/
theorem emptySubpath_unnoticed_iff {α : Type} [Coordinate α] (round : Bool) (width : Option α)
    (before : List (OutlineEvent α)) {after : List (OutlineEvent α)} (point : Point α)
    {ending : OutlineEvent α} (ends : ending.kind = .ending)
    (moves : ∀ event ∈ after.head?, event.kind = .move) :
    CharstringProgram.ofEvents round width (before ++ .move point :: ending :: after) =
        CharstringProgram.ofEvents round width (before ++ after) ∧
      (bezOfEvents (before ++ .move point :: ending :: after) = bezOfEvents (before ++ after) ↔
        (LeavesOpen before → EndsFirst after)) := by
  constructor
  · obtain ⟨closing, later, closes, inserted, plain, -⟩ :=
      relativeEvents_emptySubpath round before point ends moves
    have noCommand : CharstringProgram.command? closing = none := by
      rcases closes with rfl | rfl <;> rfl
    unfold CharstringProgram.ofEvents CharstringProgram.ofRelative
    rw [inserted, plain, List.filterMap_append, List.filterMap_append,
      List.filterMap_cons_none noCommand]
  · obtain ⟨closing, later, closes, inserted, plain, drawn⟩ :=
      relativeEvents_emptySubpath true before point ends moves
    have opened := drawnAfter_relativeEvents_iff true before
    unfold bezOfEvents bezOfRelative
    rw [inserted, plain, bezInstructions_append, bezInstructions_append,
      bezInstructions_ending closes]
    by_cases leftOpen : LeavesOpen before
    · rw [opened.mpr leftOpen, if_pos rfl, drawn, bezInstructions_drawAll]
      by_cases endsFirst : EndsFirst after
      · rw [if_pos endsFirst]
        exact iff_of_true rfl fun _ => endsFirst
      · rw [if_neg endsFirst]
        refine iff_of_false (fun same => ?_) fun closed => endsFirst (closed leftOpen)
        have lengths := length_eq_of_bezText_eq same
        simp at lengths
    · rw [Bool.eq_false_iff.mpr (mt opened.mp leftOpen)]
      exact iff_of_true rfl fun left => absurd left leftOpen

def openLine (start target : Int) : List (OutlineEvent Double) :=
  [.move ⟨Coordinate.ofInt start, Coordinate.zero⟩, .line ⟨Coordinate.ofInt target, Coordinate.zero⟩]

/-- An empty subpath between two open lines. -/
theorem emptySubpath_unnoticed_iff_openLine :
    let point : Point Double := ⟨Coordinate.ofInt 5, Coordinate.ofInt 5⟩
    CharstringProgram.ofEvents true none (openLine 0 10 ++ .move point :: .close :: openLine 20 30) =
        CharstringProgram.ofEvents true none (openLine 0 10 ++ openLine 20 30) ∧
      bezOfEvents (openLine 0 10 ++ .move point :: .close :: openLine 20 30) ≠
        bezOfEvents (openLine 0 10 ++ openLine 20 30) := by
  intro point
  have closes : (OutlineEvent.close : OutlineEvent Double).kind = .ending := rfl
  have moves : ∀ event ∈ (openLine 20 30).head?, event.kind = .move := by decide
  obtain ⟨program, text⟩ :=
    emptySubpath_unnoticed_iff true none (openLine 0 10) point closes moves
  have noticed : ¬ (LeavesOpen (openLine 0 10) → EndsFirst (openLine 20 30)) := by decide
  exact ⟨program, mt text.mp noticed⟩

/-- An empty subpath is not always without trace where every subpath begins with a move. -/
theorem not_forall_emptySubpath_unnoticed :
    ¬ ∀ (before after : List (OutlineEvent Double)) (point : Point Double)
        (ending : OutlineEvent Double),
      eachBegun false (before ++ after) = true → ending.kind = .ending →
      (∀ event ∈ after.head?, event.kind = .move) →
        CharstringProgram.ofEvents true none (before ++ .move point :: ending :: after) =
            CharstringProgram.ofEvents true none (before ++ after) ∧
          bezOfEvents (before ++ .move point :: ending :: after) =
            bezOfEvents (before ++ after) := by
  intro unnoticed
  let point : Point Double := ⟨Coordinate.ofInt 5, Coordinate.ofInt 5⟩
  have moves : ∀ event ∈ (openLine 20 30).head?, event.kind = .move := by decide
  obtain ⟨-, same⟩ := unnoticed (openLine 0 10) (openLine 20 30) point .close rfl rfl moves
  have different : bezOfEvents (openLine 0 10 ++ .move point :: .close :: openLine 20 30) ≠
      bezOfEvents (openLine 0 10 ++ openLine 20 30) := by
    decide +kernel
  exact different same

end FontCompiler
