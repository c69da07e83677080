import FontCompiler.Number.Double
import FontCompiler.Proofs.Bez.Lines
import FontCompiler.Proofs.Text.Splitting

/-!
# Drawing stops at the first line that fails

A bez text is drawn as far as its lines can be read. The fault that stops the drawing is
that of the first line that fails, and what is drawn is what the lines before it draw by
themselves.
-/

namespace FontCompiler

open BezLine

/-- The number of the line at which drawing stopped. -/
def BezError.line : BezError → Nat
  | unknownWord _ line => line
  | missingOperands _ line _ _ => line
  | invalidNumber _ line => line

section Lines

variable {α : Type} [Coordinate α]

theorem BezLine.Fails.line_eq {number : Nat} {line : List Char} {fault : BezError}
    (fails : Fails α number line fault) : fault.line = number := by
  cases fails <;> rfl

/-- Lines are drawn without a fault exactly when none of them fails. -/
theorem fault_ofLines_eq_none_iff (state : BezState α) (number : Nat) (lines : List (List Char)) :
    (BezDrawing.ofLines state number lines).fault = none ↔
      ∀ line ∈ lines, Uninterpreted line ∨ WellFormed α line := by
  induction lines generalizing state number with
  | nil => simp [BezDrawing.ofLines]
  | cons line rest ih =>
      rw [List.forall_mem_cons, ← exists_read_eq_ok_iff number]
      cases read : BezLine.read (α := α) number line with
      | error fault => simp [BezDrawing.ofLines, read]
      | ok meaning => simp [BezDrawing.ofLines, read, ih]

/-- A fault is that of a line before which no line fails, and the lines before it draw by
themselves what all lines draw. -/
theorem ofLines_stops {state : BezState α} {number : Nat} {lines : List (List Char)}
    {fault : BezError} (stopped : (BezDrawing.ofLines state number lines).fault = some fault) :
    ∃ before line after, lines = before ++ line :: after ∧
      Fails α (number + before.length) line fault ∧
      BezDrawing.ofLines state number before =
        ⟨(BezDrawing.ofLines state number lines).events, none⟩ := by
  induction lines generalizing state number with
  | nil => cases stopped
  | cons line rest ih =>
      cases read : BezLine.read (α := α) number line with
      | error found =>
          have same : found = fault := by simpa [BezDrawing.ofLines, read] using stopped
          refine ⟨[], line, rest, rfl, ?_, by simp [BezDrawing.ofLines, read]⟩
          exact same ▸ read_eq_error_iff.mp read
      | ok meaning =>
          have later : (BezDrawing.ofLines (state.apply meaning).2 (number + 1) rest).fault =
              some fault := by
            simpa [BezDrawing.ofLines, read] using stopped
          obtain ⟨before, failing, after, split, fails, drawn⟩ := ih later
          refine ⟨line :: before, failing, after, by rw [split, List.cons_append], ?_, ?_⟩
          · simpa [Nat.add_assoc, Nat.add_comm 1] using fails
          · simp [BezDrawing.ofLines, read, drawn]

end Lines

/-- A bez text whose drawing stops has a first line that fails. The fault is that of this line,
and the lines before it draw by themselves, without a fault, what the text draws. A text is
drawn to its end exactly when each of its lines is uninterpreted or a complete instruction. -/
theorem ofText_stops_at_first_failure {α : Type} [Coordinate α] (text : String) :
    let drawing : BezDrawing α := BezDrawing.ofText text
    (∀ fault, drawing.fault = some fault →
      ∃ before line after, lines text.toList = before ++ line :: after ∧
        fault.line = before.length + 1 ∧ Fails α fault.line line fault ∧
        (∀ earlier ∈ before, Uninterpreted earlier ∨ WellFormed α earlier) ∧
        BezDrawing.ofText (String.ofList (firstLines before.length text.toList)) =
          ⟨drawing.events, none⟩) ∧
    (drawing.fault = none ↔
      ∀ line ∈ lines text.toList, Uninterpreted line ∨ WellFormed α line) := by
  intro drawing
  refine ⟨fun fault stopped => ?_, fault_ofLines_eq_none_iff {} 1 (lines text.toList)⟩
  obtain ⟨before, line, after, split, fails, drawn⟩ := ofLines_stops stopped
  have place : fault.line = before.length + 1 := by rw [fails.line_eq, Nat.add_comm]
  have first : lines (firstLines before.length text.toList) = before := by
    rw [lines_firstLines, split, List.take_left]
  refine ⟨before, line, after, split, place, fails.line_eq ▸ fails, ?_, ?_⟩
  · exact (fault_ofLines_eq_none_iff {} 1 before).mp (congrArg BezDrawing.fault drawn)
  · rw [BezDrawing.ofText, String.toList_ofList, first, drawn]
    rfl

/-- A move that lacks an operand draws not even the end of the subpath before it, and the
comment above it counts as a line. -/
theorem ofText_stops_at_incomplete_move :
    let text := "10 10 rmt\n% 5 5 rmt\n5 rmt\n10 hdt\n"
    let point : Point Double := ⟨Coordinate.ofInt 10, Coordinate.ofInt 10⟩
    let fault : BezError := .missingOperands "rmt" 3 2 1
    BezDrawing.ofText text = ⟨[.move point], some fault⟩ ∧
      ∃ before line after, lines text.toList = before ++ line :: after ∧
        fault.line = before.length + 1 ∧ Fails Double fault.line line fault ∧
        BezDrawing.ofText (String.ofList (firstLines before.length text.toList)) =
          ⟨[.move point], none⟩ := by
  intro text point fault
  have drawn : BezDrawing.ofText text = ⟨[.move point], some fault⟩ := by
    decide +kernel
  obtain ⟨stops, -⟩ := ofText_stops_at_first_failure (α := Double) text
  obtain ⟨before, line, after, split, place, fails, -, alone⟩ :=
    stops fault (congrArg BezDrawing.fault drawn)
  exact ⟨drawn, before, line, after, split, place, fails, by rw [alone, drawn]⟩

end FontCompiler
