import Mathlib.Data.List.Chain
import FontCompiler.Number.Double
import FontCompiler.Proofs.Bez.Faults
import FontCompiler.Proofs.Outline.WellDrawn

/-!
# Uninterpreted lines leave no trace

Blank lines, log lines, comments and the instructions that are not drawn may stand anywhere in
a bez text. They leave the drawing as it is, and a fault only moves down by their number.
Between two moves they do not keep the first subpath from being closed, so a text that never
forgets the last point draws no two moves in a row.
-/

namespace FontCompiler

open BezLine

/-- Lines with others put before, between and after them. The gap with an index stands before
the line with that index. -/
def insertLines (gaps : Nat → List (List Char)) : List (List Char) → List (List Char)
  | [] => gaps 0
  | line :: rest => gaps 0 ++ line :: insertLines (fun index => gaps (index + 1)) rest

/-- How many lines are put before the line with a number. -/
def insertedBefore (gaps : Nat → List (List Char)) (number : Nat) : Nat :=
  ((List.range number).map fun index => (gaps index).length).sum

theorem insertedBefore_succ (gaps : Nat → List (List Char)) (number : Nat) :
    insertedBefore gaps (number + 1) =
      (gaps 0).length + insertedBefore (fun index => gaps (index + 1)) number := by
  simp [insertedBefore, List.range_succ_eq_map, Function.comp_def]

def BezError.below (count : Nat) : BezError → BezError
  | unknownWord word line => .unknownWord word (line + count)
  | missingOperands word line expected found => .missingOperands word (line + count) expected found
  | invalidNumber field line => .invalidNumber field (line + count)

/-- Whether two events do not both move. -/
def NoTwoMoves {α : Type} (event next : OutlineEvent α) : Prop :=
  ¬ (event.kind = .move ∧ next.kind = .move)

section Drawing

variable {α : Type} [Coordinate α]

/-- A line fails alike wherever it stands. -/
theorem BezLine.Fails.below {number : Nat} {line : List Char} {fault : BezError}
    (fails : Fails α number line fault) (count : Nat) :
    Fails α (number + count) line (fault.below count) := by
  cases fails with
  | unknown instruction keeps unnamed => exact .unknown instruction keeps unnamed
  | incomplete instruction named incomplete => exact .incomplete instruction named incomplete
  | noNumber instruction named complete needed numbers noNumber =>
      exact .noNumber instruction named complete needed numbers noNumber

/-- What a line says does not depend on its number. -/
theorem read_eq_ok_of_read_eq_ok {number : Nat} {line : List Char} {meaning : BezLine α}
    (reads : BezLine.read number line = .ok meaning) (other : Nat) :
    BezLine.read other line = .ok meaning := by
  rcases (exists_read_eq_ok_iff number).mp ⟨meaning, reads⟩ with uninterpreted | wellFormed
  · rw [← reads, uninterpreted.read_eq, uninterpreted.read_eq]
  · obtain ⟨known, read⟩ := wellFormed.read_eq (α := α)
    rw [← reads, read, read]

/-- Uninterpreted lines only move the lines after them down. -/
theorem ofLines_uninterpreted {gap : List (List Char)}
    (uninterpreted : ∀ line ∈ gap, Uninterpreted line) (state : BezState α) (number : Nat)
    (rest : List (List Char)) :
    BezDrawing.ofLines state number (gap ++ rest) =
      BezDrawing.ofLines state (number + gap.length) rest := by
  induction gap generalizing number with
  | nil => rfl
  | cons line gap ih =>
      obtain ⟨first, later⟩ := List.forall_mem_cons.mp uninterpreted
      have place : number + (line :: gap).length = number + 1 + gap.length := by
        rw [List.length_cons, Nat.add_assoc, Nat.add_comm 1]
      rw [place, ← ih later, List.cons_append, BezDrawing.ofLines, first.read_eq]
      rfl

theorem le_line_of_fault {state : BezState α} {number : Nat} {lines : List (List Char)}
    {fault : BezError} (stopped : (BezDrawing.ofLines state number lines).fault = some fault) :
    number ≤ fault.line := by
  obtain ⟨before, line, after, -, fails, -⟩ := ofLines_stops stopped
  rw [fails.line_eq]
  exact Nat.le_add_right number before.length

/-- Lines among which uninterpreted ones were put draw what they drew. -/
theorem ofLines_insertLines {gaps : Nat → List (List Char)}
    (uninterpreted : ∀ index, ∀ line ∈ gaps index, Uninterpreted line) (state : BezState α)
    (number count : Nat) (lines : List (List Char)) :
    BezDrawing.ofLines state (number + count) (insertLines gaps lines) =
      ⟨(BezDrawing.ofLines state number lines).events,
        (BezDrawing.ofLines state number lines).fault.map fun fault =>
          fault.below (count + insertedBefore gaps (fault.line + 1 - number))⟩ := by
  induction lines generalizing gaps state number count with
  | nil =>
      have drawn := ofLines_uninterpreted (uninterpreted 0) state (number + count) []
      rw [List.append_nil] at drawn
      rw [insertLines, drawn]
      rfl
  | cons line rest ih =>
      rw [insertLines, ofLines_uninterpreted (uninterpreted 0), Nat.add_assoc]
      cases read : BezLine.read (α := α) number line with
      | error fault =>
          have fails := read_eq_error_iff.mp read
          have one : insertedBefore gaps (fault.line + 1 - number) = (gaps 0).length := by
            rw [fails.line_eq, Nat.add_sub_cancel_left]
            simp [insertedBefore]
          have moved := (fails.below (count + (gaps 0).length)).read_eq
          simp [BezDrawing.ofLines, read, moved, one]
      | ok meaning =>
          have moved := read_eq_ok_of_read_eq_ok read (number + (count + (gaps 0).length))
          have later := ih (fun index => uninterpreted (index + 1)) (state.apply meaning).2
            (number + 1) (count + (gaps 0).length)
          rw [Nat.add_right_comm] at later
          simp only [BezDrawing.ofLines, read, moved, later]
          cases stopped : (BezDrawing.ofLines (state.apply meaning).2 (number + 1) rest).fault with
          | none => rfl
          | some fault =>
              have after : number + 1 ≤ fault.line := le_line_of_fault stopped
              have place : fault.line + 1 - number = (fault.line - number) + 1 := by omega
              simp [place, insertedBefore_succ, Nat.add_assoc]

/-- A drawing step draws no two moves in a row. After a move it does not begin with one, and
one that it ends with is remembered. -/
theorem BezState.noTwoMoves_draw (state : BezState α) (event : RelativeEvent α) :
    (state.draw event).1.IsChain NoTwoMoves ∧
      (∀ first ∈ (state.draw event).1.head?, state.moved = true → first.kind ≠ .move) ∧
      ∃ last ∈ (state.draw event).1.getLast?,
        last.kind = .move → (state.draw event).2.moved = true := by
  cases event with
  | move step => by_cases moved : state.moved = true <;>
      simp [BezState.draw, moved, NoTwoMoves, OutlineEvent.kind]
  | line step => simp [BezState.draw, OutlineEvent.kind]
  | curve step1 step2 step3 => simp [BezState.draw, OutlineEvent.kind]
  | close => simp [BezState.draw, OutlineEvent.kind]
  | finish => simp [BezState.draw, OutlineEvent.kind]

theorem read_eq_forget_iff {number : Nat} {line : List Char} :
    BezLine.read number line = .ok (.forget : BezLine α) ↔ Forgets line := by
  constructor
  · intro reads
    rcases (exists_read_eq_ok_iff number).mp ⟨_, reads⟩ with uninterpreted | wellFormed
    · rw [uninterpreted.read_eq] at reads
      cases reads
    cases wellFormed with
    | forgets forgets => exact forgets
    | draws kind instruction named complete numbers =>
        obtain ⟨event, drawn⟩ := read_eq_draw instruction named complete numbers
        rw [drawn] at reads
        cases reads
  · rintro ⟨operands, word, instruction, forgets⟩
    rw [instruction.read_eq, if_pos forgets]

/-- Lines none of which forgets the last point draw no two moves in a row, and after a move
they do not begin with one. -/
theorem noTwoMoves_ofLines (state : BezState α) (number : Nat) {lines : List (List Char)}
    (keeps : ∀ line ∈ lines, ¬ Forgets line) :
    (BezDrawing.ofLines state number lines).events.IsChain NoTwoMoves ∧
      ∀ first ∈ (BezDrawing.ofLines state number lines).events.head?,
        state.moved = true → first.kind ≠ .move := by
  induction lines generalizing state number with
  | nil => simp [BezDrawing.ofLines]
  | cons line rest ih =>
      obtain ⟨keepsFirst, keepsRest⟩ := List.forall_mem_cons.mp keeps
      cases read : BezLine.read (α := α) number line with
      | error fault => simp [BezDrawing.ofLines, read]
      | ok meaning =>
          cases meaning with
          | nothing =>
              simpa [BezDrawing.ofLines, read, BezState.apply] using ih state (number + 1) keepsRest
          | forget => exact absurd (read_eq_forget_iff.mp read) keepsFirst
          | draw event =>
              obtain ⟨chain, begins, last, ends, remembered⟩ := state.noTwoMoves_draw event
              obtain ⟨laterChain, laterBegins⟩ := ih (state.draw event).2 (number + 1) keepsRest
              simp only [BezDrawing.ofLines, read, BezState.apply]
              constructor
              · refine List.isChain_append.mpr ⟨chain, laterChain, ?_⟩
                rintro event ended next nextBegins ⟨moves, nextMoves⟩
                have same : last = event := Option.mem_unique ends ended
                exact laterBegins next nextBegins (remembered (same ▸ moves)) nextMoves
              · intro first listed
                refine begins first ?_
                have drawn : (state.draw event).1 ≠ [] := by
                  intro empty
                  simp [empty] at ends
                rwa [List.head?_append_of_ne_nil _ drawn] at listed

end Drawing

/-- Uninterpreted lines put anywhere into a bez text change nothing of what it draws, nor
whether it fails and how. The line at which it fails only moves down by the lines put before
it. A text that never forgets the last point draws no two moves in a row. -/
theorem ofText_uninterpreted {α : Type} [Coordinate α] (text : String) :
    let drawing : BezDrawing α := BezDrawing.ofText text
    (∀ (gaps : Nat → List (List Char)) (padded : String),
      (∀ index, ∀ line ∈ gaps index, Uninterpreted line) →
      lines padded.toList = insertLines gaps (lines text.toList) →
        BezDrawing.ofText padded =
          ⟨drawing.events, drawing.fault.map fun fault =>
            fault.below (insertedBefore gaps fault.line)⟩) ∧
    ((∀ line ∈ lines text.toList, ¬ Forgets line) → drawing.events.IsChain NoTwoMoves) := by
  intro drawing
  refine ⟨fun gaps padded uninterpreted inserted => ?_,
    fun keeps => (noTwoMoves_ofLines {} 1 keeps).1⟩
  have drawn := ofLines_insertLines uninterpreted ({} : BezState α) 1 0 (lines text.toList)
  simp only [Nat.add_zero, Nat.zero_add, Nat.add_sub_cancel] at drawn
  rw [BezDrawing.ofText, inserted, drawn]
  rfl

/-- Lines of every uninterpreted kind, between two moves and after them. -/
def remarks : Nat → List (List Char)
  | 1 => ["% 5 5 rdt".toList, [], "1 2 rb".toList]
  | 2 => ["Wrote it".toList]
  | _ => []

/-- The second move still closes the subpath of the first, and the fault moves down by four. -/
theorem ofText_uninterpreted_remarks :
    let text := "10 10 rmt\n5 5 rmt\n3 xyz\n"
    let padded := "10 10 rmt\n% 5 5 rdt\n\n1 2 rb\n5 5 rmt\nWrote it\n3 xyz\n"
    let point (place : Int) : Point Double := ⟨Coordinate.ofInt place, Coordinate.ofInt place⟩
    (∀ index, ∀ line ∈ remarks index, Uninterpreted line) ∧
      lines padded.toList = insertLines remarks (lines text.toList) ∧
      (∀ line ∈ lines text.toList, ¬ Forgets line) ∧
      BezDrawing.ofText padded =
        ⟨[.move (point 10), .close, .move (point 15)], some (.unknownWord "xyz" 7)⟩ ∧
      (BezDrawing.ofText text : BezDrawing Double).events.IsChain NoTwoMoves := by
  intro text padded point
  have uninterpreted : ∀ index, ∀ line ∈ remarks index, Uninterpreted line := by
    intro index line listed
    match index with
    | 0 => cases listed
    | 1 =>
        simp only [remarks, List.mem_cons, List.not_mem_nil, or_false] at listed
        rcases listed with rfl | rfl | rfl
        · exact .comment ⟨_, rfl⟩
        · exact .blank rfl
        · have spelled : fields "1 2 rb".toList = ["1".toList, "2".toList] ++ ["rb".toList] := rfl
          exact .undrawn spelled (by decide)
    | 2 =>
        simp only [remarks, List.mem_cons, List.not_mem_nil, or_false] at listed
        exact .log ⟨" it".toList, by rw [listed]; rfl⟩
    | _ + 3 => cases listed
  have inserted : lines padded.toList = insertLines remarks (lines text.toList) := by
    decide +kernel
  have keeps : ∀ line ∈ lines text.toList, ¬ Forgets line := by
    have others : ∀ line ∈ lines text.toList,
        BezLine.read 1 line ≠ .ok (.forget : BezLine Double) := by
      decide +kernel
    exact fun line listed forgets => others line listed (read_eq_forget_iff.mpr forgets)
  have drawn : (BezDrawing.ofText text : BezDrawing Double) =
      ⟨[.move (point 10), .close, .move (point 15)], some (.unknownWord "xyz" 3)⟩ := by
    decide +kernel
  obtain ⟨unchanged, chain⟩ := ofText_uninterpreted (α := Double) text
  refine ⟨uninterpreted, inserted, keeps, ?_, chain keeps⟩
  rw [unchanged remarks padded uninterpreted inserted, drawn]
  rfl

end FontCompiler
