import Mathlib.Data.List.Chain
import FontCompiler.Charstring.Program
import FontCompiler.Proofs.Outline.Coalescing

/-!
# The shape of a charstring program

The commands of a program are those of the steps along the coalesced outline,
and after them the command that finishes the glyph. Each operator has its
operands before it, and a move is always followed by a line or a curve.
-/

namespace FontCompiler

/-- The number of operands that an operator takes. -/
def Operator.arity : Operator → Nat
  | moveTo => 2
  | lineTo => 2
  | curveTo => 6
  | endChar => 0

/-- What may come right after a command: after a move, neither a move nor the end. -/
def Command.Precedes {α : Type} (command next : Command α) : Prop :=
  command.operator = .moveTo → next.operator ≠ .moveTo ∧ next.operator ≠ .endChar

/-- Anything may come after a command that is not a move. -/
theorem Command.isChain_cons_of_ne_moveTo {α : Type} {command : Command α}
    {rest : List (Command α)} (other : command.operator ≠ .moveTo)
    (chain : rest.IsChain Command.Precedes) : (command :: rest).IsChain Command.Precedes :=
  List.isChain_cons.mpr ⟨fun _ _ moves => absurd moves other, chain⟩

/-- A line or a curve may come after a move that waits for it, and before anything. -/
theorem Command.isChain_segment {α : Type} (waiting : Option (Command α)) {command : Command α}
    {rest : List (Command α)} (other : command.operator ≠ .moveTo)
    (unfinished : command.operator ≠ .endChar) (chain : rest.IsChain Command.Precedes) :
    (waiting.toList ++ command :: rest).IsChain Command.Precedes := by
  have tail := isChain_cons_of_ne_moveTo other chain
  cases waiting with
  | none => exact tail
  | some move => exact .cons_cons (fun _ => ⟨other, unfinished⟩) tail

namespace CharstringProgram

variable {α : Type}

/-- The form that every compiled program has. -/
structure WellFormed (program : CharstringProgram α) : Prop where
  /-- The operator that finishes the glyph comes once, at the end. -/
  ends : ∃ drawing, program.commands = drawing ++ [⟨[], .endChar⟩] ∧
    ∀ command ∈ drawing, command.operator ≠ .endChar
  operands : ∀ command ∈ program.commands, command.operands.length = command.operator.arity
  moves : program.commands.IsChain Command.Precedes

theorem of_command? {event : RelativeEvent α} {command : Command α}
    (drawn : command? event = some command) :
    command.operands.length = command.operator.arity ∧ command.operator ≠ .endChar := by
  cases event with
  | move step => cases drawn; exact ⟨rfl, nofun⟩
  | line step => cases drawn; exact ⟨rfl, nofun⟩
  | curve step1 step2 step3 => cases drawn; exact ⟨rfl, nofun⟩
  | close => cases drawn
  | finish => cases drawn

variable [Coordinate α]

/-- The commands of the steps along a sequence of events. -/
def commandsAlong (last : Option (Point α)) (events : List (OutlineEvent α)) : List (Command α) :=
  (stepsAlong last events).filterMap command?

theorem commands_ofEvents (round : Bool) (width : Option α) (events : List (OutlineEvent α)) :
    (ofEvents round width events).commands =
      commandsAlong none (OutlineEvent.coalesce none
        (events.map (OutlineEvent.mapPoints (rounding round)))) ++ [⟨[], .endChar⟩] := by
  unfold ofEvents ofRelative relativeEvents commandsAlong
  rw [RelativeState.drawAll_eq_stepsAlong]
  rfl

/-- Along coalesced events a move comes right before a line or a curve. -/
theorem isChain_commandsAlong (last held : Option (Point α)) (events : List (OutlineEvent α)) :
    List.IsChain Command.Precedes
      (commandsAlong last (OutlineEvent.coalesce held events) ++ [⟨[], .endChar⟩]) := by
  induction events generalizing last held with
  | nil => exact .singleton _
  | cons event rest ih =>
      cases event with
      | move target => exact ih last (some target)
      | line target =>
          have tail := ih (some target) none
          cases held with
          | none => exact Command.isChain_segment none nofun nofun tail
          | some waiting => exact Command.isChain_segment (some ⟨[_, _], .moveTo⟩) nofun nofun tail
      | curve control1 control2 target =>
          have tail := ih (some target) none
          cases held with
          | none => exact Command.isChain_segment none nofun nofun tail
          | some waiting => exact Command.isChain_segment (some ⟨[_, _], .moveTo⟩) nofun nofun tail
      | close => exact ih last held
      | finish => exact ih last held
      | component base transform => exact ih last held

theorem wellFormed_ofEvents (round : Bool) (width : Option α) (events : List (OutlineEvent α)) :
    (ofEvents round width events).WellFormed := by
  constructor
  · refine ⟨_, commands_ofEvents round width events, ?_⟩
    intro command listed
    obtain ⟨event, -, drawn⟩ := List.mem_filterMap.mp listed
    exact (of_command? drawn).2
  · intro command listed
    rw [commands_ofEvents, List.mem_append, List.mem_singleton] at listed
    rcases listed with drawing | rfl
    · obtain ⟨event, -, drawn⟩ := List.mem_filterMap.mp drawing
      exact (of_command? drawn).1
    · rfl
  · rw [commands_ofEvents]
    exact isChain_commandsAlong none none _

end CharstringProgram

end FontCompiler
