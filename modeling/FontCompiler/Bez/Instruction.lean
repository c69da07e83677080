import FontCompiler.Outline.Relative

/-!
# Bez instructions

Bez is a text format of relative drawing. A line holds the operands of one
instruction and then its word. Moves, lines and curves have short forms for
steps along an axis.
-/

namespace FontCompiler

inductive BezWord where
  | move
  | moveVertical
  | moveHorizontal
  | line
  | lineVertical
  | lineHorizontal
  | curve
  /-- A curve that starts vertical and ends horizontal. -/
  | curveVerticalHorizontal
  /-- A curve that starts horizontal and ends vertical. -/
  | curveHorizontalVertical
  | close
  deriving DecidableEq, Repr

namespace BezWord

def text : BezWord → String
  | move => "rmt"
  | moveVertical => "vmt"
  | moveHorizontal => "hmt"
  | line => "rdt"
  | lineVertical => "vdt"
  | lineHorizontal => "hdt"
  | curve => "rct"
  | curveVerticalHorizontal => "vhct"
  | curveHorizontalVertical => "hvct"
  | close => "cp"

def arity : BezWord → Nat
  | move => 2
  | moveVertical => 1
  | moveHorizontal => 1
  | line => 2
  | lineVertical => 1
  | lineHorizontal => 1
  | curve => 6
  | curveVerticalHorizontal => 4
  | curveHorizontalVertical => 4
  | close => 0

def all : List BezWord :=
  [move, moveVertical, moveHorizontal, line, lineVertical, lineHorizontal, curve,
    curveVerticalHorizontal, curveHorizontalVertical, close]

/-- The word with a text. A flex is drawn like a curve. -/
def ofText? (text : String) : Option BezWord :=
  if text = "flex" then some curve
  else all.find? fun word => decide (word.text = text)

/-- The drawing step of an instruction; a step that a short form leaves out is zero. -/
def draw {α : Type} [Coordinate α] (word : BezWord) (operands : List α) : RelativeEvent α :=
  let operand (index : Nat) : α := operands.getD index Coordinate.zero
  match word with
  | move => .move ⟨operand 0, operand 1⟩
  | moveVertical => .move ⟨Coordinate.zero, operand 0⟩
  | moveHorizontal => .move ⟨operand 0, Coordinate.zero⟩
  | line => .line ⟨operand 0, operand 1⟩
  | lineVertical => .line ⟨Coordinate.zero, operand 0⟩
  | lineHorizontal => .line ⟨operand 0, Coordinate.zero⟩
  | curve => .curve ⟨operand 0, operand 1⟩ ⟨operand 2, operand 3⟩ ⟨operand 4, operand 5⟩
  | curveVerticalHorizontal =>
      .curve ⟨Coordinate.zero, operand 0⟩ ⟨operand 1, operand 2⟩ ⟨operand 3, Coordinate.zero⟩
  | curveHorizontalVertical =>
      .curve ⟨operand 0, Coordinate.zero⟩ ⟨operand 1, operand 2⟩ ⟨Coordinate.zero, operand 3⟩
  | close => .close

end BezWord

end FontCompiler
