import FontCompiler.Outline.Relative

/-!
# Charstring programs

A Type 2 charstring program draws a glyph: an optional width, then commands
with their operands before them, and at the end the command that finishes the
glyph. Programs are written as text and as bytes.
-/

namespace FontCompiler

inductive Operator where
  | moveTo
  | lineTo
  | curveTo
  | endChar
  deriving DecidableEq, Repr

namespace Operator

def opcode : Operator → UInt8
  | moveTo => 21
  | lineTo => 5
  | curveTo => 8
  | endChar => 14

def name : Operator → String
  | moveTo => "rmoveto"
  | lineTo => "rlineto"
  | curveTo => "rrcurveto"
  | endChar => "endchar"

end Operator

structure Command (α : Type) where
  operands : List α
  operator : Operator
  deriving DecidableEq

structure CharstringProgram (α : Type) where
  width : Option α
  commands : List (Command α)
  deriving DecidableEq

namespace CharstringProgram

variable {α : Type}

/-- The command of a relative drawing step. Paths close by themselves. -/
def command? : RelativeEvent α → Option (Command α)
  | .move step => some ⟨[step.x, step.y], .moveTo⟩
  | .line step => some ⟨[step.x, step.y], .lineTo⟩
  | .curve step1 step2 step3 =>
      some ⟨[step1.x, step1.y, step2.x, step2.y, step3.x, step3.y], .curveTo⟩
  | .close => none
  | .finish => none

variable [Coordinate α]

def ofRelative (round : Bool) (width : Option α) (events : List (RelativeEvent α)) :
    CharstringProgram α where
  width := if round then width.map Coordinate.roundHalfUp else width
  commands := events.filterMap command? ++ [⟨[], .endChar⟩]

def ofEvents (round : Bool) (width : Option α) (events : List (OutlineEvent α)) :
    CharstringProgram α :=
  ofRelative round width (relativeEvents round events)

def operandText [DecimalText α] (operand : α) : String :=
  if Coordinate.isWhole operand then toString (Coordinate.toInt64 operand)
  else DecimalText.text operand

def text [DecimalText α] (program : CharstringProgram α) : String :=
  " ".intercalate (program.width.toList.map operandText ++
    program.commands.flatMap fun command =>
      command.operands.map operandText ++ [command.operator.name])

end CharstringProgram

end FontCompiler
