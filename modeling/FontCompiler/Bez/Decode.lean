import FontCompiler.Bez.Instruction
import FontCompiler.Text.Splitting

/-!
# Reading bez

A bez text is drawn line by line with absolute points. Some lines draw nothing:
blank lines, comments, log lines, and the instructions for hints and
subroutines. Reading stops at the first line that is no instruction, and keeps
what was drawn before it.
-/

namespace FontCompiler

/-- Why a bez line cannot be drawn; lines are counted from one. -/
inductive BezError where
  | unknownWord (word : String) (line : Nat)
  | missingOperands (word : String) (line expected found : Nat)
  | invalidNumber (field : String) (line : Nat)
  deriving DecidableEq, Repr

def BezError.message : BezError → String
  | unknownWord word line => "unknown bez token '" ++ word ++ "' on line " ++ toString line
  | missingOperands word line expected found =>
      "bez token '" ++ word ++ "' on line " ++ toString line ++ " needs " ++ toString expected ++
        " operand(s), found " ++ toString found
  | invalidNumber field line => "invalid number '" ++ field ++ "' on line " ++ toString line

inductive BezLine (α : Type) where
  | nothing
  /-- The next step starts from the origin again. -/
  | forget
  | draw (event : RelativeEvent α)
  deriving DecidableEq

namespace BezLine

def undrawnWords : List String :=
  ["sc", "ed", "rb", "ry", "rm", "rv", "sol", "eol", "beginsubr", "endsubr", "snc", "enc",
    "newcolors", "id"]

/-- Whether a line is empty, a log line or a comment. -/
def isRemark (line : List Char) : Bool :=
  line.isEmpty || "Wrote".toList.isPrefixOf line || "%".toList.isPrefixOf line

variable {α : Type} [Coordinate α]

def readOperands (number : Nat) : List (List Char) → Except BezError (List α)
  | [] => .ok []
  | field :: rest =>
      match (Literal.ofChars? field).bind Coordinate.ofLiteral? with
      | none => .error (.invalidNumber (String.ofList field) number)
      | some operand => (readOperands number rest).map fun operands => operand :: operands

/-- Read an instruction that is drawn. Operands beyond those it needs are not looked at. -/
def readDrawn (number : Nat) (text : String) (operands : List (List Char)) :
    Except BezError (BezLine α) :=
  match BezWord.ofText? text with
  | none => .error (.unknownWord text number)
  | some word =>
      if operands.length < word.arity then
        .error (.missingOperands word.text number word.arity operands.length)
      else
        (readOperands number (operands.take word.arity)).map fun values =>
          .draw (word.draw values)

/-- Read a line, whose number is given. -/
def read (number : Nat) (line : List Char) : Except BezError (BezLine α) :=
  if isRemark line then .ok .nothing
  else
    match (fields line).reverse with
    | [] => .ok .nothing
    | last :: before =>
        let text := String.ofList last
        if undrawnWords.contains text then .ok .nothing
        else if text = "preflx1" ∨ text = "preflx2" then .ok .forget
        else readDrawn number text before.reverse

end BezLine

/-- How far the drawing of a bez text has come. -/
structure BezState (α : Type) where
  /-- The point that was named last. -/
  last : Option (Point α) := none
  /-- Whether the last instruction was a move. -/
  moved : Bool := false
  deriving DecidableEq

namespace BezState

variable {α : Type} [Coordinate α]

def target (last : Option (Point α)) (step : Point α) : Point α :=
  match last with
  | some point => point + step
  | none => step

def unsignedZero (point : Point α) : Point α :=
  ⟨point.x + Coordinate.zero, point.y + Coordinate.zero⟩

/-- Draw a step with absolute points. A second move in a row closes the subpath of the first. -/
def draw (state : BezState α) : RelativeEvent α → List (OutlineEvent α) × BezState α
  | .move step =>
      let point := target state.last step
      ((if state.moved then [.close] else []) ++ [.move (unsignedZero point)], ⟨some point, true⟩)
  | .line step =>
      let point := target state.last step
      ([.line (unsignedZero point)], ⟨some point, false⟩)
  | .curve step1 step2 step3 =>
      let point1 := target state.last step1
      let point2 := target (some point1) step2
      let point3 := target (some point2) step3
      ([.curve (unsignedZero point1) (unsignedZero point2) (unsignedZero point3)],
        ⟨some point3, false⟩)
  | .close => ([.close], { state with moved := false })
  | .finish => ([.close], { state with moved := false })

def apply (state : BezState α) : BezLine α → List (OutlineEvent α) × BezState α
  | .nothing => ([], state)
  | .forget => ([], {})
  | .draw event => state.draw event

end BezState

/-- What was drawn of a bez text, and the fault at which drawing stopped, if any. -/
structure BezDrawing (α : Type) where
  events : List (OutlineEvent α)
  fault : Option BezError
  deriving DecidableEq

section Decoding

variable {α : Type} [Coordinate α]

/-- Draw lines from a state on, the first of them with a given number. -/
def BezDrawing.ofLines (state : BezState α) (number : Nat) : List (List Char) → BezDrawing α
  | [] => ⟨[], none⟩
  | line :: rest =>
      match BezLine.read number line with
      | .error fault => ⟨[], some fault⟩
      | .ok meaning =>
          let (events, next) := state.apply meaning
          let later := BezDrawing.ofLines next (number + 1) rest
          ⟨events ++ later.events, later.fault⟩

def BezDrawing.ofText (text : String) : BezDrawing α := BezDrawing.ofLines {} 1 (lines text.toList)

end Decoding

end FontCompiler
