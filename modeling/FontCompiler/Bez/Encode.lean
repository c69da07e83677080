import FontCompiler.Bez.Instruction
import FontCompiler.Outline.Flatten

/-!
# Writing bez

Each drawing step is written in its shortest form, with whole operands. The end
of a subpath is written when something was drawn in it, and an outline that
draws anything is opened by a line of its own.
-/

namespace FontCompiler

structure BezInstruction where
  operands : List Int
  word : BezWord
  deriving DecidableEq, Repr

namespace BezInstruction

def text (instruction : BezInstruction) : String :=
  " ".intercalate (instruction.operands.map toString ++ [instruction.word.text])

def ofMove (x y : Int) : BezInstruction :=
  if x = 0 ∧ y ≠ 0 then ⟨[y], .moveVertical⟩
  else if y = 0 ∧ x ≠ 0 then ⟨[x], .moveHorizontal⟩
  else ⟨[x, y], .move⟩

def ofLine (x y : Int) : BezInstruction :=
  if x = 0 then ⟨[y], .lineVertical⟩
  else if y = 0 then ⟨[x], .lineHorizontal⟩
  else ⟨[x, y], .line⟩

def ofCurve (x1 y1 x2 y2 x3 y3 : Int) : BezInstruction :=
  if x1 = 0 ∧ y3 = 0 then ⟨[y1, x2, y2, x3], .curveVerticalHorizontal⟩
  else if y1 = 0 ∧ x3 = 0 then ⟨[x1, x2, y2, y3], .curveHorizontalVertical⟩
  else ⟨[x1, y1, x2, y2, x3, y3], .curve⟩

end BezInstruction

section Encoding

variable {α : Type} [Coordinate α]

/-- The instructions of a relative drawing, after a subpath begun with or
without a segment. -/
def bezInstructions (drawn : Bool) : List (RelativeEvent α) → List BezInstruction
  | [] => []
  | .move step :: rest =>
      .ofMove (Coordinate.toInt64 step.x) (Coordinate.toInt64 step.y) :: bezInstructions false rest
  | .line step :: rest =>
      .ofLine (Coordinate.toInt64 step.x) (Coordinate.toInt64 step.y) :: bezInstructions true rest
  | .curve step1 step2 step3 :: rest =>
      .ofCurve (Coordinate.toInt64 step1.x) (Coordinate.toInt64 step1.y)
        (Coordinate.toInt64 step2.x) (Coordinate.toInt64 step2.y)
        (Coordinate.toInt64 step3.x) (Coordinate.toInt64 step3.y) :: bezInstructions true rest
  | .close :: rest =>
      if drawn then ⟨[], .close⟩ :: bezInstructions false rest else bezInstructions false rest
  | .finish :: rest =>
      if drawn then ⟨[], .close⟩ :: bezInstructions false rest else bezInstructions false rest

def bezText (instructions : List BezInstruction) : String :=
  let opening := if instructions.isEmpty then [] else ["sc"]
  "\n".intercalate (opening ++ instructions.map BezInstruction.text ++ ["ed\n"])

def bezOfRelative (events : List (RelativeEvent α)) : String :=
  bezText (bezInstructions false events)

/-- The bez text of an outline without references. Points are rounded. -/
def bezOfEvents (events : List (OutlineEvent α)) : String :=
  bezOfRelative (relativeEvents true events)

def FontView.bez (view : FontView α) (glyph : Glyph α) : String :=
  bezOfEvents (view.flatEvents glyph.events)

end Encoding

end FontCompiler
