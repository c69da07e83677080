import FontCompiler.Charstring.Compile
import FontCompiler.Proofs.Charstring.Shape
import FontCompiler.Proofs.Outline.Subpath

/-!
# What a charstring program draws

A program is executed with a current point, which starts at the origin and moves
along with every pair of operands. With exact arithmetic the steps add up to the
points that they were taken from, so the program of a glyph draws the subpaths
of the glyph's outline, apart from those in which nothing is drawn.
-/

namespace FontCompiler

section Execution

variable {α : Type} [Coordinate α]

/-- Execute commands from a current point on. The execution fails at a command
with other operands than its operator takes, and at the end of the commands
unless they end with their one command to finish. -/
def Drawing.ofCommands? (current : Point α) : List (Command α) → Option (Drawing α)
  | [⟨[], .endChar⟩] => some {}
  | ⟨[dx, dy], .moveTo⟩ :: rest =>
      let target := current + ⟨dx, dy⟩
      (ofCommands? target rest).map (Drawing.move target)
  | ⟨[dx, dy], .lineTo⟩ :: rest =>
      let target := current + ⟨dx, dy⟩
      (ofCommands? target rest).map (Drawing.draw (.line target))
  | ⟨[dx1, dy1, dx2, dy2, dx3, dy3], .curveTo⟩ :: rest =>
      let control1 := current + ⟨dx1, dy1⟩
      let control2 := control1 + ⟨dx2, dy2⟩
      let target := control2 + ⟨dx3, dy3⟩
      (ofCommands? target rest).map (Drawing.draw (.curve control1 control2 target))
  | _ => none

end Execution

end FontCompiler
