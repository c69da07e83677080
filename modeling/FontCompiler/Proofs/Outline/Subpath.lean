import FontCompiler.Proofs.Outline.Coalescing

/-!
# Subpaths of an outline

What an outline draws is a list of subpaths, each with a start and the segments
from there on. Coalescing the moves of an outline removes the subpaths without
segments and leaves all others as they are.
-/

namespace FontCompiler

/-- A line or a curve, drawn from where the one before it ends. -/
inductive Segment (α : Type) where
  | line (target : Point α)
  | curve (control1 control2 target : Point α)
  deriving DecidableEq

/-- A start and the segments drawn from there. -/
structure Subpath (α : Type) where
  start : Point α
  segments : List (Segment α)
  deriving DecidableEq

def Subpath.isDrawn {α : Type} (subpath : Subpath α) : Bool := !subpath.segments.isEmpty

/-- Segments, and then the subpaths that moves begin. -/
structure Drawing (α : Type) where
  leading : List (Segment α) := []
  moved : List (Subpath α) := []
  deriving DecidableEq

namespace Drawing

variable {α : Type}

def draw (segment : Segment α) (drawing : Drawing α) : Drawing α :=
  { drawing with leading := segment :: drawing.leading }

def move (start : Point α) (drawing : Drawing α) : Drawing α :=
  ⟨[], ⟨start, drawing.leading⟩ :: drawing.moved⟩

def onlyDrawn (drawing : Drawing α) : Drawing α :=
  { drawing with moved := drawing.moved.filter Subpath.isDrawn }

def ofEvents : List (OutlineEvent α) → Drawing α
  | [] => {}
  | .move target :: rest => (ofEvents rest).move target
  | .line target :: rest => (ofEvents rest).draw (.line target)
  | .curve control1 control2 target :: rest =>
      (ofEvents rest).draw (.curve control1 control2 target)
  | .close :: rest => ofEvents rest
  | .finish :: rest => ofEvents rest
  | .component _ _ :: rest => ofEvents rest

section Origin

variable [Coordinate α]

/-- The subpaths in order. Segments before the first move are drawn from the origin on. -/
def subpaths (drawing : Drawing α) : List (Subpath α) :=
  if drawing.leading.isEmpty then drawing.moved
  else ⟨⟨Coordinate.zero, Coordinate.zero⟩, drawing.leading⟩ :: drawing.moved

end Origin

end Drawing

end FontCompiler
