import FontCompiler.Outline.Event

/-!
# Relative drawing

Compact outline formats name each point by the step from the point before. The
first point is a step from the origin. A move waits until a line or a curve
follows, and a later move takes its place, so a subpath without segments leaves
no trace.
-/

namespace FontCompiler

inductive RelativeEvent (α : Type) where
  | move (step : Point α)
  | line (step : Point α)
  | curve (step1 step2 step3 : Point α)
  | close
  | finish
  deriving DecidableEq

/-- How far a relative drawing has come. -/
structure RelativeState (α : Type) where
  /-- The point that was named last. -/
  last : Option (Point α) := none
  /-- The move that waits for a segment. -/
  held : Option (Point α) := none
  deriving DecidableEq

namespace RelativeState

variable {α : Type} [Coordinate α]

omit [Coordinate α] in
def holdMove (target : Point α) (state : RelativeState α) : RelativeState α :=
  { state with held := some target }

omit [Coordinate α] in
def takeHeld (state : RelativeState α) : Option (Point α) × RelativeState α :=
  (state.held, { state with held := none })

def stepTo (round : Bool) (target : Point α) (last : Option (Point α)) : Point α × Point α :=
  let target := if round then target.round else target
  match last with
  | some previous => (target - previous, target)
  | none => (target, target)

def drawHeld (round : Bool) (state : RelativeState α) :
    List (RelativeEvent α) × Option (Point α) :=
  match state.held with
  | some target =>
      let (step, last) := stepTo round target state.last
      ([.move step], some last)
  | none => ([], state.last)

/-- Draw an event. References are not drawn. -/
def draw (round : Bool) (state : RelativeState α) :
    OutlineEvent α → List (RelativeEvent α) × RelativeState α
  | .move target => ([], state.holdMove target)
  | .line target =>
      let (released, last) := state.drawHeld round
      let (step, last) := stepTo round target last
      (released ++ [.line step], ⟨some last, none⟩)
  | .curve control1 control2 target =>
      let (released, last) := state.drawHeld round
      let (step1, last) := stepTo round control1 last
      let (step2, last) := stepTo round control2 (some last)
      let (step3, last) := stepTo round target (some last)
      (released ++ [.curve step1 step2 step3], ⟨some last, none⟩)
  | .close => ([.close], state)
  | .finish => ([.finish], state)
  | .component _ _ => ([], state)

def drawAll (round : Bool) (state : RelativeState α) :
    List (OutlineEvent α) → List (RelativeEvent α) × RelativeState α
  | [] => ([], state)
  | event :: rest =>
      let (steps, next) := state.draw round event
      let (later, final) := drawAll round next rest
      (steps ++ later, final)

end RelativeState

def relativeEvents {α : Type} [Coordinate α] (round : Bool) (events : List (OutlineEvent α)) :
    List (RelativeEvent α) :=
  (RelativeState.drawAll round {} events).1

end FontCompiler
