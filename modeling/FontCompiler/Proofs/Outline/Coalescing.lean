import Mathlib.Tactic.Ring
import FontCompiler.Outline.Relative

/-!
# Relative drawing keeps the moves that matter

Relative drawing does two things at once. It coalesces moves: a move is put off
until a line or a curve, and it is forgotten when another move comes before
that. And it names every point by the step from the point before. The two are
told apart here: the relative drawing of an outline consists of the steps along
its coalesced events.
-/

namespace FontCompiler

namespace OutlineEvent

variable {α : Type}

/-- The event with every point replaced; the map of a reference stays as it is. -/
def mapPoints (image : Point α → Point α) : OutlineEvent α → OutlineEvent α
  | move target => move (image target)
  | line target => line (image target)
  | curve control1 control2 target => curve (image control1) (image control2) (image target)
  | close => close
  | finish => finish
  | component base transform => component base transform

/-- The events without the moves that no segment follows, where a move that waits
may come before. Every other move stands right before its segment, and references
are left out. -/
def coalesce (held : Option (Point α)) : List (OutlineEvent α) → List (OutlineEvent α)
  | [] => []
  | move target :: rest => coalesce (some target) rest
  | line target :: rest => held.toList.map move ++ line target :: coalesce none rest
  | curve control1 control2 target :: rest =>
      held.toList.map move ++ curve control1 control2 target :: coalesce none rest
  | close :: rest => close :: coalesce held rest
  | finish :: rest => finish :: coalesce held rest
  | component _ _ :: rest => coalesce held rest

end OutlineEvent

section Steps

variable {α : Type} [Coordinate α]

/-- The step to a point from the last one, or from the origin. -/
def stepFrom (last : Option (Point α)) (target : Point α) : Point α :=
  match last with
  | some previous => target - previous
  | none => target

def stepsAlong (last : Option (Point α)) : List (OutlineEvent α) → List (RelativeEvent α)
  | [] => []
  | .move target :: rest => .move (stepFrom last target) :: stepsAlong (some target) rest
  | .line target :: rest => .line (stepFrom last target) :: stepsAlong (some target) rest
  | .curve control1 control2 target :: rest =>
      .curve (stepFrom last control1) (stepFrom (some control1) control2)
          (stepFrom (some control2) target) :: stepsAlong (some target) rest
  | .close :: rest => .close :: stepsAlong last rest
  | .finish :: rest => .finish :: stepsAlong last rest
  | .component _ _ :: rest => stepsAlong last rest

/-- What becomes of a point before steps are taken. -/
def rounding (round : Bool) : Point α → Point α :=
  if round then Point.round else id

namespace RelativeState

theorem stepTo_eq (round : Bool) (target : Point α) (last : Option (Point α)) :
    stepTo round target last = (stepFrom last (rounding round target), rounding round target) := by
  cases round <;> cases last <;> rfl

/-- A relative drawing consists of the steps along the coalesced events. -/
theorem drawAll_eq_stepsAlong (round : Bool) (state : RelativeState α)
    (events : List (OutlineEvent α)) :
    (state.drawAll round events).1 = stepsAlong state.last (OutlineEvent.coalesce
      (state.held.map (rounding round)) (events.map (OutlineEvent.mapPoints (rounding round)))) := by
  induction events generalizing state with
  | nil => rfl
  | cons event rest ih =>
      cases event with
      | move target => exact ih (state.holdMove target)
      | line target =>
          -- A move that waits is a step of its own before the segment.
          cases held : state.held <;>
            simp [drawAll, draw, drawHeld, held, stepTo_eq, ih, OutlineEvent.mapPoints,
              OutlineEvent.coalesce, stepsAlong]
      | curve control1 control2 target =>
          cases held : state.held <;>
            simp [drawAll, draw, drawHeld, held, stepTo_eq, ih, OutlineEvent.mapPoints,
              OutlineEvent.coalesce, stepsAlong]
      | close => exact congrArg (.close :: ·) (ih state)
      | finish => exact congrArg (.finish :: ·) (ih state)
      | component base transform => exact ih state

end RelativeState

end Steps

namespace Point

theorem zero_add (point : Point Rat) : (⟨Coordinate.zero, Coordinate.zero⟩ : Point Rat) + point =
    point := by
  have sum : ∀ number : Rat, (0 : Rat) + number = number := Rat.zero_add
  exact congrArg₂ mk (sum point.x) (sum point.y)

theorem add_sub_cancel (start target : Point Rat) : start + (target - start) = target := by
  have sum : ∀ first second : Rat, first + (second - first) = second := fun _ _ => by ring
  exact congrArg₂ mk (sum start.x target.x) (sum start.y target.y)

end Point

/-- The point that the next step starts from. -/
def stepOrigin (last : Option (Point Rat)) : Point Rat :=
  last.getD ⟨Coordinate.zero, Coordinate.zero⟩

/-- Without rounding, a step leads to the point that it was taken to. -/
theorem stepOrigin_add_stepFrom (last : Option (Point Rat)) (target : Point Rat) :
    stepOrigin last + stepFrom last target = target := by
  cases last with
  | none => exact Point.zero_add target
  | some previous => exact Point.add_sub_cancel previous target

end FontCompiler
