import FontCompiler.Geometry
import FontCompiler.Names

/-!
# Outline events

An outline is drawn as a sequence of events: the start of a subpath, lines and
cubic curves, the end of a subpath, and references to other glyphs. Quadratic
segments are drawn as the cubic curves of the same shape.
-/

namespace FontCompiler

/-- A step in the drawing of an outline. -/
inductive OutlineEvent (α : Type) where
  | move (target : Point α)
  | line (target : Point α)
  | curve (control1 control2 target : Point α)
  /-- The end of a subpath that returns to its start. -/
  | close
  /-- The end of a subpath that stays open. -/
  | finish
  | component (base : GlyphName) (transform : Affine α)
  deriving DecidableEq

namespace OutlineEvent

variable {α : Type} [Coordinate α]

omit [Coordinate α] in
def points : OutlineEvent α → List (Point α)
  | move target => [target]
  | line target => [target]
  | curve control1 control2 target => [control1, control2, target]
  | close => []
  | finish => []
  | component _ _ => []

/-- The event with every point mapped, and with references drawn under the map. -/
def transform (map : Affine α) : OutlineEvent α → OutlineEvent α
  | move target => move (map.apply target)
  | line target => line (map.apply target)
  | curve control1 control2 target =>
      curve (map.apply control1) (map.apply control2) (map.apply target)
  | close => close
  | finish => finish
  | component base inner => component base (map.compose inner)

/-- The cubic curve of a quadratic segment. -/
def quadratic (start control target : Point α) : OutlineEvent α :=
  curve (start.twoThirdsTo control) (target.twoThirdsTo control) target

end OutlineEvent

end FontCompiler
