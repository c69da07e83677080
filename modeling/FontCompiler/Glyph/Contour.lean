import FontCompiler.Outline.Event

/-!
# Contours

A contour is a list of points. Points off the curve shape the segment that ends
at the next point on the curve. A contour whose first point starts a move is
open; any other runs around, and it is drawn from its first point on the curve.
-/

namespace FontCompiler

/-- The part that a point plays in its contour. -/
inductive PointKind where
  /-- The first point of an open contour. -/
  | move
  | line
  | offCurve
  /-- The end of a cubic segment. -/
  | curve
  /-- The end of a run of quadratic segments. -/
  | quadratic
  deriving DecidableEq, Repr

structure ContourPoint (α : Type) where
  point : Point α
  kind : PointKind
  smooth : Bool := false
  deriving DecidableEq

structure Contour (α : Type) where
  points : List (ContourPoint α)
  deriving DecidableEq

namespace Contour

variable {α : Type}

def isClosed (contour : Contour α) : Bool :=
  match contour.points with
  | [] => true
  | first :: _ => decide (first.kind ≠ .move)

variable [Coordinate α]

/-- Quadratic segments through the midpoints of consecutive control points. -/
def quadraticRun (start : Point α) : List (Point α) → Point α → List (OutlineEvent α)
  | [], _ => []
  | [control], target => [.quadratic start control target]
  | control :: next :: rest, target =>
      .quadratic start control (control.midpoint next) ::
        quadraticRun (control.midpoint next) (next :: rest) target

/-- The segment that ends at a point on the curve, after points off the curve. -/
def segmentTo (start : Point α) (pending : List (Point α)) (target : ContourPoint α) :
    List (OutlineEvent α) :=
  match target.kind, pending.reverse with
  | .curve, [control] => [.quadratic start control target.point]
  | .curve, control2 :: control1 :: _ => [.curve control1 control2 target.point]
  | .quadratic, _ :: _ => quadraticRun start pending target.point
  | _, _ => [.line target.point]

/-- The segments through a list of points; points off the curve at its end shape nothing. -/
def segments (start : Point α) (pending : List (Point α)) :
    List (ContourPoint α) → List (OutlineEvent α)
  | [] => []
  | point :: rest =>
      if point.kind = .offCurve then segments start (pending ++ [point.point]) rest
      else segmentTo start pending point ++ segments point.point [] rest

/-- The start of a closed contour, and its points from there around to the start. -/
def roundTrip (first : ContourPoint α) (rest : List (ContourPoint α)) :
    Point α × List (ContourPoint α) :=
  let points := first :: rest
  match points.dropWhile (fun point => decide (point.kind = .offCurve)) with
  | onCurve :: later =>
      (onCurve.point,
        later ++ points.takeWhile (fun point => decide (point.kind = .offCurve)) ++ [onCurve])
  | [] =>
      let start := ((rest.getLast?.getD first).point).midpoint first.point
      (start, points ++ [⟨start, .quadratic, false⟩])

omit [Coordinate α] in
/-- The points without a straight line at the end, which closing the path draws anyway. -/
def dropClosingLine (points : List (ContourPoint α)) : List (ContourPoint α) :=
  match points.getLast? with
  | some last => if last.kind = .line then points.dropLast else points
  | none => points

def events (contour : Contour α) : List (OutlineEvent α) :=
  match contour.points with
  | [] => []
  | first :: rest =>
      if first.kind = .move then
        .move first.point :: (segments first.point [] rest ++ [.finish])
      else
        let (start, points) := roundTrip first rest
        .move start :: (segments start [] (dropClosingLine points) ++ [.close])

end Contour

end FontCompiler
