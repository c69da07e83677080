import FontCompiler.Number.Coordinate

/-!
# Points and affine maps

Every operation fixes the order of its additions and multiplications, so that
it names one result also in an arithmetic that rounds.
-/

namespace FontCompiler

/-- A point, or the step from one point to another. -/
structure Point (α : Type) where
  x : α
  y : α
  deriving DecidableEq

/-- The map that takes `(x, y)` to `(a x + c y + e, b x + d y + f)`. -/
structure Affine (α : Type) where
  a : α
  b : α
  c : α
  d : α
  e : α
  f : α
  deriving DecidableEq

namespace Point

variable {α : Type} [Coordinate α]

instance : Add (Point α) where
  add first second := ⟨first.x + second.x, first.y + second.y⟩

instance : Sub (Point α) where
  sub first second := ⟨first.x - second.x, first.y - second.y⟩

def midpoint (first second : Point α) : Point α :=
  ⟨Coordinate.half * (first.x + second.x), Coordinate.half * (first.y + second.y)⟩

def twoThirdsTo (start target : Point α) : Point α :=
  ⟨start.x + Coordinate.twoThirds * (target.x - start.x),
    start.y + Coordinate.twoThirds * (target.y - start.y)⟩

/-- Both coordinates to the nearest whole number, a half going up. -/
def round (point : Point α) : Point α :=
  ⟨Coordinate.roundHalfUp point.x, Coordinate.roundHalfUp point.y⟩

end Point

namespace Affine

variable {α : Type} [Coordinate α]

def identity : Affine α :=
  ⟨Coordinate.one, Coordinate.zero, Coordinate.zero, Coordinate.one, Coordinate.zero,
    Coordinate.zero⟩

def offset (dx dy : α) : Affine α :=
  ⟨Coordinate.one, Coordinate.zero, Coordinate.zero, Coordinate.one, dx, dy⟩

def apply (map : Affine α) (point : Point α) : Point α :=
  ⟨map.a * point.x + map.c * point.y + map.e, map.b * point.x + map.d * point.y + map.f⟩

/-- The map that applies `inner` first and then `outer`. -/
def compose (outer inner : Affine α) : Affine α where
  a := outer.a * inner.a + outer.c * inner.b
  b := outer.b * inner.a + outer.d * inner.b
  c := outer.a * inner.c + outer.c * inner.d
  d := outer.b * inner.c + outer.d * inner.d
  e := outer.a * inner.e + outer.c * inner.f + outer.e
  f := outer.b * inner.e + outer.d * inner.f + outer.f

end Affine

end FontCompiler
