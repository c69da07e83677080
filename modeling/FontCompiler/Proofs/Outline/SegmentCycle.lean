import Mathlib.Data.List.Cycle
import Mathlib.Data.List.TakeWhile
import FontCompiler.Proofs.Outline.Subpath
import FontCompiler.Proofs.Outline.WellDrawn

/-!
# Where a closed contour starts does not matter

Drawing a closed contour passes a cycle of segments, each of which starts where the one before it
ended. If the points of the contour are listed from another point on, the drawing may start
elsewhere on this cycle, and that is all that changes.
-/

namespace FontCompiler

def Segment.target {α : Type} : Segment α → Point α
  | line target => target
  | curve _ _ target => target

/-- A segment together with the point where it starts. -/
structure PlacedSegment (α : Type) where
  start : Point α
  segment : Segment α
  deriving DecidableEq

def PlacedSegment.Joins {α : Type} (placed next : PlacedSegment α) : Prop :=
  placed.segment.target = next.start

open PlacedSegment

/-! ## Segments of a subpath -/

section Subpath

variable {α : Type}

/-- The lines and curves that a pen draws from a position on, up to any other event. -/
def segmentsFrom (position : Point α) : List (OutlineEvent α) → List (PlacedSegment α)
  | .line target :: rest => ⟨position, .line target⟩ :: segmentsFrom target rest
  | .curve control1 control2 target :: rest =>
      ⟨position, .curve control1 control2 target⟩ :: segmentsFrom target rest
  | _ => []

def penAfter (position : Point α) : List (OutlineEvent α) → Point α
  | .line target :: rest => penAfter target rest
  | .curve _ _ target :: rest => penAfter target rest
  | _ => position

variable {first : List (OutlineEvent α)} (drawn : ∀ event ∈ first, event.kind = .segment)
include drawn

theorem segmentsFrom_append (position : Point α) (second : List (OutlineEvent α)) :
    segmentsFrom position (first ++ second) =
      segmentsFrom position first ++ segmentsFrom (penAfter position first) second := by
  induction first generalizing position with
  | nil => rfl
  | cons event first ih =>
      obtain ⟨segment, later⟩ := List.forall_mem_cons.mp drawn
      cases event with
      | line target => exact congrArg (⟨position, .line target⟩ :: ·) (ih later target)
      | curve control1 control2 target =>
          exact congrArg (⟨position, .curve control1 control2 target⟩ :: ·) (ih later target)
      | _ => cases segment

theorem penAfter_append (position : Point α) (second : List (OutlineEvent α)) :
    penAfter position (first ++ second) = penAfter (penAfter position first) second := by
  induction first generalizing position with
  | nil => rfl
  | cons event first ih =>
      obtain ⟨segment, later⟩ := List.forall_mem_cons.mp drawn
      cases event with
      | line target => exact ih later target
      | curve control1 control2 target => exact ih later target
      | _ => cases segment

/-- Segments drawn one after another are joined, also to a segment that ends where the pen starts
and to one that starts where it stops. -/
theorem isChain_segmentsFrom (before : PlacedSegment α) {after : PlacedSegment α}
    (stops : penAfter before.segment.target first = after.start) :
    (before :: (segmentsFrom before.segment.target first ++ [after])).IsChain Joins := by
  induction first generalizing before with
  | nil => exact .cons_cons stops (.singleton after)
  | cons event first ih =>
      obtain ⟨segment, later⟩ := List.forall_mem_cons.mp drawn
      cases event with
      | line target => exact .cons_cons rfl (ih later ⟨before.segment.target, .line target⟩ stops)
      | curve control1 control2 target =>
          exact .cons_cons rfl
            (ih later ⟨before.segment.target, .curve control1 control2 target⟩ stops)
      | _ => cases segment

/-- A pen that comes back to where it started has drawn a closed chain. -/
theorem chain_segmentsFrom {position : Point α} (returns : penAfter position first = position) :
    Cycle.Chain Joins (segmentsFrom position first : Cycle (PlacedSegment α)) := by
  cases first with
  | nil => exact Cycle.Chain.nil Joins
  | cons event first =>
      obtain ⟨segment, later⟩ := List.forall_mem_cons.mp drawn
      cases event with
      | line target => exact isChain_segmentsFrom later ⟨position, .line target⟩ returns
      | curve control1 control2 target =>
          exact isChain_segmentsFrom later ⟨position, .curve control1 control2 target⟩ returns
      | _ => cases segment

end Subpath

namespace Contour

variable {α : Type}

def startsAtLine (contour : Contour α) : Bool :=
  match contour.points.find? fun point => decide (point.kind ≠ .offCurve) with
  | some start => decide (start.kind = .line)
  | none => false

variable [Coordinate α]

/-- The segments of a closed contour: those drawn between the move and the close, and then, if the
contour starts at the end of a straight line, the one by which closing the path returns there. -/
def segmentCycle (contour : Contour α) : List (PlacedSegment α) :=
  match contour.events with
  | .move start :: drawn =>
      segmentsFrom start (drawn.dropLast ++ if contour.startsAtLine then [.line start] else [])
  | _ => []

/-! ## The points from one on the curve to the next -/

/-- Points off the curve wait for the next point on it. -/
theorem segments_append_of_offCurve {points : List (ContourPoint α)}
    (off : ∀ point ∈ points, point.kind = .offCurve) (start : Point α) (pending : List (Point α))
    (rest : List (ContourPoint α)) :
    segments start pending (points ++ rest) =
      segments start (pending ++ points.map ContourPoint.point) rest := by
  induction points generalizing pending with
  | nil => rw [List.nil_append, List.map_nil, List.append_nil]
  | cons point points ih =>
      obtain ⟨first, later⟩ := List.forall_mem_cons.mp off
      rw [List.cons_append, segments, if_pos first, ih later, List.map_cons, List.append_assoc,
        List.singleton_append]

/-- A point on the curve divides what is drawn. -/
theorem segments_append_onCurve {onCurve : ContourPoint α} (on : onCurve.kind ≠ .offCurve)
    (start : Point α) (pending : List (Point α)) (points later : List (ContourPoint α)) :
    segments start pending (points ++ onCurve :: later) =
      segments start pending (points ++ [onCurve]) ++ segments onCurve.point [] later := by
  induction points generalizing start pending with
  | nil => simp only [List.nil_append, segments, if_neg on, List.append_nil]
  | cons point points ih =>
      rw [List.cons_append, List.cons_append, segments, segments]
      split
      · exact ih start (pending ++ [point.point])
      · rw [ih point.point [], List.append_assoc]

/-- A straight line at the end is drawn whatever comes before it. -/
theorem segments_append_line {last : ContourPoint α} (straight : last.kind = .line)
    (start : Point α) (pending : List (Point α)) (points : List (ContourPoint α)) :
    segments start pending (points ++ [last]) =
      segments start pending points ++ [.line last.point] := by
  induction points generalizing start pending with
  | nil => simp [segments, segmentTo, straight]
  | cons point points ih =>
      rw [List.cons_append, segments, segments]
      split
      · exact ih start (pending ++ [point.point])
      · rw [ih point.point [], List.append_assoc]

theorem segmentTo_quadratic {pending : List (Point α)} (some : pending ≠ [])
    {target : ContourPoint α} (quadratic : target.kind = .quadratic) (start : Point α) :
    segmentTo start pending target = quadraticRun start pending target.point := by
  cases reversed : pending.reverse with
  | nil => exact absurd (List.reverse_eq_nil_iff.mp reversed) some
  | cons control others =>
      unfold segmentTo
      rw [quadratic, reversed]

theorem penAfter_quadraticRun {controls : List (Point α)} (some : controls ≠ [])
    (position start target : Point α) :
    penAfter position (quadraticRun start controls target) = target := by
  fun_induction quadraticRun start controls target generalizing position with
  | case1 => exact absurd rfl some
  | case2 => rfl
  | case3 start control next rest target ih => exact ih (List.cons_ne_nil next rest) _

theorem penAfter_segmentTo (position start : Point α) (pending : List (Point α))
    (target : ContourPoint α) :
    penAfter position (segmentTo start pending target) = target.point := by
  unfold segmentTo
  split
  · rfl
  · rfl
  · next reversed =>
      refine penAfter_quadraticRun (fun none => ?_) position start target.point
      rw [none] at reversed
      cases reversed
  · rfl

/-- Drawing up to a point on the curve takes the pen there. -/
theorem penAfter_segments {onCurve : ContourPoint α} (on : onCurve.kind ≠ .offCurve)
    (position start : Point α) (pending : List (Point α)) (points : List (ContourPoint α)) :
    penAfter position (segments start pending (points ++ [onCurve])) = onCurve.point := by
  induction points generalizing position start pending with
  | nil =>
      rw [List.nil_append, segments, if_neg on, segments, List.append_nil]
      exact penAfter_segmentTo position start pending onCurve
  | cons point points ih =>
      rw [List.cons_append, segments]
      split
      · exact ih position start (pending ++ [point.point])
      · rw [penAfter_append (segmentTo_kind start pending point)]
        exact ih _ point.point []

/-- The segments that some points shape from a start on. -/
def arc (start : Point α) (points : List (ContourPoint α)) : List (PlacedSegment α) :=
  segmentsFrom start (segments start [] points)

/-- At a point on the curve one arc ends and another begins. -/
theorem arc_append {onCurve : ContourPoint α} (on : onCurve.kind ≠ .offCurve) (start : Point α)
    (points later : List (ContourPoint α)) :
    arc start (points ++ onCurve :: later) =
      arc start (points ++ [onCurve]) ++ arc onCurve.point later := by
  unfold arc
  rw [segments_append_onCurve on, segmentsFrom_append (segments_kind _ _ _), penAfter_segments on]

/-! ## Once around a contour -/

/-- The straight line that the drawing leaves to the close is in the cycle. -/
theorem segmentCycle_of_roundTrip {first last : ContourPoint α}
    {rest points : List (ContourPoint α)} {start : Point α} (unmoved : first.kind ≠ .move)
    (around : roundTrip first rest = (start, points ++ [last])) (returns : last.point = start)
    (starts : startsAtLine ⟨first :: rest⟩ = decide (last.kind = .line)) :
    segmentCycle ⟨first :: rest⟩ = arc start (points ++ [last]) := by
  have drawing : events ⟨first :: rest⟩ =
      .move start :: (segments start [] (dropClosingLine (points ++ [last])) ++ [.close]) := by
    unfold events
    dsimp only
    rw [if_neg unmoved, around]
  unfold segmentCycle arc
  rw [drawing, starts]
  dsimp only
  unfold dropClosingLine
  rw [List.dropLast_concat, List.getLast?_concat]
  dsimp only
  by_cases straight : last.kind = .line
  · rw [if_pos straight, List.dropLast_concat, if_pos (decide_eq_true straight),
      segments_append_line straight, returns]
  · rw [if_neg straight, if_neg (by simpa using straight), List.append_nil]

section OnCurve

variable {before later : List (ContourPoint α)} {onCurve : ContourPoint α}
  (off : ∀ point ∈ before, point.kind = .offCurve) (on : onCurve.kind ≠ .offCurve)
include off on

theorem roundTrip_of_onCurve {first : ContourPoint α} {rest : List (ContourPoint α)}
    (split : first :: rest = before ++ onCurve :: later) :
    roundTrip first rest = (onCurve.point, later ++ before ++ [onCurve]) := by
  have offBefore : ∀ point ∈ before, decide (point.kind = .offCurve) = true :=
    fun point listed => decide_eq_true (off point listed)
  have stops : ¬ decide (onCurve.kind = .offCurve) = true := fun same => on (of_decide_eq_true same)
  have dropped : (before ++ onCurve :: later).dropWhile
      (fun point => decide (point.kind = .offCurve)) = onCurve :: later :=
    (List.dropWhile_append_of_pos offBefore).trans (List.dropWhile_cons_of_neg stops)
  have taken : (before ++ onCurve :: later).takeWhile
      (fun point => decide (point.kind = .offCurve)) = before := by
    rw [List.takeWhile_append_of_pos offBefore, List.takeWhile_cons, if_neg stops, List.append_nil]
  unfold roundTrip
  dsimp only
  rw [split, dropped, taken]

omit [Coordinate α] in
theorem startsAtLine_of_onCurve (later : List (ContourPoint α)) :
    startsAtLine ⟨before ++ onCurve :: later⟩ = decide (onCurve.kind = .line) := by
  have start : (before ++ onCurve :: later).find? (fun point => decide (point.kind ≠ .offCurve)) =
      some onCurve :=
    List.find?_eq_some_iff_append.mpr ⟨decide_eq_true on, before, later, rfl,
      fun point listed => by simp [off point listed]⟩
  unfold startsAtLine
  rw [start]

/-- A contour starts at its first point on the curve and runs around to it. -/
theorem segmentCycle_of_onCurve
    (unmoved : ∀ point ∈ before ++ onCurve :: later, point.kind ≠ .move) :
    segmentCycle ⟨before ++ onCurve :: later⟩ =
      arc onCurve.point (later ++ before ++ [onCurve]) := by
  obtain ⟨first, rest, split⟩ := List.exists_cons_of_ne_nil
    (List.append_ne_nil_of_right_ne_nil before (List.cons_ne_nil onCurve later))
  have starts := startsAtLine_of_onCurve off on later
  rw [split] at unmoved starts ⊢
  exact segmentCycle_of_roundTrip (unmoved first List.mem_cons_self)
    (roundTrip_of_onCurve off on split.symm) rfl starts

end OnCurve

/-- The point between the last and the first point, where a contour without points on the curve
starts. -/
def impliedStart (first : ContourPoint α) (rest : List (ContourPoint α)) : Point α :=
  ((rest.getLast?.getD first).point).midpoint first.point

/-- Without points on the curve a contour is one run of quadratic segments. -/
theorem segmentCycle_of_offCurve {first : ContourPoint α} {rest : List (ContourPoint α)}
    (off : ∀ point ∈ first :: rest, point.kind = .offCurve) :
    segmentCycle ⟨first :: rest⟩ = segmentsFrom (impliedStart first rest)
      (quadraticRun (impliedStart first rest) ((first :: rest).map ContourPoint.point)
        (impliedStart first rest)) := by
  have none : (first :: rest).dropWhile (fun point => decide (point.kind = .offCurve)) = [] :=
    List.dropWhile_eq_nil_iff.mpr fun point listed => decide_eq_true (off point listed)
  have nowhere :
      (first :: rest).find? (fun point => decide (point.kind ≠ .offCurve)) = Option.none :=
    List.find?_eq_none.mpr fun point listed => by simp [off point listed]
  have around : roundTrip first rest = (impliedStart first rest,
      (first :: rest) ++ [⟨impliedStart first rest, .quadratic, false⟩]) := by
    unfold roundTrip
    dsimp only
    rw [none]
    rfl
  have starts : startsAtLine ⟨first :: rest⟩ = false := by
    unfold startsAtLine
    rw [nowhere]
  have unmoved : first.kind ≠ .move := by
    rw [off first List.mem_cons_self]
    decide
  have on : ¬ PointKind.quadratic = .offCurve := by decide
  rw [segmentCycle_of_roundTrip unmoved around rfl starts, arc, segments_append_of_offCurve off]
  rw [List.nil_append, segments, if_neg on, segments, List.append_nil,
    segmentTo_quadratic (List.map_cons ▸ List.cons_ne_nil _ _) rfl]

/-! ## Starting one point later -/

/-- The last control point of a run has a segment of its own. -/
theorem quadraticRun_concat (start : Point α) (controls : List (Point α))
    (last control target : Point α) :
    quadraticRun start (controls ++ [last, control]) target =
      quadraticRun start (controls ++ [last]) (last.midpoint control) ++
        [.quadratic (last.midpoint control) control target] := by
  induction controls generalizing start with
  | nil => rfl
  | cons first controls ih =>
      cases controls with
      | nil => rfl
      | cons second controls =>
          exact congrArg (.quadratic start first (first.midpoint second) :: ·)
            (ih (first.midpoint second))

omit [Coordinate α] in
/-- What all points are, they are also with the first of them listed last. -/
theorem forall_mem_concat {first : ContourPoint α} {rest : List (ContourPoint α)}
    {holds : ContourPoint α → Prop} (all : ∀ point ∈ first :: rest, holds point) :
    ∀ point ∈ rest ++ [first], holds point :=
  fun point listed => all point ((List.perm_append_singleton first rest).subset listed)

/-- Without points on the curve, the segment that the first point shapes comes last instead. -/
theorem segmentCycle_concat_of_offCurve {first : ContourPoint α} {rest : List (ContourPoint α)}
    (off : ∀ point ∈ first :: rest, point.kind = .offCurve) :
    segmentCycle ⟨rest ++ [first]⟩ ~r segmentCycle ⟨first :: rest⟩ := by
  cases rest with
  | nil => exact .refl _
  | cons second others =>
      have offAfter : ∀ point ∈ second :: (others ++ [first]), point.kind = .offCurve :=
        forall_mem_concat off
      obtain ⟨middle, last, ends⟩ :=
        (List.eq_nil_or_concat' (second :: others)).resolve_left (List.cons_ne_nil second others)
      have oldStart : impliedStart first (second :: others) = last.point.midpoint first.point := by
        rw [impliedStart, ends, List.getLast?_concat, Option.getD_some]
      have newStart :
          impliedStart second (others ++ [first]) = first.point.midpoint second.point := by
        rw [impliedStart, List.getLast?_concat, Option.getD_some]
      have newRun : (second :: (others ++ [first])).map ContourPoint.point =
          middle.map ContourPoint.point ++ [last.point, first.point] := by
        rw [← List.cons_append, ends, List.append_assoc, List.map_append]
        rfl
      have shared : middle.map ContourPoint.point ++ [last.point] =
          second.point :: others.map ContourPoint.point := by
        rw [← List.map_cons, ends, List.map_append]
        rfl
      -- The run after the first segment is drawn by both, and it ends where the old run started.
      rw [List.cons_append, segmentCycle_of_offCurve off, segmentCycle_of_offCurve offAfter,
        oldStart, newStart, newRun, quadraticRun_concat, shared,
        segmentsFrom_append (quadraticRun_kind _ _ _), penAfter_quadraticRun (List.cons_ne_nil _ _)]
      exact List.isRotated_concat _ _

/-- The arcs between two points on the curve make up the cycle from either point on. -/
theorem arc_isRotated {first second : ContourPoint α} (onFirst : first.kind ≠ .offCurve)
    (onSecond : second.kind ≠ .offCurve) (points later : List (ContourPoint α)) :
    arc first.point (points ++ second :: (later ++ [first])) ~r
      arc second.point (later ++ first :: (points ++ [second])) := by
  rw [arc_append onSecond, arc_append onFirst second.point later (points ++ [second])]
  exact List.isRotated_append

omit [Coordinate α] in
theorem offCurve_or_split (points : List (ContourPoint α)) :
    (∀ point ∈ points, point.kind = .offCurve) ∨
      ∃ before onCurve later, points = before ++ onCurve :: later ∧
        (∀ point ∈ before, point.kind = .offCurve) ∧ onCurve.kind ≠ .offCurve := by
  cases found : points.find? fun point => decide (point.kind ≠ .offCurve) with
  | none => exact .inl fun point listed => by simpa using List.find?_eq_none.mp found point listed
  | some onCurve =>
      obtain ⟨on, before, later, rfl, off⟩ := List.find?_eq_some_iff_append.mp found
      exact .inr ⟨before, onCurve, later, rfl, fun point listed => by simpa using off point listed,
        by simpa using on⟩

/-- The first point of a contour may as well be listed last. -/
theorem segmentCycle_concat {first : ContourPoint α} {rest : List (ContourPoint α)}
    (unmoved : ∀ point ∈ first :: rest, point.kind ≠ .move) :
    segmentCycle ⟨rest ++ [first]⟩ ~r segmentCycle ⟨first :: rest⟩ := by
  have unmovedAfter := forall_mem_concat unmoved
  by_cases off : first.kind = .offCurve
  · rcases offCurve_or_split rest with offRest | ⟨before, onCurve, later, rfl, offBefore, on⟩
    · exact segmentCycle_concat_of_offCurve (List.forall_mem_cons.mpr ⟨off, offRest⟩)
    · -- The drawing starts at the same point as before.
      have old : segmentCycle ⟨first :: before ++ onCurve :: later⟩ =
          arc onCurve.point (later ++ first :: before ++ [onCurve]) :=
        segmentCycle_of_onCurve (List.forall_mem_cons.mpr ⟨off, offBefore⟩) on unmoved
      rw [List.append_assoc, List.cons_append] at unmovedAfter ⊢
      rw [segmentCycle_of_onCurve offBefore on unmovedAfter, ← List.cons_append, old,
        List.append_assoc later, List.singleton_append]
  · have old : segmentCycle ⟨[] ++ first :: rest⟩ = arc first.point (rest ++ [] ++ [first]) :=
      segmentCycle_of_onCurve nofun off unmoved
    rw [List.nil_append, List.append_nil] at old
    rw [old]
    rcases offCurve_or_split rest with offRest | ⟨before, onCurve, later, rfl, offBefore, on⟩
    · rw [segmentCycle_of_onCurve offRest off unmovedAfter, List.nil_append]
    · rw [List.append_assoc, List.cons_append] at unmovedAfter ⊢
      rw [segmentCycle_of_onCurve offBefore on unmovedAfter, List.append_assoc, List.append_assoc,
        List.singleton_append]
      exact arc_isRotated on off later before

/-! ## Starting anywhere -/

/-- A contour comes back to where its drawing starts. -/
theorem chain_segmentCycle {contour : Contour α}
    (unmoved : ∀ point ∈ contour.points, point.kind ≠ .move) :
    Cycle.Chain Joins (contour.segmentCycle : Cycle (PlacedSegment α)) := by
  obtain ⟨points⟩ := contour
  rcases offCurve_or_split points with off | ⟨before, onCurve, later, rfl, off, on⟩
  · cases points with
    | nil => exact Cycle.Chain.nil Joins
    | cons first rest =>
        rw [segmentCycle_of_offCurve off]
        exact chain_segmentsFrom (quadraticRun_kind _ _ _)
          (penAfter_quadraticRun (List.cons_ne_nil _ _) _ _ _)
  · rw [segmentCycle_of_onCurve off on unmoved]
    exact chain_segmentsFrom (segments_kind _ _ _) (penAfter_segments on _ _ _ _)

/-- However the points of a closed contour are rotated, its segments are those of the contour, at
most from another one on, and they are a closed chain. -/
theorem segmentCycle_rotate (contour : Contour α)
    (unmoved : ∀ point ∈ contour.points, point.kind ≠ .move) (count : Nat) :
    segmentCycle ⟨contour.points.rotate count⟩ ~r contour.segmentCycle ∧
      Cycle.Chain Joins (contour.segmentCycle : Cycle (PlacedSegment α)) := by
  refine ⟨?_, chain_segmentCycle unmoved⟩
  obtain ⟨points⟩ := contour
  induction count generalizing points with
  | zero => rw [List.rotate_zero]
  | succ count ih =>
      cases points with
      | nil => rw [List.rotate_nil]
      | cons first rest =>
          rw [List.rotate_cons_succ]
          have later := ih (rest ++ [first]) (forall_mem_concat unmoved)
          exact later.trans (segmentCycle_concat unmoved)

/-- A leaf with a straight base, a cubic side, a tip drawn with one control point and a side of
quadratic segments. -/
def leafContour : Contour Rat where
  points := [
    ⟨⟨0, 0⟩, .line, false⟩, ⟨⟨40, 0⟩, .line, false⟩,
    ⟨⟨60, 20⟩, .offCurve, false⟩, ⟨⟨60, 60⟩, .offCurve, false⟩, ⟨⟨40, 80⟩, .curve, true⟩,
    ⟨⟨30, 100⟩, .offCurve, false⟩, ⟨⟨20, 80⟩, .curve, false⟩,
    ⟨⟨0, 60⟩, .offCurve, false⟩, ⟨⟨-20, 30⟩, .offCurve, false⟩, ⟨⟨-10, 10⟩, .quadratic, false⟩]

/-- The leaf may start between the two control points of its cubic side. -/
theorem segmentCycle_rotate_leafContour :
    (∀ point ∈ leafContour.points, point.kind ≠ .move) ∧
      segmentCycle ⟨leafContour.points.rotate 3⟩ ~r leafContour.segmentCycle ∧
      Cycle.Chain Joins (leafContour.segmentCycle : Cycle (PlacedSegment Rat)) :=
  ⟨by decide, segmentCycle_rotate leafContour (by decide) 3⟩

end Contour

end FontCompiler
