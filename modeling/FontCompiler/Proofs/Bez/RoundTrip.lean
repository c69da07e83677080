import FontCompiler.Proofs.Bez.Reading
import FontCompiler.Proofs.Number.Double
import FontCompiler.Proofs.Outline.WellDrawn

/-!
# Bez texts are drawn as they were written

A glyph's bez text is drawn as the glyph's outline with rounded points, apart
from subpaths in which nothing is drawn, and with all subpaths closed. The steps
of the text add up without error while the points are integers of magnitude at
most 2^51.
-/

namespace FontCompiler

section Lines

variable {α : Type} [Coordinate α]

def BezState.drawAll (state : BezState α) : List (RelativeEvent α) → List (OutlineEvent α)
  | [] => []
  | event :: rest => (state.draw event).1 ++ drawAll (state.draw event).2 rest

omit [Coordinate α] in
/-- The lines of a bez text are an opening, the instructions and an ending. -/
theorem lines_bezText (instructions : List BezInstruction) :
    lines (bezText instructions).toList =
      (if instructions.isEmpty then [] else ["sc".toList]) ++
        (instructions.map fun instruction => instruction.text.toList) ++ ["ed".toList] := by
  have opening : (if instructions.isEmpty then [] else ["sc"]).map String.toList =
      if instructions.isEmpty then [] else ["sc".toList] := by
    split <;> rfl
  have joined : (bezText instructions).toList =
      ((if instructions.isEmpty then [] else ["sc".toList]) ++
        (instructions.map fun instruction => instruction.text.toList) ++ ["ed".toList]).flatMap
          fun text => text ++ ['\n'] := by
    unfold bezText
    rw [String.toList_intercalate, List.map_append, List.map_append, List.map_map, opening,
      List.flatMap_append]
    exact intercalate_append_singleton '\n' _ _
  rw [joined]
  refine lines_flatMap (List.forall_mem_append.mpr ⟨List.forall_mem_append.mpr ⟨?_, ?_⟩, ?_⟩)
  · split
    · exact fun _ listed => absurd listed List.not_mem_nil
    · exact fun text listed => List.mem_singleton.mp listed ▸ by decide
  · intro text listed
    obtain ⟨instruction, -, rfl⟩ := List.mem_map.mp listed
    exact instruction.text_oneLine
  · exact fun text listed => List.mem_singleton.mp listed ▸ by decide

theorem read_opening (number : Nat) :
    BezLine.read number "sc".toList = .ok (.nothing : BezLine α) := rfl

theorem read_ending (number : Nat) :
    BezLine.read number "ed".toList = .ok (.nothing : BezLine α) := rfl

variable [ExactArithmetic α]

/-- The lines of instructions draw the steps that the instructions stand for. -/
theorem ofLines_of_spells {instructions : List BezInstruction} {events : List (RelativeEvent α)}
    (spelled : List.Forall₂ BezInstruction.Spells instructions events) (state : BezState α)
    (number : Nat) :
    BezDrawing.ofLines state number
      ((instructions.map fun instruction => instruction.text.toList) ++ ["ed".toList]) =
        ⟨state.drawAll events, none⟩ := by
  induction spelled generalizing state number with
  | nil =>
      rw [List.map_nil, List.nil_append, BezDrawing.ofLines, read_ending]
      rfl
  | cons first _ ih =>
      rw [List.map_cons, List.cons_append, BezDrawing.ofLines, first.read_text]
      simp only [BezState.apply, ih]
      rfl

/-- A bez text draws the steps that its instructions stand for. -/
theorem ofText_bezText {instructions : List BezInstruction} {events : List (RelativeEvent α)}
    (spelled : List.Forall₂ BezInstruction.Spells instructions events) :
    BezDrawing.ofText (bezText instructions) = ⟨BezState.drawAll {} events, none⟩ := by
  unfold BezDrawing.ofText
  rw [lines_bezText]
  by_cases empty : instructions.isEmpty
  · rw [if_pos empty]
    exact ofLines_of_spells spelled {} 1
  · rw [if_neg empty, List.append_assoc, List.singleton_append, BezDrawing.ofLines, read_opening]
    simp only [BezState.apply, ofLines_of_spells spelled, List.nil_append]

end Lines

section Points

variable {α : Type} [Coordinate α]

/-- Whether both coordinates are integers of at most some magnitude. -/
def Point.IsWhole (limit : Nat) (point : Point α) : Prop :=
  ∃ x y : Int, x.natAbs ≤ limit ∧ y.natAbs ≤ limit ∧
    point = ⟨Coordinate.ofInt x, Coordinate.ofInt y⟩

/-- Whether all points of an outline have integers of magnitude at most 2^51. -/
def OutlineEvent.AllWhole (events : List (OutlineEvent α)) : Prop :=
  ∀ event ∈ events, ∀ point ∈ event.points, point.IsWhole (2 ^ 51)

omit [Coordinate α] in
def OutlineEvent.closed : OutlineEvent α → OutlineEvent α
  | .finish => .close
  | event => event

omit [Coordinate α] in
theorem OutlineEvent.closed_ending {event : OutlineEvent α} (ends : event.kind = .ending) :
    event.closed = .close := by
  cases event with
  | close => rfl
  | finish => rfl
  | _ => cases ends

omit [Coordinate α] in
theorem OutlineEvent.map_closed_segments {segments : List (OutlineEvent α)}
    (drawn : ∀ event ∈ segments, event.kind = .segment) :
    segments.map OutlineEvent.closed = segments := by
  refine (List.map_congr_left fun event listed => ?_).trans (List.map_id segments)
  have segment := drawn event listed
  cases event with
  | finish => cases segment
  | _ => rfl

omit [Coordinate α] in
theorem OutlineEvent.map_closed_subpath {point : Point α} {segments : List (OutlineEvent α)}
    {ending : OutlineEvent α} (drawn : ∀ event ∈ segments, event.kind = .segment)
    (ends : ending.kind = .ending) :
    (.move point :: (segments ++ [ending])).map OutlineEvent.closed =
      .move point :: (segments ++ [.close]) := by
  rw [List.map_cons, List.map_append, map_closed_segments drawn, List.map_singleton,
    closed_ending ends]
  rfl

theorem isSmall_of_le {number : Int} (small : number.natAbs ≤ 2 ^ 52) : IsSmall number :=
  Nat.lt_of_le_of_lt small (by decide)

variable [ExactArithmetic α]

theorem ofInt_sub_ofInt {first second : Int} (firstSmall : first.natAbs ≤ 2 ^ 51)
    (secondSmall : second.natAbs ≤ 2 ^ 51) :
    Coordinate.ofInt first - Coordinate.ofInt second = (Coordinate.ofInt (first - second) : α) :=
  ExactArithmetic.ofInt_sub (isSmall_of_le (by omega)) (isSmall_of_le (by omega))
    (isSmall_of_le (by omega))

/-- Steps between points are at most twice as large as the points. -/
theorem isWhole_stepFrom {last : Option (Point α)} {target : Point α}
    (lastWhole : ∀ point ∈ last, point.IsWhole (2 ^ 51)) (whole : target.IsWhole (2 ^ 51)) :
    (stepFrom last target).IsWhole (2 ^ 52) := by
  obtain ⟨x, y, smallX, smallY, rfl⟩ := whole
  cases last with
  | none => exact ⟨x, y, by omega, by omega, rfl⟩
  | some previous =>
      obtain ⟨x', y', smallX', smallY', rfl⟩ := lastWhole previous rfl
      exact ⟨x - x', y - y', by omega, by omega,
        congrArg₂ Point.mk (ofInt_sub_ofInt smallX smallX') (ofInt_sub_ofInt smallY smallY')⟩

/-- A step leads to the point that it was taken to. -/
theorem target_stepFrom {last : Option (Point α)} {target : Point α}
    (lastWhole : ∀ point ∈ last, point.IsWhole (2 ^ 51)) (whole : target.IsWhole (2 ^ 51)) :
    BezState.target last (stepFrom last target) = target := by
  obtain ⟨x, y, smallX, smallY, rfl⟩ := whole
  cases last with
  | none => rfl
  | some previous =>
      obtain ⟨x', y', smallX', smallY', rfl⟩ := lastWhole previous rfl
      have reached : ∀ start target : Int, start.natAbs ≤ 2 ^ 51 → target.natAbs ≤ 2 ^ 51 →
          Coordinate.ofInt start + (Coordinate.ofInt target - Coordinate.ofInt start) =
            (Coordinate.ofInt target : α) := by
        intro start target smallStart smallTarget
        have difference : start + (target - start) = target := by omega
        rw [ofInt_sub_ofInt smallTarget smallStart, ExactArithmetic.ofInt_add
          (isSmall_of_le (by omega)) (isSmall_of_le (by omega)) (isSmall_of_le (by omega)),
          difference]
      exact congrArg₂ Point.mk (reached x' x smallX' smallX) (reached y' y smallY' smallY)

/-- Points with whole coordinates have no negative zero. -/
theorem unsignedZero_eq {point : Point α} (whole : point.IsWhole (2 ^ 51)) :
    BezState.unsignedZero point = point := by
  obtain ⟨x, y, smallX, smallY, rfl⟩ := whole
  have same : ∀ number : Int, number.natAbs ≤ 2 ^ 51 →
      Coordinate.ofInt number + Coordinate.zero = (Coordinate.ofInt number : α) := by
    intro number small
    rw [Coordinate.zero, ExactArithmetic.ofInt_add (isSmall_of_le (by omega))
      (isSmall_of_le (by decide)) (isSmall_of_le (by omega)), Int.add_zero]
  exact congrArg₂ Point.mk (same x smallX) (same y smallY)

end Points

section Steps

variable {α : Type} [Coordinate α]

/-- The steps that are written of a relative drawing, after a subpath begun with or
without a segment. Every written subpath is closed. -/
def writtenSteps (drawn : Bool) : List (RelativeEvent α) → List (RelativeEvent α)
  | [] => []
  | .move step :: rest => .move step :: writtenSteps false rest
  | .line step :: rest => .line step :: writtenSteps true rest
  | .curve step1 step2 step3 :: rest => .curve step1 step2 step3 :: writtenSteps true rest
  | .close :: rest => if drawn then .close :: writtenSteps false rest else writtenSteps false rest
  | .finish :: rest => if drawn then .close :: writtenSteps false rest else writtenSteps false rest

omit [Coordinate α] in
/-- Coalescing brings in no events but the move that waits. -/
theorem mem_or_of_mem_coalesce {held : Option (Point α)} {events : List (OutlineEvent α)}
    {event : OutlineEvent α} (listed : event ∈ OutlineEvent.coalesce held events) :
    event ∈ events ∨ ∃ start ∈ held, event = .move start := by
  induction events generalizing held with
  | nil => cases listed
  | cons first rest ih =>
      have segment (listed : event ∈ held.toList.map OutlineEvent.move ++
          first :: OutlineEvent.coalesce none rest) :
          event ∈ first :: rest ∨ ∃ start ∈ held, event = .move start := by
        rcases List.mem_append.mp listed with waiting | listed
        · obtain ⟨start, found, rfl⟩ := List.mem_map.mp waiting
          exact .inr ⟨start, Option.mem_toList.mp found, rfl⟩
        rcases List.mem_cons.mp listed with rfl | later
        · exact .inl List.mem_cons_self
        · rcases ih later with earlier | ⟨_, none, _⟩
          · exact .inl (List.mem_cons_of_mem first earlier)
          · cases none
      have kept (listed : event ∈ OutlineEvent.coalesce held rest) :
          event ∈ first :: rest ∨ ∃ start ∈ held, event = .move start :=
        (ih listed).imp_left (List.mem_cons_of_mem first)
      cases first with
      | move target =>
          rcases ih listed with later | ⟨start, waiting, rfl⟩
          · exact .inl (List.mem_cons_of_mem _ later)
          · exact .inl (Option.some.inj waiting ▸ List.mem_cons_self)
      | line target => exact segment listed
      | curve control1 control2 target => exact segment listed
      | close =>
          rcases List.mem_cons.mp listed with rfl | later
          · exact .inl List.mem_cons_self
          · exact kept later
      | finish =>
          rcases List.mem_cons.mp listed with rfl | later
          · exact .inl List.mem_cons_self
          · exact kept later
      | component base transform => exact kept listed

variable [ExactArithmetic α]

theorem toInt64_ofInt {number : Int} (small : number.natAbs ≤ 2 ^ 52) :
    Coordinate.toInt64 (Coordinate.ofInt number : α) = number := by
  have named : ExactArithmetic.rational? (Coordinate.ofInt number : α) = some (number : Rat) :=
    ExactArithmetic.rational?_ofInt (isSmall_of_le small)
  rw [Coordinate.toInt64, ExactArithmetic.truncate_eq named (isSmall_of_le small)]
  exact clampWord_eq (by omega) (by omega)

theorem spells_move {step : Point α} (whole : step.IsWhole (2 ^ 52)) :
    (BezInstruction.ofMove (Coordinate.toInt64 step.x) (Coordinate.toInt64 step.y)).Spells
      (.move step) := by
  obtain ⟨x, y, smallX, smallY, rfl⟩ := whole
  rw [toInt64_ofInt smallX, toInt64_ofInt smallY]
  exact BezInstruction.spells_ofMove (isSmall_of_le smallX) (isSmall_of_le smallY)

theorem spells_line {step : Point α} (whole : step.IsWhole (2 ^ 52)) :
    (BezInstruction.ofLine (Coordinate.toInt64 step.x) (Coordinate.toInt64 step.y)).Spells
      (.line step) := by
  obtain ⟨x, y, smallX, smallY, rfl⟩ := whole
  rw [toInt64_ofInt smallX, toInt64_ofInt smallY]
  exact BezInstruction.spells_ofLine (isSmall_of_le smallX) (isSmall_of_le smallY)

theorem spells_curve {step1 step2 step3 : Point α} (whole1 : step1.IsWhole (2 ^ 52))
    (whole2 : step2.IsWhole (2 ^ 52)) (whole3 : step3.IsWhole (2 ^ 52)) :
    (BezInstruction.ofCurve (Coordinate.toInt64 step1.x) (Coordinate.toInt64 step1.y)
      (Coordinate.toInt64 step2.x) (Coordinate.toInt64 step2.y)
      (Coordinate.toInt64 step3.x) (Coordinate.toInt64 step3.y)).Spells
        (.curve step1 step2 step3) := by
  obtain ⟨x1, y1, smallX1, smallY1, rfl⟩ := whole1
  obtain ⟨x2, y2, smallX2, smallY2, rfl⟩ := whole2
  obtain ⟨x3, y3, smallX3, smallY3, rfl⟩ := whole3
  rw [toInt64_ofInt smallX1, toInt64_ofInt smallY1, toInt64_ofInt smallX2, toInt64_ofInt smallY2,
    toInt64_ofInt smallX3, toInt64_ofInt smallY3]
  refine BezInstruction.spells_ofCurve ?_
  simp only [List.forall_mem_cons]
  exact ⟨isSmall_of_le smallX1, isSmall_of_le smallY1, isSmall_of_le smallX2,
    isSmall_of_le smallY2, isSmall_of_le smallX3, isSmall_of_le smallY3,
    fun _ listed => nomatch listed⟩

omit [ExactArithmetic α] in
theorem isWhole_some {point : Point α} (whole : point.IsWhole (2 ^ 51)) :
    ∀ known ∈ some point, known.IsWhole (2 ^ 51) :=
  fun _ known => Option.some.inj known ▸ whole

/-- The instructions of the steps along an outline of whole points stand for these steps. -/
theorem spells_stepsAlong (drawn : Bool) {last : Option (Point α)} {events : List (OutlineEvent α)}
    (lastWhole : ∀ point ∈ last, point.IsWhole (2 ^ 51)) (whole : OutlineEvent.AllWhole events) :
    List.Forall₂ BezInstruction.Spells (bezInstructions drawn (stepsAlong last events))
      (writtenSteps drawn (stepsAlong last events)) := by
  induction events generalizing drawn last with
  | nil => exact .nil
  | cons event rest ih =>
      obtain ⟨first, later⟩ := List.forall_mem_cons.mp whole
      cases event with
      | move target =>
          have targetWhole := first target List.mem_cons_self
          exact .cons (spells_move (isWhole_stepFrom lastWhole targetWhole))
            (ih false (isWhole_some targetWhole) later)
      | line target =>
          have targetWhole := first target List.mem_cons_self
          exact .cons (spells_line (isWhole_stepFrom lastWhole targetWhole))
            (ih true (isWhole_some targetWhole) later)
      | curve control1 control2 target =>
          have whole1 := first control1 (by simp [OutlineEvent.points])
          have whole2 := first control2 (by simp [OutlineEvent.points])
          have whole3 := first target (by simp [OutlineEvent.points])
          exact .cons (spells_curve (isWhole_stepFrom lastWhole whole1)
            (isWhole_stepFrom (isWhole_some whole1) whole2)
            (isWhole_stepFrom (isWhole_some whole2) whole3)) (ih true (isWhole_some whole3) later)
      | close =>
          cases drawn with
          | false => exact ih false lastWhole later
          | true => exact .cons BezInstruction.spells_close (ih false lastWhole later)
      | finish =>
          cases drawn with
          | false => exact ih false lastWhole later
          | true => exact .cons BezInstruction.spells_close (ih false lastWhole later)
      | component base transform => exact ih drawn lastWhole later

/-- A step to a line or a curve is drawn as that line or curve. -/
theorem drawAll_segment {event : OutlineEvent α} (drawn : event.kind = .segment)
    (whole : ∀ point ∈ event.points, point.IsWhole (2 ^ 51)) {last : Option (Point α)}
    (lastWhole : ∀ point ∈ last, point.IsWhole (2 ^ 51)) :
    ∃ next : Point α, next.IsWhole (2 ^ 51) ∧ ∀ (moved begun : Bool) (rest : List (OutlineEvent α)),
      BezState.drawAll ⟨last, moved⟩ (writtenSteps begun (stepsAlong last (event :: rest))) =
        event :: BezState.drawAll ⟨some next, false⟩
          (writtenSteps true (stepsAlong (some next) rest)) := by
  cases event with
  | line target =>
      have targetWhole := whole target List.mem_cons_self
      refine ⟨target, targetWhole, fun moved begun rest => ?_⟩
      simp only [stepsAlong, writtenSteps, BezState.drawAll, BezState.draw,
        target_stepFrom lastWhole targetWhole, unsignedZero_eq targetWhole, List.singleton_append]
  | curve control1 control2 target =>
      have whole1 := whole control1 (by simp [OutlineEvent.points])
      have whole2 := whole control2 (by simp [OutlineEvent.points])
      have whole3 := whole target (by simp [OutlineEvent.points])
      refine ⟨target, whole3, fun moved begun rest => ?_⟩
      simp only [stepsAlong, writtenSteps, BezState.drawAll, BezState.draw,
        target_stepFrom lastWhole whole1, target_stepFrom (isWhole_some whole1) whole2,
        target_stepFrom (isWhole_some whole2) whole3, unsignedZero_eq whole1,
        unsignedZero_eq whole2, unsignedZero_eq whole3, List.singleton_append]
  | move target => cases drawn
  | close => cases drawn
  | finish => cases drawn
  | component base transform => cases drawn

/-- Steps to lines and curves are drawn as these lines and curves. -/
theorem drawAll_segments {segments : List (OutlineEvent α)}
    (drawn : ∀ event ∈ segments, event.kind = .segment)
    (whole : OutlineEvent.AllWhole segments) {last : Option (Point α)}
    (lastWhole : ∀ point ∈ last, point.IsWhole (2 ^ 51)) :
    ∃ next : Option (Point α), (∀ point ∈ next, point.IsWhole (2 ^ 51)) ∧
      ∀ rest : List (OutlineEvent α),
        BezState.drawAll ⟨last, false⟩ (writtenSteps true (stepsAlong last (segments ++ rest))) =
          segments ++ BezState.drawAll ⟨next, false⟩ (writtenSteps true (stepsAlong next rest)) := by
  induction segments generalizing last with
  | nil => exact ⟨last, lastWhole, fun _ => rfl⟩
  | cons segment segments ih =>
      obtain ⟨firstDrawn, restDrawn⟩ := List.forall_mem_cons.mp drawn
      obtain ⟨firstWhole, restWhole⟩ := List.forall_mem_cons.mp whole
      obtain ⟨point, pointWhole, step⟩ := drawAll_segment firstDrawn firstWhole lastWhole
      obtain ⟨next, nextWhole, steps⟩ := ih restDrawn restWhole (isWhole_some pointWhole)
      refine ⟨next, nextWhole, fun rest => ?_⟩
      rw [List.cons_append, step, steps, List.cons_append]

omit [Coordinate α] [ExactArithmetic α] in
theorem exists_eq_move {event : OutlineEvent α} (moves : event.kind = .move) :
    ∃ point, event = .move point := by
  cases event with
  | move point => exact ⟨point, rfl⟩
  | _ => cases moves

omit [ExactArithmetic α] in
/-- An end is written if something was drawn before it. -/
theorem writtenSteps_ending {event : OutlineEvent α} (ends : event.kind = .ending) (drawn : Bool)
    (last : Option (Point α)) (rest : List (OutlineEvent α)) :
    writtenSteps drawn (stepsAlong last (event :: rest)) =
      (if drawn then [.close] else []) ++ writtenSteps false (stepsAlong last rest) := by
  cases event with
  | close => cases drawn <;> rfl
  | finish => cases drawn <;> rfl
  | _ => cases ends

/-- A step to a move is drawn as that move. -/
theorem drawAll_move {target : Point α} (whole : target.IsWhole (2 ^ 51)) {last : Option (Point α)}
    (lastWhole : ∀ point ∈ last, point.IsWhole (2 ^ 51)) (begun : Bool)
    (rest : List (OutlineEvent α)) :
    BezState.drawAll ⟨last, false⟩ (writtenSteps begun (stepsAlong last (.move target :: rest))) =
      .move target :: BezState.drawAll ⟨some target, true⟩
        (writtenSteps false (stepsAlong (some target) rest)) := by
  simp only [stepsAlong, writtenSteps, BezState.drawAll, BezState.draw,
    target_stepFrom lastWhole whole, unsignedZero_eq whole]
  rfl

/-- A subpath with a segment is drawn as it is, and closed. -/
theorem drawAll_subpath {point : Point α} {segment ending : OutlineEvent α}
    {more : List (OutlineEvent α)} (pointWhole : point.IsWhole (2 ^ 51))
    (drawn : ∀ event ∈ segment :: more, event.kind = .segment)
    (whole : OutlineEvent.AllWhole (segment :: more)) (ends : ending.kind = .ending)
    {last : Option (Point α)} (lastWhole : ∀ known ∈ last, known.IsWhole (2 ^ 51)) :
    ∃ next : Option (Point α), (∀ known ∈ next, known.IsWhole (2 ^ 51)) ∧
      ∀ rest : List (OutlineEvent α),
        BezState.drawAll ⟨last, false⟩ (writtenSteps false
          (stepsAlong last (.move point :: segment :: (more ++ ending :: rest)))) =
            .move point :: (segment :: more ++ [.close]) ++
              BezState.drawAll ⟨next, false⟩ (writtenSteps false (stepsAlong next rest)) := by
  obtain ⟨segmentDrawn, moreDrawn⟩ := List.forall_mem_cons.mp drawn
  obtain ⟨segmentWhole, moreWhole⟩ := List.forall_mem_cons.mp whole
  obtain ⟨first, firstWhole, step⟩ :=
    drawAll_segment segmentDrawn segmentWhole (isWhole_some pointWhole)
  obtain ⟨next, nextWhole, steps⟩ :=
    drawAll_segments moreDrawn moreWhole (isWhole_some firstWhole)
  refine ⟨next, nextWhole, fun rest => ?_⟩
  rw [drawAll_move pointWhole lastWhole, step, steps, writtenSteps_ending ends, if_pos rfl]
  simp [BezState.drawAll, BezState.draw]

/-- What is written of an outline is drawn as the subpaths with a segment, closed. -/
theorem drawAll_stepsAlong {events : List (OutlineEvent α)} (wellDrawn : WellDrawn events)
    (whole : OutlineEvent.AllWhole events) {last : Option (Point α)}
    (lastWhole : ∀ point ∈ last, point.IsWhole (2 ^ 51)) (held : Option (Point α)) :
    BezState.drawAll ⟨last, false⟩
      (writtenSteps false (stepsAlong last (OutlineEvent.coalesce held events))) =
        (OutlineEvent.onlyDrawn events).map OutlineEvent.closed := by
  induction wellDrawn generalizing last held with
  | nil => rfl
  | @subpath start ending segments rest moves drawn ends later ih =>
      obtain ⟨startWhole, restWhole⟩ := List.forall_mem_cons.mp whole
      obtain ⟨segmentsWhole, endWhole⟩ := List.forall_mem_append.mp restWhole
      have laterWhole := (List.forall_mem_cons.mp endWhole).2
      obtain ⟨point, rfl⟩ := exists_eq_move moves
      rw [onlyDrawn_subpath moves drawn ends later, OutlineEvent.coalesce]
      cases segments with
      | nil =>
          rw [List.nil_append, OutlineEvent.coalesce_ending ends, writtenSteps_ending ends]
          exact ih laterWhole lastWhole (some point)
      | cons segment more =>
          obtain ⟨segmentDrawn, moreDrawn⟩ := List.forall_mem_cons.mp drawn
          have pointWhole := startWhole point List.mem_cons_self
          obtain ⟨next, nextWhole, written⟩ :=
            drawAll_subpath pointWhole drawn segmentsWhole ends lastWhole
          have nonempty : ¬ (segment :: more).isEmpty = true := Bool.false_ne_true
          rw [List.cons_append, OutlineEvent.coalesce_segment segmentDrawn,
            OutlineEvent.coalesce_segments moreDrawn, OutlineEvent.coalesce_ending ends,
            if_neg nonempty, List.map_append, OutlineEvent.map_closed_subpath drawn ends,
            ← ih laterWhole nextWhole none]
          exact written _

end Steps

/-- The bez text of a glyph is drawn as its outline with rounded points, every subpath
with a line or a curve closed, and all other subpaths left out. -/
theorem ofText_bez {α : Type} [Coordinate α] [ExactArithmetic α] (view : FontView α)
    (glyph : Glyph α)
    (whole : OutlineEvent.AllWhole
      ((view.flatEvents glyph.events).map (OutlineEvent.mapPoints Point.round))) :
    BezDrawing.ofText (view.bez glyph) =
      ⟨(OutlineEvent.onlyDrawn
        ((view.flatEvents glyph.events).map (OutlineEvent.mapPoints Point.round))).map
          OutlineEvent.closed, none⟩ := by
  have wellDrawn := (view.wellDrawn_flatEvents glyph).map_mapPoints Point.round
  generalize outline : (view.flatEvents glyph.events).map (OutlineEvent.mapPoints Point.round) =
    events at whole wellDrawn ⊢
  have coalesced : OutlineEvent.AllWhole (OutlineEvent.coalesce none events) := by
    intro event listed
    rcases mem_or_of_mem_coalesce listed with found | ⟨_, none, _⟩
    · exact whole event found
    · cases none
  have noPoint : ∀ point ∈ (none : Option (Point α)), point.IsWhole (2 ^ 51) :=
    fun _ none => nomatch none
  have steps : relativeEvents true (view.flatEvents glyph.events) =
      stepsAlong none (OutlineEvent.coalesce none events) :=
    outline ▸ RelativeState.drawAll_eq_stepsAlong true {} (view.flatEvents glyph.events)
  unfold FontView.bez bezOfEvents bezOfRelative
  rw [steps, ofText_bezText (spells_stepsAlong false noPoint coalesced)]
  exact congrArg (BezDrawing.mk · none) (drawAll_stepsAlong wellDrawn whole noPoint none)

/-- An open stroke of halves after a lone point. -/
theorem ofText_bez_openStroke :
    let half : Double := .ofLiteral (.finite false 5 (-1))
    let whole (number : Int) : Double := Coordinate.ofInt number
    let lone : Contour Double := ⟨[⟨⟨whole 30, whole 30⟩, .move, false⟩]⟩
    let stroke : Contour Double :=
      ⟨[⟨⟨half, half - whole 8⟩, .move, false⟩, ⟨⟨half, whole 20⟩, .line, false⟩,
        ⟨⟨half, whole 20⟩, .line, false⟩]⟩
    let glyph : Glyph Double :=
      { name := "stroke", width := whole 0, height := whole 0, contours := [lone, stroke] }
    let view := (Font.empty.addGlyph glyph).whole
    OutlineEvent.AllWhole
        ((view.flatEvents glyph.events).map (OutlineEvent.mapPoints Point.round)) ∧
      BezDrawing.ofText (view.bez glyph) =
        ⟨[.move ⟨whole 1, whole (-7)⟩, .line ⟨whole 1, whole 20⟩, .line ⟨whole 1, whole 20⟩,
          .close], none⟩ := by
  intro half whole lone stroke glyph view
  have outline : (view.flatEvents glyph.events).map (OutlineEvent.mapPoints Point.round) =
      [.move ⟨whole 30, whole 30⟩, .finish, .move ⟨whole 1, whole (-7)⟩, .line ⟨whole 1, whole 20⟩,
        .line ⟨whole 1, whole 20⟩, .finish] := by
    decide +kernel
  have point (x y : Int) (small : x.natAbs ≤ 2 ^ 51 ∧ y.natAbs ≤ 2 ^ 51) :
      Point.IsWhole (2 ^ 51) ⟨whole x, whole y⟩ :=
    ⟨x, y, small.1, small.2, rfl⟩
  have allWhole : OutlineEvent.AllWhole
      ((view.flatEvents glyph.events).map (OutlineEvent.mapPoints Point.round)) := by
    rw [outline]
    simp only [OutlineEvent.AllWhole, OutlineEvent.points, List.forall_mem_cons, List.not_mem_nil,
      false_implies, implies_true, and_true, true_and]
    exact ⟨point 30 30 (by decide), point 1 (-7) (by decide), point 1 20 (by decide),
      point 1 20 (by decide)⟩
  refine ⟨allWhole, ?_⟩
  rw [ofText_bez view glyph allWhole, outline]
  rfl

end FontCompiler
