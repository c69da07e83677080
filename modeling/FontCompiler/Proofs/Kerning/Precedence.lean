import FontCompiler.Proofs.Kerning.Splitting

/-!
# Precedence among kerning entries

Kerning lists two glyphs in up to four ways, each glyph by itself or through its
group, and the closest listing counts. This is also the value of the first pair
that covers the glyphs in the bucket of every script in which they meet.
-/

namespace FontCompiler

/-! ## Bases and marks -/

/-- The part of a side with or without its marks. -/
def KernSide.markPart? (marks : SortedSet GlyphName) (marked : Bool) (side : KernSide) :
    Option KernSide :=
  if marked then (side.splitMarks marks).2 else (side.splitMarks marks).1

/-- Whether a mark is among two glyphs. -/
def hasMark (marks : SortedSet GlyphName) (first second : GlyphName) : Bool :=
  decide (first ∈ marks) || decide (second ∈ marks)

section Marks

variable {marks : SortedSet GlyphName} {marked : Bool} {side part : KernSide}

theorem of_markPart? (found : side.markPart? marks marked = some part) :
    part.label = side.label ∧
      ∀ glyph, glyph ∈ part.glyphs ↔ glyph ∈ side.glyphs ∧ decide (glyph ∈ marks) = marked := by
  cases side with
  | glyph name =>
      unfold KernSide.markPart? KernSide.splitMarks at found
      have single : part = .glyph name ∧ decide (name ∈ marks) = marked := by
        by_cases held : name ∈ marks <;> cases marked <;> simp_all
      obtain ⟨rfl, same⟩ := single
      refine ⟨rfl, fun glyph => ⟨fun listed => ⟨listed, ?_⟩, And.left⟩⟩
      rwa [List.mem_singleton.mp listed]
  | group name members =>
      unfold KernSide.markPart? KernSide.splitMarks at found
      cases marked with
      | false =>
          obtain ⟨-, same⟩ := Option.ite_none_left_eq_some.mp found
          cases same
          refine ⟨rfl, fun glyph => ?_⟩
          rw [decide_eq_false_iff_not]
          exact SortedSet.mem_filter.trans (and_congr_right fun _ => decide_eq_true_iff)
      | true =>
          obtain ⟨-, same⟩ := Option.ite_none_left_eq_some.mp found
          cases same
          refine ⟨rfl, fun glyph => ?_⟩
          rw [decide_eq_true_iff]
          exact SortedSet.mem_filter.trans (and_congr_right fun _ => decide_eq_true_iff)

theorem exists_markPart? {glyph : GlyphName} (listed : glyph ∈ side.glyphs)
    (kind : decide (glyph ∈ marks) = marked) : ∃ part, side.markPart? marks marked = some part := by
  subst kind
  cases side with
  | glyph name =>
      cases List.mem_singleton.mp listed
      unfold KernSide.markPart? KernSide.splitMarks
      by_cases held : glyph ∈ marks <;> simp [held]
  | group name members =>
      unfold KernSide.markPart? KernSide.splitMarks
      by_cases held : glyph ∈ marks
      · have inhabited : (members.filter fun glyph => decide (glyph ∈ marks)).isEmpty = false :=
          List.isEmpty_eq_false_iff.mpr (List.ne_nil_of_mem
            (SortedSet.mem_filter.mpr ⟨listed, decide_eq_true held⟩))
        simp [held, inhabited]
      · have inhabited : (members.filter fun glyph => decide (glyph ∉ marks)).isEmpty = false :=
          List.isEmpty_eq_false_iff.mpr (List.ne_nil_of_mem
            (SortedSet.mem_filter.mpr ⟨listed, decide_eq_true held⟩))
        simp only [held, decide_false, Bool.false_eq_true, if_false, inhabited]
        exact ⟨_, rfl⟩

end Marks

section Halves

variable {α : Type} {marks : SortedSet GlyphName} {pairs : List (KerningPair α)}

/-- The part of a pair whose sides are marks or not as wanted. -/
def markCut (marks : SortedSet GlyphName) (firstMarked secondMarked : Bool) (pair : KerningPair α) :
    List (KerningPair α) :=
  partPair pair.value (pair.first.markPart? marks firstMarked)
    (pair.second.markPart? marks secondMarked)

theorem mem_partPair {value : α} {first second : Option KernSide} {part : KerningPair α} :
    part ∈ partPair value first second ↔
      first = some part.first ∧ second = some part.second ∧ part.value = value := by
  unfold partPair
  constructor
  · intro listed
    split at listed
    · cases List.mem_singleton.mp listed
      exact ⟨rfl, rfl, rfl⟩
    · cases listed
  · rintro ⟨rfl, rfl, rfl⟩
    exact List.mem_singleton_self part

/-- The half of the pairs that is kerned with or without marks. -/
def halfPairs (marks : SortedSet GlyphName) (marked : Bool) (pairs : List (KerningPair α)) :
    List (KerningPair α) :=
  if marked then markPairs marks pairs else basePairs marks pairs

/-- A half holds the parts of pairs for each way in which it can have marks. -/
theorem mem_halfPairs (inhabited : marks.isEmpty = false) {marked : Bool} {part : KerningPair α} :
    part ∈ halfPairs marks marked pairs ↔
      ∃ pair ∈ pairs, ∃ firstMarked secondMarked, (firstMarked || secondMarked) = marked ∧
        part ∈ markCut marks firstMarked secondMarked pair := by
  unfold halfPairs basePairs markPairs
  cases marked with
  | false =>
      rw [if_neg Bool.false_ne_true, inhabited, if_neg Bool.false_ne_true, List.mem_flatMap]
      refine exists_congr fun pair => and_congr_right fun _ => ⟨fun listed => ?_, ?_⟩
      · exact ⟨false, false, rfl, listed⟩
      · rintro ⟨firstMarked, secondMarked, bases, listed⟩
        obtain ⟨rfl, rfl⟩ := Bool.or_eq_false_iff.mp bases
        exact listed
  | true =>
      rw [if_pos rfl, inhabited, if_neg Bool.false_ne_true, List.mem_flatMap]
      refine exists_congr fun pair => and_congr_right fun _ => ⟨fun listed => ?_, ?_⟩
      · rcases List.mem_append.mp listed with early | late
        · rcases List.mem_append.mp early with secondMark | firstMark
          · exact ⟨false, true, rfl, secondMark⟩
          · exact ⟨true, false, rfl, firstMark⟩
        · exact ⟨true, true, rfl, late⟩
      · rintro ⟨firstMarked, secondMarked, marks, listed⟩
        cases firstMarked with
        | false =>
            cases (Bool.false_or secondMarked).symm.trans marks
            exact List.mem_append_left _ (List.mem_append_left _ listed)
        | true =>
            cases secondMarked with
            | false => exact List.mem_append_left _ (List.mem_append_right _ listed)
            | true => exact List.mem_append_right _ listed

theorem partOf_of_mem_markCut {firstMarked secondMarked : Bool} {pair part : KerningPair α}
    (listed : part ∈ markCut marks firstMarked secondMarked pair) : part.PartOf pair := by
  obtain ⟨firstFound, secondFound, same⟩ := mem_partPair.mp listed
  obtain ⟨firstLabel, firstMem⟩ := of_markPart? firstFound
  obtain ⟨secondLabel, secondMem⟩ := of_markPart? secondFound
  exact ⟨⟨firstLabel, fun glyph found => ((firstMem glyph).mp found).1⟩,
    ⟨secondLabel, fun glyph found => ((secondMem glyph).mp found).1⟩, same⟩

theorem partOf_of_mem_halfPairs {marked : Bool} {part : KerningPair α}
    (listed : part ∈ halfPairs marks marked pairs) : ∃ pair ∈ pairs, part.PartOf pair := by
  cases empty : marks.isEmpty with
  | false =>
      obtain ⟨pair, member, _, _, -, cut⟩ := (mem_halfPairs empty).mp listed
      exact ⟨pair, member, partOf_of_mem_markCut cut⟩
  | true =>
      unfold halfPairs basePairs markPairs at listed
      rw [empty] at listed
      cases marked with
      | false => exact ⟨part, listed, .refl _, .refl _, rfl⟩
      | true => cases listed

/-- Each half covers what the pairs cover with a mark or without one. -/
theorem kerns_halfPairs {marked : Bool} {first second : GlyphName} {label : SideLabel × SideLabel}
    {value : α} :
    Kerns (halfPairs marks marked pairs) first second label value ↔
      Kerns pairs first second label value ∧ hasMark marks first second = marked := by
  cases empty : marks.isEmpty with
  | false =>
      constructor
      · intro kerned
        refine ⟨kerned.of_parts fun part listed => partOf_of_mem_halfPairs listed, ?_⟩
        obtain ⟨part, listed, covered, -, -⟩ := kerned
        obtain ⟨pair, -, firstMarked, secondMarked, kind, cut⟩ := (mem_halfPairs empty).mp listed
        obtain ⟨firstFound, secondFound, -⟩ := mem_partPair.mp cut
        have firstKind := (((of_markPart? firstFound).2 first).mp covered.1).2
        have secondKind := (((of_markPart? secondFound).2 second).mp covered.2).2
        rw [hasMark, firstKind, secondKind, kind]
      · rintro ⟨kerned, kind⟩
        refine kerned.to_parts fun pair member covered => ?_
        obtain ⟨firstPart, firstFound⟩ := exists_markPart? covered.1 rfl
        obtain ⟨secondPart, secondFound⟩ := exists_markPart? covered.2 rfl
        have cut : KerningPair.mk firstPart secondPart pair.value ∈
            markCut marks (decide (first ∈ marks)) (decide (second ∈ marks)) pair :=
          mem_partPair.mpr ⟨firstFound, secondFound, rfl⟩
        refine ⟨_, (mem_halfPairs empty).mpr ⟨pair, member, _, _, kind, cut⟩,
          partOf_of_mem_markCut cut, ?_⟩
        exact ⟨((of_markPart? firstFound).2 first).mpr ⟨covered.1, rfl⟩,
          ((of_markPart? secondFound).2 second).mpr ⟨covered.2, rfl⟩⟩
  | true =>
      have noMark : hasMark marks first second = false := by
        have none : ∀ glyph, glyph ∉ marks := fun glyph held =>
          List.ne_nil_of_mem held (List.isEmpty_iff.mp empty)
        simp [hasMark, none first, none second]
      unfold halfPairs basePairs markPairs
      rw [noMark, empty]
      cases marked with
      | false => exact ⟨fun kerned => ⟨kerned, rfl⟩, And.left⟩
      | true =>
          constructor
          · rintro ⟨pair, listed, -⟩
            cases listed
          · rintro ⟨-, wrong⟩
            cases wrong

end Halves

/-! ## The closest listing -/

section Closest

variable {α : Type} [Coordinate α]

/-- The value listed for two glyphs under names of given kinds. Two groups
without kerning count as not listed. -/
def KerningGroups.listedValue? (groups : KerningGroups) (kerning : KerningTable α)
    (first second : GlyphName) (level : Bool × Bool) : Option α :=
  match groups.nameOf? .first level.1 first, groups.nameOf? .second level.2 second with
  | some firstName, some secondName =>
      (kerning.get? (firstName, secondName)).filter fun value =>
        !(Coordinate.isZero value && level.1 && level.2)
  | _, _ => none

/-- The value of the listing that names two glyphs most closely: both by
themselves, then the second by its group, then the first, then both. -/
def KerningGroups.closestValue? (groups : KerningGroups) (kerning : KerningTable α)
    (first second : GlyphName) : Option α :=
  KerningPair.levels.findSome? (groups.listedValue? kerning first second)

variable {contains : GlyphName → Bool} {table : GroupTable} {kerning : KerningTable α}

/-- A resolved pair that covers two glyphs gives them the value listed under
names of its kind. -/
theorem listedValue?_of_covers {pair : KerningPair α}
    (listed : pair ∈ resolvedPairs (KerningGroups.ofTable contains table) contains kerning)
    {first second : GlyphName} (covered : pair.Covers first second) :
    (KerningGroups.ofTable contains table).listedValue? kerning first second pair.level =
      some pair.value := by
  obtain ⟨firstName, secondName, entry, firstFound, secondFound, counts⟩ :=
    mem_resolvedPairs.mp listed
  have firstNamed := KerningGroups.nameOf?_of_sideOf?
    (KerningGroups.cleanSide_ofTable contains table .first) firstFound covered.1
  have secondNamed := KerningGroups.nameOf?_of_sideOf?
    (KerningGroups.cleanSide_ofTable contains table .second) secondFound covered.2
  unfold KerningGroups.listedValue? KerningPair.level
  rw [firstNamed, secondNamed]
  dsimp only
  rw [OrderedMap.get?_eq_some_iff.mpr entry, Option.filter_some, counts]
  rfl

/-- What is listed for two glyphs of the font is the value of a resolved pair. -/
theorem exists_covers_of_listedValue? {first second : GlyphName}
    (firstPresent : contains first = true) (secondPresent : contains second = true)
    {level : Bool × Bool} {value : α}
    (listed : (KerningGroups.ofTable contains table).listedValue? kerning first second level =
      some value) :
    ∃ pair ∈ resolvedPairs (KerningGroups.ofTable contains table) contains kerning,
      pair.Covers first second ∧ pair.level = level ∧ pair.value = value := by
  unfold KerningGroups.listedValue? at listed
  split at listed
  · next firstName secondName firstNamed secondNamed =>
      obtain ⟨entry, counts⟩ := Option.filter_eq_some_iff.mp listed
      obtain ⟨firstSide, firstFound, firstKind, firstHeld⟩ := KerningGroups.sideOf?_of_nameOf?
        (KerningGroups.cleanSide_ofTable contains table .first) firstPresent firstNamed
      obtain ⟨secondSide, secondFound, secondKind, secondHeld⟩ := KerningGroups.sideOf?_of_nameOf?
        (KerningGroups.cleanSide_ofTable contains table .second) secondPresent secondNamed
      refine ⟨⟨firstSide, secondSide, value⟩, mem_resolvedPairs.mpr ⟨firstName, secondName,
        OrderedMap.get?_eq_some_iff.mp entry, firstFound, secondFound, ?_⟩,
        ⟨firstHeld, secondHeld⟩, Prod.ext firstKind secondKind, rfl⟩
      rw [firstKind, secondKind]
      simpa only [Bool.not_eq_true'] using counts
  · cases listed

end Closest

/-! ## The first pair of a bucket -/

section Buckets

variable {α : Type} [Coordinate α]

/-- The pairs of one half that are kerned in a script. -/
def halfBucket (scripts : ScriptsByGlyph) (marks : SortedSet GlyphName) (marked : Bool)
    (pairs : List (KerningPair α)) (script : Script) : List (KerningPair α) :=
  (splitByScript scripts (halfPairs marks marked pairs)).findD script []

variable {scripts : ScriptsByGlyph} {marks : SortedSet GlyphName} {marked : Bool}
  {pairs : List (KerningPair α)} {script : Script}

theorem pairwise_halfBucket : (halfBucket scripts marks marked pairs script).Pairwise
    fun pair other => (pair.order other).isLE = true := by
  rw [halfBucket, findD_splitByScript]
  exact KerningPair.pairwise_sort _

theorem kerns_halfBucket (agree : LabelsAgree pairs) {first second : GlyphName}
    {label : SideLabel × SideLabel} {value : α} :
    Kerns (halfBucket scripts marks marked pairs script) first second label value ↔
      Kerns pairs first second label value ∧ hasMark marks first second = marked ∧
        scripts.Meet first second script := by
  have halfAgree : LabelsAgree (halfPairs marks marked pairs) :=
    agree.of_parts fun part listed => partOf_of_mem_halfPairs listed
  rw [halfBucket, findD_splitByScript, kerns_scriptBucket halfAgree, kerns_halfPairs, and_assoc]

/-- A pair of a bucket gives the glyphs that it covers the value listed for its kind. -/
theorem listedValue?_of_mem_halfBucket {contains : GlyphName → Bool} {table : GroupTable}
    {kerning : KerningTable α} {pair : KerningPair α}
    (listed : pair ∈ halfBucket scripts marks marked
      (resolvedPairs (KerningGroups.ofTable contains table) contains kerning) script)
    {first second : GlyphName} (covered : pair.Covers first second) :
    (KerningGroups.ofTable contains table).listedValue? kerning first second pair.level =
      some pair.value := by
  obtain ⟨⟨whole, member, wholeCovered, sameLabel, sameValue⟩, -⟩ :=
    (kerns_halfBucket (labelsAgree_resolvedPairs kerning)).mp ⟨pair, listed, covered, rfl, rfl⟩
  rw [← KerningPair.level_eq_of_label_eq sameLabel, ← sameValue]
  exact listedValue?_of_covers member wholeCovered

/-- In every script in which two glyphs of the font meet, the first pair that
covers them, in the half for marks if there is a mark, has the value of their
closest listing, and there is none exactly when they are not listed. -/
theorem value_first_covering_eq_closestValue? (contains : GlyphName → Bool) (table : GroupTable)
    (kerning : KerningTable α) (marks : SortedSet GlyphName) (scripts : ScriptsByGlyph)
    {first second : GlyphName} (firstPresent : contains first = true)
    (secondPresent : contains second = true) {script : Script}
    (meet : scripts.Meet first second script) :
    let groups := KerningGroups.ofTable contains table
    let pairs := resolvedPairs groups contains kerning
    let half :=
      if first ∈ marks ∨ second ∈ marks then markPairs marks pairs else basePairs marks pairs
    (((splitByScript scripts half).findD script []).find? fun pair =>
      decide (pair.Covers first second)).map KerningPair.value =
        groups.closestValue? kerning first second := by
  intro groups pairs half
  have agree : LabelsAgree pairs := labelsAgree_resolvedPairs kerning
  have halfSame : half = halfPairs marks (hasMark marks first second) pairs := by
    simp only [half, halfPairs, hasMark, Bool.or_eq_true, decide_eq_true_iff]
  rw [halfSame]
  refine KerningPair.value_find?_eq_findSome?_levels pairwise_halfBucket fun level value => ?_
  constructor
  · rintro ⟨pair, listed, covered, rfl, rfl⟩
    exact listedValue?_of_mem_halfBucket listed covered
  · intro listed
    obtain ⟨whole, member, wholeCovered, rfl, rfl⟩ :=
      exists_covers_of_listedValue? firstPresent secondPresent listed
    obtain ⟨pair, pairListed, covered, sameLabel, sameValue⟩ :=
      (kerns_halfBucket agree).mpr ⟨⟨whole, member, wholeCovered, rfl, rfl⟩, rfl, meet⟩
    exact ⟨pair, pairListed, covered, KerningPair.level_eq_of_label_eq sameLabel, sameValue⟩

end Buckets

/-- An exception without kerning outranks the kerning of the groups that it is made for. -/
theorem value_first_covering_of_zero_exception :
    let contains : GlyphName → Bool := fun glyph => decide (glyph ∈ ["A", "V", "acutecomb"])
    let table : GroupTable :=
      .ofList [("public.kern1.A", ["A", "acutecomb"]), ("public.kern2.V", ["V", "lost"])]
    let kerning : KerningTable Rat :=
      .ofList [(("public.kern1.A", "public.kern2.V"), -30), (("public.kern1.A", "V"), 0)]
    let marks : SortedSet GlyphName := .singleton "acutecomb"
    let scripts : ScriptsByGlyph := .tabulate (.singleton "V") fun _ => .singleton .latin
    let pairs := resolvedPairs (KerningGroups.ofTable contains table) contains kerning
    let half := if "A" ∈ marks ∨ "V" ∈ marks then markPairs marks pairs else basePairs marks pairs
    contains "A" = true ∧ contains "V" = true ∧ scripts.Meet "A" "V" .latin ∧
      (((splitByScript scripts half).findD .latin []).find? fun pair =>
        decide (pair.Covers "A" "V")).map KerningPair.value = some 0 := by
  intro contains table kerning marks scripts pairs half
  have firstPresent : contains "A" = true := by decide
  have secondPresent : contains "V" = true := by decide
  have meet : scripts.Meet "A" "V" .latin :=
    ⟨.common, by decide, .latin, by decide, .takesSecond (by decide) (by decide)⟩
  have closest : (KerningGroups.ofTable contains table).closestValue? kerning "A" "V" = some 0 := by
    decide +kernel
  exact ⟨firstPresent, secondPresent, meet, closest ▸ value_first_covering_eq_closestValue? contains
    table kerning marks scripts firstPresent secondPresent meet⟩

end FontCompiler
