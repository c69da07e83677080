import Mathlib.Data.List.Pairwise
import FontCompiler.Proofs.Kerning.Fragments

/-!
# Pairs that a script has twice

Repeated sides are dropped before groups are cut into fragments. Two parts of a pair that go to
the same script with the same second side and with overlapping first sides leave a fragment
each, and both are kept. The pairs of a script repeat no sides exactly when no pair of the
font has two such parts.
-/

namespace FontCompiler

def KerningPair.sides {α : Type} (pair : KerningPair α) : KernSide × KernSide :=
  (pair.first, pair.second)

/-! ## Sides after the cut -/

theorem KernSide.eq_of_glyphs {side other : KernSide} (labels : side.label = other.label)
    (glyphs : ∀ glyph, glyph ∈ side.glyphs ↔ glyph ∈ other.glyphs) : side = other := by
  cases side with
  | glyph name =>
      cases other with
      | glyph second => exact congrArg _ (congrArg Prod.snd labels)
      | group second others => cases congrArg Prod.fst labels
  | group name members =>
      cases other with
      | glyph second => cases congrArg Prod.fst labels
      | group second others =>
          have names : name = second := congrArg Prod.snd labels
          have sets : members = others := SortedSet.ext glyphs
          rw [names, sets]

def KerningPair.cutSides {α : Type} (sets : List (SortedSet GlyphName)) (pair : KerningPair α) :
    List (KernSide × KernSide) :=
  (pair.first.cut sets).map fun part => (part, pair.second)

section Cuts

variable {α : Type} {pairs : List (KerningPair α)}

theorem sides_disjointFirsts (pairs : List (KerningPair α)) :
    (disjointFirsts pairs).map KerningPair.sides =
      pairs.flatMap (KerningPair.cutSides (firstGroups pairs)) := by
  rw [disjointFirsts_eq_flatMap, List.map_flatMap]
  refine List.flatMap_congr fun pair _ => ?_
  rw [List.map_map]
  rfl

theorem nodup_fragments (sets : List (SortedSet GlyphName)) (members : SortedSet GlyphName) :
    (fragments sets members).Nodup := by
  have once := (flatMap_fragments_perm sets members).nodup_iff.mpr members.nodup
  refine (List.nodup_flatMap.mp once).2.imp_of_mem fun {fragment other} listed _ apart same => ?_
  obtain ⟨glyph, held⟩ := List.exists_mem_of_ne_nil _ (of_mem_fragments listed).1
  exact apart held (same ▸ held)

theorem nodup_cut (sets : List (SortedSet GlyphName)) (side : KernSide) :
    (side.cut sets).Nodup := by
  cases side with
  | glyph name => exact List.nodup_singleton _
  | group name members =>
      exact (nodup_fragments sets members).map fun _ _ same => (KernSide.group.inj same).2

theorem nodup_cutSides (sets : List (SortedSet GlyphName)) (pair : KerningPair α) :
    (pair.cutSides sets).Nodup :=
  (nodup_cut sets pair.first).map fun _ _ same => congrArg Prod.fst same

/-- Two sides share a part after the cut exactly when they have the same label and a glyph in
common. -/
theorem exists_mem_cut_iff {pair other : KerningPair α} (listed : pair ∈ pairs)
    (otherListed : other ∈ pairs) :
    (∃ part ∈ pair.first.cut (firstGroups pairs), part ∈ other.first.cut (firstGroups pairs)) ↔
      pair.first.label = other.first.label ∧
        ∃ glyph ∈ pair.first.glyphs, glyph ∈ other.first.glyphs := by
  cases shape : pair.first with
  | glyph name =>
      cases otherShape : other.first with
      | glyph second =>
          simp [KernSide.cut, KernSide.glyphs, KernSide.label, KernSide.isGroup, KernSide.name]
      | group second others => simp [KernSide.cut, KernSide.label, KernSide.isGroup]
  | group name members =>
      cases otherShape : other.first with
      | glyph second => simp [KernSide.cut, KernSide.label, KernSide.isGroup]
      | group second others =>
          have cuts : members ∈ firstGroups pairs := mem_firstGroups.mpr ⟨pair, listed, name, shape⟩
          have otherCuts : others ∈ firstGroups pairs :=
            mem_firstGroups.mpr ⟨other, otherListed, second, otherShape⟩
          constructor
          · rintro ⟨part, cut, otherCut⟩
            obtain ⟨fragment, fragmentListed, rfl⟩ := List.mem_map.mp cut
            obtain ⟨same, sameListed, equal⟩ := List.mem_map.mp otherCut
            cases equal
            obtain ⟨inhabited, within⟩ := of_mem_fragments fragmentListed
            obtain ⟨glyph, held⟩ := List.exists_mem_of_ne_nil _ inhabited
            exact ⟨rfl, glyph, within glyph held, (of_mem_fragments sameListed).2 glyph held⟩
          · rintro ⟨labels, glyph, held, otherHeld⟩
            have names : name = second := congrArg Prod.snd labels
            obtain ⟨fragment, fragmentListed, found⟩ :=
              exists_mem_fragments (firstGroups pairs) held
            obtain ⟨third, thirdListed, otherFound⟩ :=
              exists_mem_fragments (firstGroups pairs) otherHeld
            have same : fragment = third :=
              fragment_eq_of_mem cuts otherCuts fragmentListed thirdListed found otherFound
            refine ⟨.group name fragment, List.mem_map.mpr ⟨fragment, fragmentListed, rfl⟩, ?_⟩
            exact List.mem_map.mpr ⟨third, thirdListed, by rw [names, same]⟩

/-- Whether two pairs have the same second side, and first sides of one label with a glyph in
common. -/
def KerningPair.Overlaps (pair other : KerningPair α) : Prop :=
  pair.second = other.second ∧ pair.first.label = other.first.label ∧
    ∃ glyph ∈ pair.first.glyphs, glyph ∈ other.first.glyphs

theorem disjoint_cutSides_iff {pair other : KerningPair α} (listed : pair ∈ pairs)
    (otherListed : other ∈ pairs) :
    (pair.cutSides (firstGroups pairs)).Disjoint (other.cutSides (firstGroups pairs)) ↔
      ¬ pair.Overlaps other := by
  rw [KerningPair.Overlaps, ← exists_mem_cut_iff listed otherListed]
  constructor
  · rintro apart ⟨seconds, part, cut, otherCut⟩
    exact apart (List.mem_map.mpr ⟨part, cut, rfl⟩)
      (List.mem_map.mpr ⟨part, otherCut, by rw [seconds]⟩)
  · intro apart sides cut otherCut
    obtain ⟨part, partListed, rfl⟩ := List.mem_map.mp cut
    obtain ⟨second, secondListed, same⟩ := List.mem_map.mp otherCut
    obtain ⟨rfl, seconds⟩ := Prod.mk.inj same
    exact apart ⟨seconds.symm, second, partListed, secondListed⟩

/-- Pairs that are listed once repeat no sides after the cut exactly when no two of them
overlap. -/
theorem nodup_sides_disjointFirsts_iff (nodup : pairs.Nodup) :
    ((disjointFirsts pairs).map KerningPair.sides).Nodup ↔
      ∀ pair ∈ pairs, ∀ other ∈ pairs, pair.Overlaps other → pair = other := by
  rw [sides_disjointFirsts, List.nodup_flatMap,
    and_iff_right fun pair _ => nodup_cutSides (firstGroups pairs) pair]
  constructor
  · intro apart pair listed other otherListed overlaps
    by_contra different
    have symm : Std.Symm
        (Function.onFun List.Disjoint (KerningPair.cutSides (α := α) (firstGroups pairs))) :=
      ⟨fun _ _ disjoint _ held other => disjoint other held⟩
    exact (disjoint_cutSides_iff listed otherListed).mp
      (apart.forall listed otherListed different) overlaps
  · intro alone
    refine nodup.pairwise_of_forall_ne fun pair listed other otherListed different => ?_
    exact (disjoint_cutSides_iff listed otherListed).mpr fun overlaps =>
      different (alone pair listed other otherListed overlaps)

end Cuts

/-! ## Parts that overlap -/

/-- Whether two parts of a pair go to a script with the same second side, and with first sides
that differ and have a glyph in common. The parts are in the first and second scripts given. -/
structure KerningPair.OverlapsIn {α : Type} (scripts : ScriptsByGlyph) (script : Script)
    (pair : KerningPair α) (firstScript secondScript otherFirst otherSecond : Script) : Prop where
  meet : Script.Meet firstScript secondScript script
  otherMeet : Script.Meet otherFirst otherSecond script
  common : ∃ glyph ∈ pair.first.glyphs,
    firstScript ∈ scripts.of glyph ∧ otherFirst ∈ scripts.of glyph
  differs : ∃ glyph ∈ pair.first.glyphs,
    ¬ (firstScript ∈ scripts.of glyph ↔ otherFirst ∈ scripts.of glyph)
  inhabited : ∃ glyph ∈ pair.second.glyphs, secondScript ∈ scripts.of glyph
  alike : ∀ glyph ∈ pair.second.glyphs,
    secondScript ∈ scripts.of glyph ↔ otherSecond ∈ scripts.of glyph

/-- Whether a pair has two parts that overlap in a script. -/
def KerningPair.OverlapsItself {α : Type} (scripts : ScriptsByGlyph) (script : Script)
    (pair : KerningPair α) : Prop :=
  ∃ firstScript secondScript otherFirst otherSecond,
    pair.OverlapsIn scripts script firstScript secondScript otherFirst otherSecond

section Parts

variable {α : Type} {scripts : ScriptsByGlyph} {script : Script} {pairs : List (KerningPair α)}

/-- Parts of a side in two scripts are the same exactly when its glyphs have both scripts or
neither. -/
theorem KernSide.ScriptPartOf.eq_iff {other : Script} {part second side : KernSide}
    (cut : ScriptPartOf scripts script part side)
    (otherCut : ScriptPartOf scripts other second side) :
    part = second ↔
      ∀ glyph ∈ side.glyphs, (script ∈ scripts.of glyph ↔ other ∈ scripts.of glyph) := by
  constructor
  · rintro rfl glyph listed
    have holds := (cut.mem_iff glyph).symm.trans (otherCut.mem_iff glyph)
    rwa [and_iff_right listed, and_iff_right listed] at holds
  · intro alike
    refine eq_of_glyphs (cut.label_eq.trans otherCut.label_eq.symm) fun glyph => ?_
    rw [cut.mem_iff, otherCut.mem_iff]
    exact and_congr_right (alike glyph)

/-- Two parts of a pair overlap and differ exactly when the pair overlaps in their scripts. -/
theorem overlaps_iff_overlapsIn {pair part other : KerningPair α}
    {firstScript secondScript otherFirst otherSecond : Script}
    (firstCut : KernSide.ScriptPartOf scripts firstScript part.first pair.first)
    (secondCut : KernSide.ScriptPartOf scripts secondScript part.second pair.second)
    (otherFirstCut : KernSide.ScriptPartOf scripts otherFirst other.first pair.first)
    (otherSecondCut : KernSide.ScriptPartOf scripts otherSecond other.second pair.second)
    (values : part.value = other.value) (meet : Script.Meet firstScript secondScript script)
    (otherMeet : Script.Meet otherFirst otherSecond script) :
    part.Overlaps other ∧ part ≠ other ↔
      pair.OverlapsIn scripts script firstScript secondScript otherFirst otherSecond := by
  constructor
  · rintro ⟨⟨seconds, -, glyph, held, otherHeld⟩, different⟩
    obtain ⟨listed, uses⟩ := (firstCut.mem_iff glyph).mp held
    obtain ⟨-, otherUses⟩ := (otherFirstCut.mem_iff glyph).mp otherHeld
    obtain ⟨second, secondHeld⟩ := List.exists_mem_of_ne_nil _ secondCut.inhabited
    refine ⟨meet, otherMeet, ⟨glyph, listed, uses, otherUses⟩, ?_,
      ⟨second, (secondCut.mem_iff second).mp secondHeld⟩,
      (secondCut.eq_iff otherSecondCut).mp seconds⟩
    by_contra alike
    push Not at alike
    have firsts : part.first = other.first := (firstCut.eq_iff otherFirstCut).mpr alike
    exact different (KerningPair.eq_of_sides firsts seconds values)
  · intro overlaps
    obtain ⟨glyph, listed, uses, otherUses⟩ := overlaps.common
    obtain ⟨third, thirdListed, apart⟩ := overlaps.differs
    refine ⟨⟨(secondCut.eq_iff otherSecondCut).mpr overlaps.alike,
      firstCut.label_eq.trans otherFirstCut.label_eq.symm, glyph,
      (firstCut.mem_iff glyph).mpr ⟨listed, uses⟩,
      (otherFirstCut.mem_iff glyph).mpr ⟨listed, otherUses⟩⟩, fun same => ?_⟩
    have firsts : part.first = other.first := congrArg KerningPair.first same
    exact apart ((firstCut.eq_iff otherFirstCut).mp firsts third thirdListed)

/-- Where each label comes from one pair, two different parts overlap exactly when a pair
overlaps itself. -/
theorem exists_overlapping_parts_iff (scripts : ScriptsByGlyph) (script : Script)
    (unique : ∀ pair ∈ pairs, ∀ other ∈ pairs, pair.label = other.label → pair = other) :
    (∃ part ∈ partsIn scripts pairs script, ∃ other ∈ partsIn scripts pairs script,
        part.Overlaps other ∧ part ≠ other) ↔
      ∃ pair ∈ pairs, pair.OverlapsItself scripts script := by
  constructor
  · rintro ⟨part, listed, other, otherListed, overlap⟩
    obtain ⟨pair, member, firstScript, secondScript, firstListed, secondListed, meet, value⟩ :=
      mem_partsIn.mp listed
    obtain ⟨whole, wholeMember, otherFirst, otherSecond, otherFirstListed, otherSecondListed,
      otherMeet, otherValue⟩ := mem_partsIn.mp otherListed
    have firstCut := KernSide.scriptPartOf_of_mem_byScript firstListed
    have secondCut := KernSide.scriptPartOf_of_mem_byScript secondListed
    have otherFirstCut := KernSide.scriptPartOf_of_mem_byScript otherFirstListed
    have otherSecondCut := KernSide.scriptPartOf_of_mem_byScript otherSecondListed
    -- Overlapping parts have one label, so they are parts of one pair.
    have wholes : pair = whole := by
      obtain ⟨seconds, labels, -⟩ := overlap.1
      refine unique pair member whole wholeMember (Prod.ext ?_ ?_)
      · exact firstCut.label_eq.symm.trans (labels.trans otherFirstCut.label_eq)
      · exact secondCut.label_eq.symm.trans (seconds ▸ otherSecondCut.label_eq)
    subst wholes
    exact ⟨pair, member, firstScript, secondScript, otherFirst, otherSecond,
      (overlaps_iff_overlapsIn firstCut secondCut otherFirstCut otherSecondCut
        (value.trans otherValue.symm) meet otherMeet).mp overlap⟩
  · rintro ⟨pair, member, firstScript, secondScript, otherFirst, otherSecond, overlaps⟩
    obtain ⟨glyph, listed, uses, otherUses⟩ := overlaps.common
    obtain ⟨second, secondListed, secondUses⟩ := overlaps.inhabited
    have lastUses := (overlaps.alike second secondListed).mp secondUses
    obtain ⟨firstPart, firstFound⟩ := KernSide.exists_mem_byScript listed uses
    obtain ⟨otherPart, otherFound⟩ := KernSide.exists_mem_byScript listed otherUses
    obtain ⟨secondPart, secondFound⟩ := KernSide.exists_mem_byScript secondListed secondUses
    obtain ⟨lastPart, lastFound⟩ := KernSide.exists_mem_byScript secondListed lastUses
    refine ⟨⟨firstPart, secondPart, pair.value⟩, ?_, ⟨otherPart, lastPart, pair.value⟩, ?_, ?_⟩
    · exact mem_partsIn.mpr ⟨pair, member, firstScript, secondScript, firstFound, secondFound,
        overlaps.meet, rfl⟩
    · exact mem_partsIn.mpr ⟨pair, member, otherFirst, otherSecond, otherFound, lastFound,
        overlaps.otherMeet, rfl⟩
    · refine (overlaps_iff_overlapsIn ?_ ?_ ?_ ?_ ?_ overlaps.meet overlaps.otherMeet).mpr overlaps
      · exact KernSide.scriptPartOf_of_mem_byScript firstFound
      · exact KernSide.scriptPartOf_of_mem_byScript secondFound
      · exact KernSide.scriptPartOf_of_mem_byScript otherFound
      · exact KernSide.scriptPartOf_of_mem_byScript lastFound
      · rfl

end Parts

/-- The pairs of a script repeat no sides exactly when no pair of the font overlaps itself
there. -/
theorem nodup_sides_splitByScript_iff {α : Type} [Coordinate α] (groups : KerningGroups)
    (contains : GlyphName → Bool) (kerning : KerningTable α) (scripts : ScriptsByGlyph)
    (script : Script) :
    let pairs := resolvedPairs groups contains kerning
    (((splitByScript scripts pairs).findD script []).map KerningPair.sides).Nodup ↔
      ∀ pair ∈ pairs, ¬ pair.OverlapsItself scripts script := by
  intro pairs
  have agree : LabelsAgree (partsIn scripts pairs script) :=
    (labelsAgree_resolvedPairs kerning).of_parts fun part listed => partOf_of_mem_partsIn listed
  have unique : ∀ pair ∈ pairs, ∀ other ∈ pairs, pair.label = other.label → pair = other :=
    fun _ member _ otherMember => eq_of_label_eq_of_mem_resolvedPairs member otherMember
  have overlapping := exists_overlapping_parts_iff scripts script unique
  rw [((findD_splitByScript_perm scripts pairs script).map _).nodup_iff,
    nodup_sides_disjointFirsts_iff (nodup_distinctSides _)]
  simp only [mem_distinctSides agree]
  rw [← not_iff_not]
  push Not
  exact overlapping

/-- A group one of whose glyphs is at home in every script as well. -/
def sharedGroup : GroupTable := .ofList [("public.kern1.A", ["a", "b"])]

def sharedKerning : KerningTable Rat := .ofList [(("public.kern1.A", "x"), -10)]

def sharedScripts : ScriptsByGlyph :=
  .tabulate (.ofList ["a", "b", "x"]) fun glyph =>
    if glyph = "a" then .ofList [.common, .latin] else .singleton .latin

def isSharedGlyph (glyph : GlyphName) : Bool := decide (glyph ∈ ["a", "b", "x"])

/-- The glyph goes to Latin by itself and with the group, and is cut out of the group. -/
theorem nodup_sides_splitByScript_shared :
    let pairs := resolvedPairs (.ofTable isSharedGlyph sharedGroup) isSharedGlyph sharedKerning
    let part (glyph : GlyphName) : KerningPair Rat :=
      ⟨.group "A" (.singleton glyph), .glyph "x", -10⟩
    (splitByScript sharedScripts pairs).findD .latin [] = [part "a", part "a", part "b"] ∧
      ∃ pair ∈ pairs, pair.OverlapsItself sharedScripts .latin := by
  intro pairs part
  have bucket : (splitByScript sharedScripts pairs).findD .latin [] =
      [part "a", part "a", part "b"] := by
    decide +kernel
  have alone_iff : (((splitByScript sharedScripts pairs).findD .latin []).map
      KerningPair.sides).Nodup ↔ ∀ pair ∈ pairs, ¬ pair.OverlapsItself sharedScripts .latin :=
    nodup_sides_splitByScript_iff (.ofTable isSharedGlyph sharedGroup) isSharedGlyph sharedKerning
      sharedScripts .latin
  have repeated : ¬ ([part "a", part "a", part "b"].map KerningPair.sides).Nodup := by simp
  rw [bucket] at alone_iff
  refine ⟨bucket, ?_⟩
  by_contra alone
  push Not at alone
  exact repeated (alone_iff.mpr alone)

/-- The pairs of a script can repeat their sides. -/
theorem not_forall_nodup_sides_splitByScript :
    ¬ ∀ (contains : GlyphName → Bool) (table : GroupTable) (kerning : KerningTable Rat)
      (scripts : ScriptsByGlyph) (script : Script),
      let pairs := resolvedPairs (.ofTable contains table) contains kerning
      (((splitByScript scripts pairs).findD script []).map KerningPair.sides).Nodup := by
  intro alone
  have repeated : ¬ (((splitByScript sharedScripts (resolvedPairs
      (.ofTable isSharedGlyph sharedGroup) isSharedGlyph sharedKerning)).findD .latin []).map
        KerningPair.sides).Nodup := by
    decide +kernel
  exact repeated (alone isSharedGlyph sharedGroup sharedKerning sharedScripts .latin)

end FontCompiler
