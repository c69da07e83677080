import FontCompiler.Kerning.Split
import FontCompiler.Proofs.Kerning.Groups
import FontCompiler.Proofs.Kerning.Order

/-!
# Splitting by script is exact

The pairs of a script cover two glyphs exactly when some pair of the font does
and the glyphs meet in the script. Cutting sides by script decides this; that
repeated sides are dropped and groups cut into fragments changes nothing.
-/

namespace FontCompiler

/-- Two scripts meet in a script when they are the same, or when one of them is
at home in every script and takes the other one. -/
inductive Script.Meet : Script → Script → Script → Prop where
  | same (script : Script) : Meet script script script
  | takesFirst {first second : Script} (default : second.isDefault = true) :
      Meet first second first
  | takesSecond {first second : Script} (default : first.isDefault = true)
      (other : second.isDefault = false) : Meet first second second

theorem sharedScript?_eq_some_iff {first second script : Script} :
    sharedScript? first second = some script ↔ Script.Meet first second script := by
  unfold sharedScript?
  constructor
  · intro shared
    split at shared
    · next stays =>
        cases shared
        rcases stays with rfl | default
        · exact .same first
        · exact .takesFirst default
    · next moves =>
        obtain ⟨default, same⟩ := Option.ite_none_right_eq_some.mp shared
        cases same
        exact .takesSecond default (Bool.eq_false_iff.mpr fun other => moves (.inr other))
  · intro meet
    cases meet with
    | same => exact if_pos (.inl rfl)
    | takesFirst default => exact if_pos (.inr default)
    | takesSecond default other =>
        by_cases same : first = second
        · rw [if_pos (.inl same), same]
        · have moves : ¬ (first = second ∨ second.isDefault = true) := by simp [same, other]
          rw [if_neg moves, if_pos default]

/-- Each of two scripts that meet is the script of their meeting or a default one. -/
theorem Script.Meet.at_home {first second script : Script}
    (meet : Script.Meet first second script) :
    (first = script ∨ first.isDefault = true) ∧ (second = script ∨ second.isDefault = true) := by
  cases meet with
  | same => exact ⟨.inl rfl, .inl rfl⟩
  | takesFirst default => exact ⟨.inl rfl, .inr default⟩
  | takesSecond default other => exact ⟨.inr default, .inl rfl⟩

/-- Two glyphs meet in a script when scripts of theirs do. -/
def ScriptsByGlyph.Meet (scripts : ScriptsByGlyph) (first second : GlyphName) (script : Script) :
    Prop :=
  ∃ firstScript ∈ scripts.of first, ∃ secondScript ∈ scripts.of second,
    Script.Meet firstScript secondScript script

/-! ## Sides by script -/

namespace KernSide

/-- The part of a side in a script. -/
structure ScriptPartOf (scripts : ScriptsByGlyph) (script : Script) (part side : KernSide) :
    Prop where
  label_eq : part.label = side.label
  mem_iff : ∀ glyph, glyph ∈ part.glyphs ↔ glyph ∈ side.glyphs ∧ script ∈ scripts.of glyph
  inhabited : part.glyphs ≠ []

variable {scripts : ScriptsByGlyph} {script : Script} {part side : KernSide}

theorem ScriptPartOf.partOf (cut : ScriptPartOf scripts script part side) : part.PartOf side :=
  ⟨cut.label_eq, fun glyph listed => ((cut.mem_iff glyph).mp listed).1⟩

/-- Each entry of the parts by script is the part in its script. -/
theorem scriptPartOf_of_mem_byScript (listed : (script, part) ∈ (side.byScript scripts).entries) :
    ScriptPartOf scripts script part side := by
  cases side with
  | glyph name =>
      obtain ⟨held, rfl⟩ := SortedMap.mem_entries_tabulate.mp listed
      refine ⟨rfl, fun glyph => ⟨fun found => ?_, And.left⟩, List.cons_ne_nil _ _⟩
      rw [List.mem_singleton.mp found]
      exact ⟨List.mem_singleton_self name, held⟩
  | group name members =>
      obtain ⟨held, rfl⟩ := SortedMap.mem_entries_tabulate.mp listed
      have mem_iff : ∀ glyph,
          glyph ∈ members.filter (fun glyph => decide (script ∈ scripts.of glyph)) ↔
            glyph ∈ members ∧ script ∈ scripts.of glyph := fun glyph => by
        rw [SortedSet.mem_filter, decide_eq_true_iff]
      refine ⟨rfl, mem_iff, ?_⟩
      obtain ⟨glyph, member, uses⟩ := List.mem_flatMap.mp (SortedSet.mem_ofList.mp held)
      exact List.ne_nil_of_mem ((mem_iff glyph).mpr ⟨member, uses⟩)

/-- A side has a part in every script of its glyphs. -/
theorem exists_mem_byScript {glyph : GlyphName} (listed : glyph ∈ side.glyphs)
    (uses : script ∈ scripts.of glyph) :
    ∃ part, (script, part) ∈ (side.byScript scripts).entries := by
  cases side with
  | glyph name =>
      rw [List.mem_singleton.mp listed] at uses
      exact ⟨_, SortedMap.mem_entries_tabulate.mpr ⟨uses, rfl⟩⟩
  | group name members =>
      have held : script ∈ SortedSet.ofList
          (members.toList.flatMap fun glyph => (scripts.of glyph).toList) :=
        SortedSet.mem_ofList.mpr (List.mem_flatMap.mpr ⟨glyph, listed, uses⟩)
      exact ⟨_, SortedMap.mem_entries_tabulate.mpr ⟨held, rfl⟩⟩

end KernSide

section Parts

variable {α : Type} {scripts : ScriptsByGlyph} {script : Script} {pairs : List (KerningPair α)}

def partsIn (scripts : ScriptsByGlyph) (pairs : List (KerningPair α)) (script : Script) :
    List (KerningPair α) :=
  ((scriptParts scripts pairs).filter fun part => decide (part.script? = some script)).map
    ScriptPart.pair

theorem mem_partsIn {part : KerningPair α} :
    part ∈ partsIn scripts pairs script ↔
      ∃ pair ∈ pairs, ∃ firstScript secondScript,
        (firstScript, part.first) ∈ (pair.first.byScript scripts).entries ∧
        (secondScript, part.second) ∈ (pair.second.byScript scripts).entries ∧
        Script.Meet firstScript secondScript script ∧ part.value = pair.value := by
  unfold partsIn scriptParts
  rw [List.mem_map]
  constructor
  · rintro ⟨whole, kept, rfl⟩
    obtain ⟨listed, shared⟩ := List.mem_filter.mp kept
    obtain ⟨pair, member, cut⟩ := List.mem_flatMap.mp listed
    obtain ⟨first, firstListed, rest⟩ := List.mem_flatMap.mp cut
    obtain ⟨second, secondListed, rfl⟩ := List.mem_map.mp rest
    exact ⟨pair, member, first.1, second.1, firstListed, secondListed,
      sharedScript?_eq_some_iff.mp (of_decide_eq_true shared), rfl⟩
  · rintro ⟨pair, member, firstScript, secondScript, firstListed, secondListed, meet, same⟩
    refine ⟨⟨firstScript, secondScript, part⟩, List.mem_filter.mpr ⟨?_, ?_⟩, rfl⟩
    · refine List.mem_flatMap.mpr ⟨pair, member, List.mem_flatMap.mpr ⟨_, firstListed, ?_⟩⟩
      exact List.mem_map.mpr ⟨_, secondListed, by rw [← same]⟩
    · exact decide_eq_true (sharedScript?_eq_some_iff.mpr meet)

theorem partOf_of_mem_partsIn {part : KerningPair α}
    (listed : part ∈ partsIn scripts pairs script) : ∃ pair ∈ pairs, part.PartOf pair := by
  obtain ⟨pair, member, _, _, firstListed, secondListed, -, same⟩ := mem_partsIn.mp listed
  exact ⟨pair, member, (KernSide.scriptPartOf_of_mem_byScript firstListed).partOf,
    (KernSide.scriptPartOf_of_mem_byScript secondListed).partOf, same⟩

/-- The parts in a script cover what the pairs cover and meets in the script. -/
theorem kerns_partsIn {first second : GlyphName} {label : SideLabel × SideLabel} {value : α} :
    Kerns (partsIn scripts pairs script) first second label value ↔
      Kerns pairs first second label value ∧ scripts.Meet first second script := by
  constructor
  · intro kerned
    refine ⟨Kerns.of_parts (fun part listed => partOf_of_mem_partsIn listed) kerned, ?_⟩
    obtain ⟨part, listed, covered, -, -⟩ := kerned
    obtain ⟨pair, -, firstScript, secondScript, firstListed, secondListed, meet, -⟩ :=
      mem_partsIn.mp listed
    have firstCut := KernSide.scriptPartOf_of_mem_byScript firstListed
    have secondCut := KernSide.scriptPartOf_of_mem_byScript secondListed
    exact ⟨firstScript, ((firstCut.mem_iff first).mp covered.1).2,
      secondScript, ((secondCut.mem_iff second).mp covered.2).2, meet⟩
  · rintro ⟨kerned, firstScript, firstUses, secondScript, secondUses, meet⟩
    refine kerned.to_parts fun pair member covered => ?_
    obtain ⟨firstPart, firstListed⟩ := KernSide.exists_mem_byScript covered.1 firstUses
    obtain ⟨secondPart, secondListed⟩ := KernSide.exists_mem_byScript covered.2 secondUses
    have firstCut := KernSide.scriptPartOf_of_mem_byScript firstListed
    have secondCut := KernSide.scriptPartOf_of_mem_byScript secondListed
    refine ⟨⟨firstPart, secondPart, pair.value⟩, ?_, ⟨firstCut.partOf, secondCut.partOf, rfl⟩, ?_⟩
    · exact mem_partsIn.mpr ⟨pair, member, firstScript, secondScript, firstListed, secondListed,
        meet, rfl⟩
    · exact ⟨(firstCut.mem_iff first).mpr ⟨covered.1, firstUses⟩,
        (secondCut.mem_iff second).mpr ⟨covered.2, secondUses⟩⟩

/-! ## Repeated sides -/

theorem mem_of_mem_distinctSides {pair : KerningPair α} (listed : pair ∈ distinctSides pairs) :
    pair ∈ pairs := by
  induction pairs with
  | nil => exact listed
  | cons first rest ih =>
      rcases List.mem_cons.mp listed with rfl | later
      · exact List.mem_cons_self
      · exact List.mem_cons_of_mem _ (ih (List.mem_filter.mp later).1)

/-- A dropped pair has the sides of a pair that stays. -/
theorem exists_mem_distinctSides {pair : KerningPair α} (listed : pair ∈ pairs) :
    ∃ kept ∈ distinctSides pairs, kept.first = pair.first ∧ kept.second = pair.second := by
  induction pairs with
  | nil => cases listed
  | cons first rest ih =>
      rcases List.mem_cons.mp listed with rfl | later
      · exact ⟨pair, List.mem_cons_self, rfl, rfl⟩
      · obtain ⟨kept, keptListed, firsts, seconds⟩ := ih later
        cases same : first.sameSides kept with
        | false =>
            refine ⟨kept, List.mem_cons_of_mem _ (List.mem_filter.mpr ⟨keptListed, ?_⟩), firsts,
              seconds⟩
            rw [same]
            rfl
        | true =>
            obtain ⟨sameFirst, sameSecond⟩ := (Bool.and_eq_true _ _).mp same
            exact ⟨first, List.mem_cons_self, (of_decide_eq_true sameFirst).trans firsts,
              (of_decide_eq_true sameSecond).trans seconds⟩

/-- Where labels agree on values, dropping repeated sides loses no value. -/
theorem kerns_distinctSides (agree : LabelsAgree pairs) {first second : GlyphName}
    {label : SideLabel × SideLabel} {value : α} :
    Kerns (distinctSides pairs) first second label value ↔
      Kerns pairs first second label value := by
  constructor
  · rintro ⟨pair, listed, rest⟩
    exact ⟨pair, mem_of_mem_distinctSides listed, rest⟩
  · intro kerned
    refine kerned.to_parts fun pair listed covered => ?_
    obtain ⟨kept, keptListed, firsts, seconds⟩ := exists_mem_distinctSides listed
    have labels : kept.label = pair.label := by rw [KerningPair.label, firsts, seconds]; rfl
    have values := agree kept (mem_of_mem_distinctSides keptListed) pair listed labels
    refine ⟨kept, keptListed, ⟨?_, ?_, values⟩, ?_⟩
    · exact firsts ▸ .refl _
    · exact seconds ▸ .refl _
    · rwa [KerningPair.Covers, firsts, seconds]

/-! ## Fragments of groups -/

theorem of_mem_fragments {sets : List (SortedSet GlyphName)}
    {members fragment : SortedSet GlyphName} (listed : fragment ∈ fragments sets members) :
    fragment.toList ≠ [] ∧ ∀ glyph ∈ fragment, glyph ∈ members := by
  obtain ⟨shared, sharedListed, rfl⟩ := List.mem_map.mp listed
  obtain ⟨glyph, held, same⟩ := List.mem_map.mp (List.mem_eraseDups.mp sharedListed)
  refine ⟨List.ne_nil_of_mem (SortedSet.mem_filter.mpr ⟨held, decide_eq_true same⟩), ?_⟩
  exact fun other found => (SortedSet.mem_filter.mp found).1

/-- Every member of a group is in a fragment of it. -/
theorem exists_mem_fragments (sets : List (SortedSet GlyphName)) {members : SortedSet GlyphName}
    {glyph : GlyphName} (held : glyph ∈ members) :
    ∃ fragment ∈ fragments sets members, glyph ∈ fragment := by
  refine ⟨_, List.mem_map.mpr ⟨signature sets glyph, ?_, rfl⟩, ?_⟩
  · exact List.mem_eraseDups.mpr (List.mem_map.mpr ⟨glyph, held, rfl⟩)
  · exact SortedSet.mem_filter.mpr ⟨held, decide_eq_true rfl⟩

theorem partOf_of_mem_disjointFirsts {part : KerningPair α} (listed : part ∈ disjointFirsts pairs) :
    ∃ pair ∈ pairs, part.PartOf pair ∧ part.second = pair.second ∧
      (pair.first.glyphs ≠ [] → part.first.glyphs ≠ []) := by
  obtain ⟨pair, member, cut⟩ := List.mem_flatMap.mp listed
  refine ⟨pair, member, ?_⟩
  cases shape : pair.first with
  | glyph name =>
      rw [shape] at cut
      rw [List.mem_singleton.mp cut, shape]
      exact ⟨⟨shape ▸ .refl _, .refl _, rfl⟩, rfl, id⟩
  | group name members =>
      rw [shape] at cut
      obtain ⟨fragment, fragmentListed, rfl⟩ := List.mem_map.mp cut
      obtain ⟨inhabited, subset⟩ := of_mem_fragments fragmentListed
      exact ⟨⟨⟨by rw [shape]; rfl, by rw [shape]; exact subset⟩, .refl _, rfl⟩, rfl,
        fun _ => inhabited⟩

/-- Cutting first sides into fragments changes nothing that the pairs cover. -/
theorem kerns_disjointFirsts {first second : GlyphName} {label : SideLabel × SideLabel}
    {value : α} :
    Kerns (disjointFirsts pairs) first second label value ↔
      Kerns pairs first second label value := by
  constructor
  · exact Kerns.of_parts fun part listed =>
      let ⟨pair, member, cut, _⟩ := partOf_of_mem_disjointFirsts listed
      ⟨pair, member, cut⟩
  · intro kerned
    refine kerned.to_parts fun pair member covered => ?_
    cases shape : pair.first with
    | glyph name =>
        refine ⟨pair, List.mem_flatMap.mpr ⟨pair, member, ?_⟩, ⟨.refl _, .refl _, rfl⟩, covered⟩
        rw [shape]
        exact List.mem_singleton_self pair
    | group name members =>
        have held : first ∈ members := by
          have listed := covered.1
          rwa [shape] at listed
        obtain ⟨fragment, listed, found⟩ := exists_mem_fragments (firstGroups pairs) held
        refine ⟨{ pair with first := .group name fragment },
          List.mem_flatMap.mpr ⟨pair, member, ?_⟩, ⟨⟨?_, ?_⟩, .refl _, rfl⟩, found, covered.2⟩
        · rw [shape]
          exact List.mem_map.mpr ⟨fragment, listed, rfl⟩
        · rw [shape]
          rfl
        · rw [shape]
          exact (of_mem_fragments listed).2

end Parts

/-! ## Buckets -/

section Buckets

variable {α : Type} [Coordinate α] {scripts : ScriptsByGlyph} {script : Script}
  {pairs : List (KerningPair α)}

/-- The pairs of a script cover what the pairs of the font cover and meets in the script. -/
theorem kerns_scriptBucket (agree : LabelsAgree pairs) {first second : GlyphName}
    {label : SideLabel × SideLabel} {value : α} :
    Kerns (scriptBucket (scriptParts scripts pairs) script) first second label value ↔
      Kerns pairs first second label value ∧ scripts.Meet first second script := by
  have sorted : Kerns (scriptBucket (scriptParts scripts pairs) script) first second label value ↔
      Kerns (disjointFirsts (distinctSides (partsIn scripts pairs script))) first second label
        value := by
    simp only [Kerns, scriptBucket, KerningPair.mem_sort, partsIn]
  have partsAgree : LabelsAgree (partsIn scripts pairs script) :=
    agree.of_parts fun part listed => partOf_of_mem_partsIn listed
  rw [sorted, kerns_disjointFirsts, kerns_distinctSides partsAgree, kerns_partsIn]

/-- A pair of a bucket is cut on its first side out of a part that goes to the script. -/
theorem of_mem_scriptBucket {pair : KerningPair α}
    (listed : pair ∈ scriptBucket (scriptParts scripts pairs) script) :
    ∃ part ∈ partsIn scripts pairs script, pair.PartOf part ∧ pair.second = part.second ∧
      (part.first.glyphs ≠ [] → pair.first.glyphs ≠ []) := by
  rw [scriptBucket, KerningPair.mem_sort] at listed
  obtain ⟨part, member, cut⟩ := partOf_of_mem_disjointFirsts listed
  exact ⟨part, mem_of_mem_distinctSides member, cut⟩

/-- On each side of a pair of a bucket all glyphs share a script that is at home there. -/
theorem shared_of_mem_scriptBucket {pair : KerningPair α}
    (listed : pair ∈ scriptBucket (scriptParts scripts pairs) script) :
    ∃ firstScript secondScript,
      (firstScript = script ∨ firstScript.isDefault = true) ∧
      (∀ glyph ∈ pair.first.glyphs, firstScript ∈ scripts.of glyph) ∧
      (secondScript = script ∨ secondScript.isDefault = true) ∧
      (∀ glyph ∈ pair.second.glyphs, secondScript ∈ scripts.of glyph) ∧
      pair.first.glyphs ≠ [] ∧ pair.second.glyphs ≠ [] := by
  obtain ⟨part, member, cut, sameSecond, inhabited⟩ := of_mem_scriptBucket listed
  obtain ⟨whole, -, firstScript, secondScript, firstListed, secondListed, meet, -⟩ :=
    mem_partsIn.mp member
  have firstCut := KernSide.scriptPartOf_of_mem_byScript firstListed
  have secondCut := KernSide.scriptPartOf_of_mem_byScript secondListed
  refine ⟨firstScript, secondScript, meet.at_home.1, fun glyph found => ?_, meet.at_home.2,
    fun glyph found => ?_, inhabited firstCut.inhabited, ?_⟩
  · exact ((firstCut.mem_iff glyph).mp (cut.first.subset glyph found)).2
  · exact ((secondCut.mem_iff glyph).mp (cut.second.subset glyph found)).2
  · rw [sameSecond]
    exact secondCut.inhabited

/-- A script to which some part goes has a pair. -/
theorem scriptBucket_ne_nil (agree : LabelsAgree pairs)
    (goes : script ∈ (scriptParts scripts pairs).filterMap ScriptPart.script?) :
    scriptBucket (scriptParts scripts pairs) script ≠ [] := by
  obtain ⟨part, listed, shared⟩ := List.mem_filterMap.mp goes
  have member : part.pair ∈ partsIn scripts pairs script :=
    List.mem_map.mpr ⟨part, List.mem_filter.mpr ⟨listed, decide_eq_true shared⟩, rfl⟩
  obtain ⟨_, _, _, _, firstListed, secondListed, -, -⟩ := mem_partsIn.mp member
  obtain ⟨first, firstFound⟩ :=
    List.exists_mem_of_ne_nil _ (KernSide.scriptPartOf_of_mem_byScript firstListed).inhabited
  obtain ⟨second, secondFound⟩ :=
    List.exists_mem_of_ne_nil _ (KernSide.scriptPartOf_of_mem_byScript secondListed).inhabited
  have kerned : Kerns (partsIn scripts pairs script) first second part.pair.label part.pair.value :=
    ⟨part.pair, member, ⟨firstFound, secondFound⟩, rfl, rfl⟩
  obtain ⟨pair, found, -⟩ := (kerns_scriptBucket agree).mpr (kerns_partsIn.mp kerned)
  exact List.ne_nil_of_mem found

theorem find?_splitByScript : (splitByScript scripts pairs).find? script =
    if script ∈ (scriptParts scripts pairs).filterMap ScriptPart.script? then
      some (scriptBucket (scriptParts scripts pairs) script)
    else none := by
  rw [splitByScript, SortedMap.find?_tabulate]
  simp only [SortedSet.mem_ofList]

/-- A script without a bucket has no pairs. -/
theorem findD_splitByScript : (splitByScript scripts pairs).findD script [] =
    scriptBucket (scriptParts scripts pairs) script := by
  rw [SortedMap.findD, find?_splitByScript]
  split
  · rfl
  · next missing =>
      refine (List.eq_nil_iff_forall_not_mem.mpr fun pair listed => missing ?_).symm
      obtain ⟨part, member, -⟩ := of_mem_scriptBucket listed
      obtain ⟨whole, kept, -⟩ := List.mem_map.mp member
      obtain ⟨wholeListed, shared⟩ := List.mem_filter.mp kept
      exact List.mem_filterMap.mpr ⟨whole, wholeListed, of_decide_eq_true shared⟩

/-- The bucket of a script covers two glyphs with a value exactly when a pair of
the font does and the glyphs meet in the script. On each side of its pairs all
glyphs share a script at home there, and neither it nor a side is empty. -/
theorem splitByScript_exact (groups : KerningGroups) (contains : GlyphName → Bool)
    (kerning : KerningTable α) (scripts : ScriptsByGlyph) (script : Script) :
    let pairs := resolvedPairs groups contains kerning
    let split := splitByScript scripts pairs
    (∀ first second value,
      (∃ pair ∈ split.findD script [], pair.Covers first second ∧ pair.value = value) ↔
        (∃ pair ∈ pairs, pair.Covers first second ∧ pair.value = value) ∧
          scripts.Meet first second script) ∧
    (∀ pair ∈ split.findD script [],
      (∃ shared, (shared = script ∨ shared.isDefault = true) ∧
        ∀ glyph ∈ pair.first.glyphs, shared ∈ scripts.of glyph) ∧
      (∃ shared, (shared = script ∨ shared.isDefault = true) ∧
        ∀ glyph ∈ pair.second.glyphs, shared ∈ scripts.of glyph) ∧
      pair.first.glyphs ≠ [] ∧ pair.second.glyphs ≠ []) ∧
    split.find? script ≠ some [] := by
  intro pairs split
  have agree : LabelsAgree pairs := labelsAgree_resolvedPairs kerning
  have bucket : split.findD script [] = scriptBucket (scriptParts scripts pairs) script :=
    findD_splitByScript
  rw [bucket]
  refine ⟨fun first second value => ?_, fun pair listed => ?_, fun empty => ?_⟩
  · constructor
    · rintro ⟨pair, listed, covered, same⟩
      obtain ⟨⟨whole, member, wholeCovered, -, wholeSame⟩, meet⟩ :=
        (kerns_scriptBucket agree).mp ⟨pair, listed, covered, rfl, same⟩
      exact ⟨⟨whole, member, wholeCovered, wholeSame⟩, meet⟩
    · rintro ⟨⟨whole, member, wholeCovered, wholeSame⟩, meet⟩
      obtain ⟨pair, listed, covered, -, same⟩ :=
        (kerns_scriptBucket agree).mpr ⟨⟨whole, member, wholeCovered, rfl, wholeSame⟩, meet⟩
      exact ⟨pair, listed, covered, same⟩
  · obtain ⟨firstScript, secondScript, firstHome, firstShared, secondHome, secondShared,
      inhabited⟩ := shared_of_mem_scriptBucket listed
    exact ⟨⟨firstScript, firstHome, firstShared⟩, ⟨secondScript, secondHome, secondShared⟩,
      inhabited⟩
  · have found : split.find? script = _ := find?_splitByScript
    rw [empty] at found
    obtain ⟨goes, same⟩ := Option.ite_none_right_eq_some.mp found.symm
    exact scriptBucket_ne_nil agree goes (Option.some.inj same)

end Buckets

end FontCompiler
