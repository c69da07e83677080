import FontCompiler.Proofs.Collection.Classes
import FontCompiler.Proofs.Kerning.Canonical

/-!
# Groups on first sides are cut without a loss

The fragments of a group are classes of its members, so they hold each of its members once.
Any two fragments on first sides are the same or have no glyph in common. What the pairs say of
each glyph is said after the cut by as many pairs as before.
-/

namespace FontCompiler

section Fragments

variable {sets : List (SortedSet GlyphName)} {members others : SortedSet GlyphName}

/-- The fragments of a set hold its members, each in one fragment. -/
theorem flatMap_fragments_perm (sets : List (SortedSet GlyphName))
    (members : SortedSet GlyphName) :
    ((fragments sets members).flatMap SortedSet.toList).Perm members.toList := by
  have classes := flatMap_classes_perm (signature sets) members.nodup
  simp only [beq_eq_decide] at classes
  rw [fragments, List.flatMap_map]
  exact classes

/-- A fragment of one of the sets that cut it holds the glyphs with the signature of any of
its glyphs. -/
theorem mem_fragment_iff (cuts : members ∈ sets) {fragment : SortedSet GlyphName}
    (listed : fragment ∈ fragments sets members) {glyph : GlyphName} (held : glyph ∈ fragment)
    (other : GlyphName) :
    other ∈ fragment ↔ signature sets other = signature sets glyph := by
  obtain ⟨shared, -, rfl⟩ := List.mem_map.mp listed
  rw [SortedSet.mem_filter, decide_eq_true_iff] at held ⊢
  rw [held.2]
  refine and_iff_right_of_imp fun same => ?_
  exact (signature_eq_iff.mp (same.trans held.2.symm) members cuts).mpr held.1

/-- Fragments of the sets that cut them are the same where they have a glyph in common. -/
theorem fragment_eq_of_mem (cuts : members ∈ sets) (otherCuts : others ∈ sets)
    {fragment other : SortedSet GlyphName} (listed : fragment ∈ fragments sets members)
    (otherListed : other ∈ fragments sets others) {glyph : GlyphName} (held : glyph ∈ fragment)
    (otherHeld : glyph ∈ other) : fragment = other :=
  SortedSet.ext fun third => by
    rw [mem_fragment_iff cuts listed held, mem_fragment_iff otherCuts otherListed otherHeld]

/-- A set that has no two different signatures stays whole. -/
theorem fragments_eq_singleton (inhabited : members.toList ≠ [])
    (alike : ∀ glyph ∈ members, ∀ other ∈ members, signature sets glyph = signature sets other) :
    fragments sets members = [members] := by
  obtain ⟨glyph, rest, listed⟩ := List.exists_cons_of_ne_nil inhabited
  have held : glyph ∈ members := by
    rw [SortedSet.mem_def, listed]
    exact List.mem_cons_self
  have noOther : (rest.map (signature sets)).filter (fun other => !other == signature sets glyph) =
      [] := by
    refine List.filter_eq_nil_iff.mpr fun other found => ?_
    obtain ⟨second, later, rfl⟩ := List.mem_map.mp found
    have secondHeld : second ∈ members := by
      rw [SortedSet.mem_def, listed]
      exact List.mem_cons_of_mem glyph later
    simp [alike second secondHeld glyph held]
  have whole : members.filter (fun other => decide (signature sets other = signature sets glyph)) =
      members :=
    SortedSet.ext fun other => by
      rw [SortedSet.mem_filter, decide_eq_true_iff]
      exact and_iff_left_of_imp fun found => alike other found glyph held
  rw [fragments, listed, List.map_cons, List.eraseDups_cons, noOther, List.eraseDups_nil,
    List.map_singleton, whole]

end Fragments

/-- The parts of a first side that none of the sets cuts. -/
def KernSide.cut (sets : List (SortedSet GlyphName)) : KernSide → List KernSide
  | .glyph name => [.glyph name]
  | .group name members => (fragments sets members).map (.group name)

section Sides

variable {sets : List (SortedSet GlyphName)} {side part : KernSide}

theorem label_of_mem_cut (listed : part ∈ side.cut sets) : part.label = side.label := by
  cases side with
  | glyph name => rw [List.mem_singleton.mp listed]
  | group name members =>
      obtain ⟨fragment, -, rfl⟩ := List.mem_map.mp listed
      rfl

/-- The parts of a side hold its glyphs, each in one part. -/
theorem flatMap_cut_perm (sets : List (SortedSet GlyphName)) (side : KernSide) :
    ((side.cut sets).flatMap KernSide.glyphs).Perm side.glyphs := by
  cases side with
  | glyph name => exact .refl _
  | group name members =>
      rw [KernSide.cut, List.flatMap_map]
      exact flatMap_fragments_perm sets members

/-- Cutting first sides makes a pair of every part. -/
theorem disjointFirsts_eq_flatMap {α : Type} (pairs : List (KerningPair α)) :
    disjointFirsts pairs = pairs.flatMap fun pair =>
      (pair.first.cut (firstGroups pairs)).map fun part => ⟨part, pair.second, pair.value⟩ := by
  refine List.flatMap_congr fun pair _ => ?_
  cases pair with
  | mk first second value =>
      cases first with
      | glyph name => rfl
      | group name members => simp [KernSide.cut]

end Sides

/-- What a pair says of each glyph of its first side. -/
def KerningPair.entries {α : Type} (pair : KerningPair α) :
    List (GlyphName × SideLabel × KernSide × α) :=
  pair.first.glyphs.map fun glyph => (glyph, pair.first.label, pair.second, pair.value)

/-- Whether any two groups on first sides have the same members or none in common. -/
def FirstsApart {α : Type} (pairs : List (KerningPair α)) : Prop :=
  ∀ pair ∈ pairs, ∀ other ∈ pairs, pair.first.isGroup = true → other.first.isGroup = true →
    pair.first.glyphs = other.first.glyphs ∨
      ∀ glyph ∈ pair.first.glyphs, glyph ∉ other.first.glyphs

section Pairs

variable {α : Type} {pairs : List (KerningPair α)}

/-- A pair with a group first comes from a fragment of a group. -/
theorem exists_fragment_of_mem_disjointFirsts {part : KerningPair α}
    (listed : part ∈ disjointFirsts pairs) (group : part.first.isGroup = true) :
    ∃ members ∈ firstGroups pairs, ∃ fragment ∈ fragments (firstGroups pairs) members,
      part.first.glyphs = fragment.toList := by
  rw [disjointFirsts_eq_flatMap] at listed
  obtain ⟨pair, member, cut⟩ := List.mem_flatMap.mp listed
  obtain ⟨side, sideListed, rfl⟩ := List.mem_map.mp cut
  cases shape : pair.first with
  | glyph name =>
      rw [shape] at sideListed
      rw [List.mem_singleton.mp sideListed] at group
      cases group
  | group name members =>
      rw [shape] at sideListed
      obtain ⟨fragment, fragmentListed, rfl⟩ := List.mem_map.mp sideListed
      have cuts : members ∈ firstGroups pairs := mem_firstGroups.mpr ⟨pair, member, name, shape⟩
      exact ⟨members, cuts, fragment, fragmentListed, rfl⟩

theorem firstsApart_disjointFirsts (pairs : List (KerningPair α)) :
    FirstsApart (disjointFirsts pairs) := by
  intro pair listed other otherListed group otherGroup
  obtain ⟨members, cuts, fragment, fragmentListed, holds⟩ :=
    exists_fragment_of_mem_disjointFirsts listed group
  obtain ⟨others, otherCuts, second, secondListed, otherHolds⟩ :=
    exists_fragment_of_mem_disjointFirsts otherListed otherGroup
  rw [holds, otherHolds]
  by_cases common : ∃ glyph ∈ fragment, glyph ∈ second
  · obtain ⟨glyph, held, otherHeld⟩ := common
    exact .inl (congrArg SortedSet.toList
      (fragment_eq_of_mem cuts otherCuts fragmentListed secondListed held otherHeld))
  · exact .inr fun glyph held otherHeld => common ⟨glyph, held, otherHeld⟩

/-- Cutting first sides moves no entry. -/
theorem entries_disjointFirsts_perm (pairs : List (KerningPair α)) :
    ((disjointFirsts pairs).flatMap KerningPair.entries).Perm
      (pairs.flatMap KerningPair.entries) := by
  rw [disjointFirsts_eq_flatMap, List.flatMap_assoc]
  refine List.Perm.flatMap_left pairs fun pair _ => ?_
  let entry (glyph : GlyphName) : GlyphName × SideLabel × KernSide × α :=
    (glyph, pair.first.label, pair.second, pair.value)
  have said : ∀ part ∈ pair.first.cut (firstGroups pairs),
      KerningPair.entries ⟨part, pair.second, pair.value⟩ = part.glyphs.map entry := by
    intro part listed
    rw [KerningPair.entries, label_of_mem_cut listed]
  rw [List.flatMap_map, List.flatMap_congr said, ← List.map_flatMap]
  exact (flatMap_cut_perm (firstGroups pairs) pair.first).map entry

/-- Pairs with a glyph first stay, in their order. -/
theorem filter_glyphFirst_disjointFirsts (pairs : List (KerningPair α)) :
    (disjointFirsts pairs).filter (fun pair => !pair.first.isGroup) =
      pairs.filter fun pair => !pair.first.isGroup := by
  rw [disjointFirsts_eq_flatMap, List.filter_flatMap]
  generalize firstGroups pairs = sets
  induction pairs with
  | nil => rfl
  | cons pair rest ih =>
      rw [List.flatMap_cons, ih]
      cases pair with
      | mk first second value =>
          cases first with
          | glyph name => rfl
          | group name members => simp [KernSide.cut, KernSide.isGroup]

/-- Pairs whose groups are apart and hold a glyph each stay as they are. -/
theorem disjointFirsts_eq_self (apart : FirstsApart pairs)
    (inhabited : ∀ pair ∈ pairs, pair.first.glyphs ≠ []) : disjointFirsts pairs = pairs := by
  have kept : ∀ pair ∈ pairs, ((pair.first.cut (firstGroups pairs)).map fun part =>
      (⟨part, pair.second, pair.value⟩ : KerningPair α)) = [pair] := by
    intro pair listed
    cases shape : pair.first with
    | glyph name => rw [KernSide.cut, List.map_singleton, ← shape]
    | group name members =>
        have holds : pair.first.glyphs = members.toList := by rw [shape]; rfl
        have group : pair.first.isGroup = true := by rw [shape]; rfl
        have alike : ∀ glyph ∈ members, ∀ second ∈ members,
            signature (firstGroups pairs) glyph = signature (firstGroups pairs) second := by
          intro glyph held second secondHeld
          refine signature_eq_iff.mpr fun set cuts => ?_
          obtain ⟨other, otherListed, otherName, otherShape⟩ := mem_firstGroups.mp cuts
          have otherHolds : other.first.glyphs = set.toList := by rw [otherShape]; rfl
          have otherGroup : other.first.isGroup = true := by rw [otherShape]; rfl
          rcases apart pair listed other otherListed group otherGroup with same | apart
          · rw [holds, otherHolds] at same
            rw [SortedSet.mem_def, SortedSet.mem_def, ← same]
            exact iff_of_true held secondHeld
          · rw [holds, otherHolds] at apart
            exact iff_of_false (apart glyph held) (apart second secondHeld)
        have whole := fragments_eq_singleton (holds ▸ inhabited pair listed) alike
        rw [KernSide.cut, whole, List.map_singleton, List.map_singleton, ← shape]
  rw [disjointFirsts_eq_flatMap]
  exact (List.flatMap_congr kept).trans (List.flatMap_singleton' pairs)

/-- Groups that were cut are not cut again. -/
theorem disjointFirsts_disjointFirsts (pairs : List (KerningPair α)) :
    disjointFirsts (disjointFirsts pairs) = disjointFirsts pairs := by
  refine disjointFirsts_eq_self (firstsApart_disjointFirsts pairs) fun part listed => ?_
  cases group : part.first.isGroup with
  | false =>
      cases shape : part.first with
      | glyph name => exact List.cons_ne_nil name []
      | group name members => simp [shape, KernSide.isGroup] at group
  | true =>
      obtain ⟨members, -, fragment, fragmentListed, holds⟩ :=
        exists_fragment_of_mem_disjointFirsts listed group
      rw [holds]
      exact (of_mem_fragments fragmentListed).1

/-- The pairs of a script are its parts with each sides once, cut into fragments. -/
theorem findD_splitByScript_perm [Coordinate α] (scripts : ScriptsByGlyph)
    (pairs : List (KerningPair α)) (script : Script) :
    ((splitByScript scripts pairs).findD script []).Perm
      (disjointFirsts (distinctSides (partsIn scripts pairs script))) := by
  rw [findD_splitByScript, scriptBucket]
  exact sortBy_perm _ _

end Pairs

/-- Cutting the groups on first sides leaves any two of them with the same members or none in
common, so that they are not cut again. It moves no entry, and pairs with a glyph first stay
as they are. In the bucket of a script the groups on first sides are cut too, and its entries
are those of the parts that go to the script. -/
theorem disjointFirsts_apart {α : Type} [Coordinate α] (pairs : List (KerningPair α)) :
    FirstsApart (disjointFirsts pairs) ∧
    disjointFirsts (disjointFirsts pairs) = disjointFirsts pairs ∧
    ((disjointFirsts pairs).flatMap KerningPair.entries).Perm
      (pairs.flatMap KerningPair.entries) ∧
    ((disjointFirsts pairs).filter (fun pair => !pair.first.isGroup) =
      pairs.filter fun pair => !pair.first.isGroup) ∧
    ∀ (scripts : ScriptsByGlyph) (script : Script),
      FirstsApart ((splitByScript scripts pairs).findD script []) ∧
      (((splitByScript scripts pairs).findD script []).flatMap KerningPair.entries).Perm
        ((distinctSides (partsIn scripts pairs script)).flatMap KerningPair.entries) := by
  refine ⟨firstsApart_disjointFirsts pairs, disjointFirsts_disjointFirsts pairs,
    entries_disjointFirsts_perm pairs, filter_glyphFirst_disjointFirsts pairs,
    fun scripts script => ?_⟩
  have bucket := findD_splitByScript_perm scripts pairs script
  constructor
  · intro pair listed other otherListed
    exact firstsApart_disjointFirsts _ pair (bucket.mem_iff.mp listed) other
      (bucket.mem_iff.mp otherListed)
  · exact (bucket.flatMap_right _).trans (entries_disjointFirsts_perm _)

end FontCompiler
