import Mathlib.Data.List.Basic
import FontCompiler.Kerning.Groups
import FontCompiler.Proofs.Kerning.Coverage

/-!
# Cleaned groups and resolved pairs

On each side of the kerning the cleaned groups are disjoint, so a glyph is
named there in at most two ways: by itself and by its one group. A side of a
resolved pair has a name of the kerning table as its label, and the label gives
that name back.
-/

namespace FontCompiler

namespace KernPosition

theorem unmarked?_eq_some_iff {position : KernPosition} {name short : String} :
    position.unmarked? name = some short ↔
      position.marker.toList ++ short.toList = name.toList := by
  unfold unmarked?
  rw [Option.map_eq_some_iff]
  constructor
  · rintro ⟨letters, found, rfl⟩
    rw [String.toList_ofList]
    exact List.append_eq_of_isPrefixOf?_eq_some found
  · intro joined
    exact ⟨short.toList, List.isPrefixOf?_eq_some_iff_append_eq.mpr joined, String.ofList_toList⟩

/-- The label of a side that has a name in the kerning table. -/
def labelOf (position : KernPosition) (name : String) : SideLabel :=
  match position.unmarked? name with
  | some short => (true, short)
  | none => (false, name)

theorem labelOf_injective {position : KernPosition} {name other : String}
    (same : position.labelOf name = position.labelOf other) : name = other := by
  unfold labelOf at same
  cases marked : position.unmarked? name with
  | none =>
      cases otherMarked : position.unmarked? other with
      | none =>
          rw [marked, otherMarked] at same
          exact congrArg Prod.snd same
      | some otherShort =>
          rw [marked, otherMarked] at same
          cases congrArg Prod.fst same
  | some short =>
      cases otherMarked : position.unmarked? other with
      | none =>
          rw [marked, otherMarked] at same
          cases congrArg Prod.fst same
      | some otherShort =>
          rw [marked, otherMarked] at same
          have shorts : short = otherShort := congrArg Prod.snd same
          rw [unmarked?_eq_some_iff] at marked otherMarked
          apply String.toList_inj.mp
          rw [← marked, ← otherMarked, shorts]

end KernPosition

namespace KerningGroups

/-- How cleaning leaves the groups of a side. -/
structure CleanSide (position : KernPosition) (contains : GlyphName → Bool)
    (rows : List (String × SortedSet GlyphName)) : Prop where
  marked : ∀ row ∈ rows, (position.unmarked? row.1).isSome = true
  distinct : (rows.map Prod.fst).Nodup
  disjoint : rows.Pairwise fun row other => ∀ glyph ∈ row.2, glyph ∉ other.2
  present : ∀ row ∈ rows, ∀ glyph ∈ row.2, contains glyph = true
  inhabited : ∀ row ∈ rows, row.2.toList ≠ []

section Cleaning

variable {position : KernPosition} {contains : GlyphName → Bool}

/-- A cleaned group is a marked group of the table with members that are in the font. -/
theorem of_mem_clean {claimed : List GlyphName} {entries : List (String × List GlyphName)}
    {row : String × SortedSet GlyphName} (member : row ∈ clean position contains claimed entries) :
    (position.unmarked? row.1).isSome = true ∧ row.2.toList ≠ [] ∧
      ∀ glyph ∈ row.2, contains glyph = true ∧ glyph ∉ claimed := by
  induction claimed, entries using clean.induct position contains with
  | case1 claimed => cases member
  | case2 claimed name listed rest marked members empty ih =>
      rw [clean, if_pos marked] at member
      exact ih (by rwa [if_pos empty] at member)
  | case3 claimed name listed rest marked members inhabited ih =>
      rw [clean, if_pos marked] at member
      rw [if_neg inhabited] at member
      rcases List.mem_cons.mp member with rfl | later
      · refine ⟨marked, fun none => inhabited (List.isEmpty_iff.mpr none), fun glyph held => ?_⟩
        have kept := (List.mem_filter.mp (SortedSet.mem_ofList.mp held)).2
        simpa using kept
      · obtain ⟨isMarked, isInhabited, isPresent⟩ := ih later
        refine ⟨isMarked, isInhabited, fun glyph held => ⟨(isPresent glyph held).1, ?_⟩⟩
        exact fun old => (isPresent glyph held).2 (List.mem_append_left _ old)
  | case4 claimed name listed rest unmarked ih =>
      rw [clean, if_neg unmarked] at member
      exact ih member

theorem names_clean_sublist (claimed : List GlyphName) (entries : List (String × List GlyphName)) :
    ((clean position contains claimed entries).map Prod.fst).Sublist (entries.map Prod.fst) := by
  induction claimed, entries using clean.induct position contains with
  | case1 claimed => exact .slnil
  | case2 claimed name listed rest marked members empty ih =>
      rw [clean, if_pos marked]
      rw [if_pos empty]
      exact .cons _ ih
  | case3 claimed name listed rest marked members inhabited ih =>
      rw [clean, if_pos marked]
      rw [if_neg inhabited]
      exact .cons_cons _ ih
  | case4 claimed name listed rest unmarked ih =>
      rw [clean, if_neg unmarked]
      exact .cons _ ih

/-- What a group claims no later group gets. -/
theorem clean_disjoint (claimed : List GlyphName) (entries : List (String × List GlyphName)) :
    (clean position contains claimed entries).Pairwise
      fun row other => ∀ glyph ∈ row.2, glyph ∉ other.2 := by
  induction claimed, entries using clean.induct position contains with
  | case1 claimed => exact .nil
  | case2 claimed name listed rest marked members empty ih =>
      rw [clean, if_pos marked]
      rwa [if_pos empty]
  | case3 claimed name listed rest marked members inhabited ih =>
      rw [clean, if_pos marked]
      rw [if_neg inhabited]
      refine List.pairwise_cons.mpr ⟨fun other later glyph held again => ?_, ih⟩
      exact ((of_mem_clean later).2.2 glyph again).2 (List.mem_append_right _ held)
  | case4 claimed name listed rest unmarked ih =>
      rw [clean, if_neg unmarked]
      exact ih

end Cleaning

/-- The first set of several disjoint ones that holds a glyph is the only one. -/
theorem find?_holder_of_disjoint {rows : List (String × SortedSet GlyphName)}
    (disjoint : rows.Pairwise fun row other => ∀ glyph ∈ row.2, glyph ∉ other.2)
    {row : String × SortedSet GlyphName} (listed : row ∈ rows) {glyph : GlyphName}
    (held : glyph ∈ row.2) : rows.find? (fun other => decide (glyph ∈ other.2)) = some row := by
  induction rows with
  | nil => cases listed
  | cons first rest ih =>
      obtain ⟨apart, tail⟩ := List.pairwise_cons.mp disjoint
      rcases List.mem_cons.mp listed with rfl | later
      · exact List.find?_cons_of_pos (decide_eq_true held)
      · have missing : glyph ∉ first.2 := fun early => apart row later glyph early held
        exact (List.find?_cons_of_neg (by simpa using missing)).trans (ih tail later)

theorem find?_named_of_nodup {rows : List (String × SortedSet GlyphName)}
    (distinct : (rows.map Prod.fst).Nodup) {row : String × SortedSet GlyphName}
    (listed : row ∈ rows) : rows.find? (fun other => decide (other.1 = row.1)) = some row :=
  KeyedList.find?_eq_some_iff.mpr (⟨listed, rfl⟩ :
    row ∈ (⟨rows, distinct⟩ : OrderedMap String (SortedSet GlyphName)).entries ∧ row.1 = row.1)

theorem cleanSide_ofTable (contains : GlyphName → Bool) (groups : GroupTable)
    (position : KernPosition) :
    CleanSide position contains ((ofTable contains groups).side position) := by
  have cleaned : CleanSide position contains (clean position contains [] groups.entries) :=
    { marked := fun row member => (of_mem_clean member).1
      distinct := groups.distinct.sublist (names_clean_sublist [] groups.entries)
      disjoint := clean_disjoint [] groups.entries
      present := fun row member glyph held => ((of_mem_clean member).2.2 glyph held).1
      inhabited := fun row member => (of_mem_clean member).2.1 }
  cases position with
  | first => exact cleaned
  | second => exact cleaned

/-! ## What stands for a glyph -/

def groupOf? (groups : KerningGroups) (position : KernPosition) (glyph : GlyphName) :
    Option String :=
  ((groups.side position).find? fun row => decide (glyph ∈ row.2)).map Prod.fst

/-- The name under which the kerning lists a glyph on a side, as a member of its
group or by itself. A glyph whose name reads as that of a group is never listed
by itself. -/
def nameOf? (groups : KerningGroups) (position : KernPosition) (grouped : Bool)
    (glyph : GlyphName) : Option String :=
  if grouped then groups.groupOf? position glyph
  else if (position.unmarked? glyph).isNone then some glyph
  else none

section Sides

variable {groups : KerningGroups} {contains : GlyphName → Bool} {position : KernPosition}
  {name : String} {side : KernSide}

/-- A name stands for a glyph of the font or for a group of the side. -/
theorem sideOf?_cases (found : groups.sideOf? contains position name = some side) :
    (position.unmarked? name = none ∧ contains name = true ∧ side = .glyph name) ∨
      ∃ short row, position.unmarked? name = some short ∧ row ∈ groups.side position ∧
        row.1 = name ∧ side = .group short row.2 := by
  unfold sideOf? at found
  cases marked : position.unmarked? name with
  | none =>
      rw [marked] at found
      obtain ⟨present, same⟩ := Option.ite_none_right_eq_some.mp found
      exact .inl ⟨rfl, present, (Option.some.inj same).symm⟩
  | some short =>
      rw [marked] at found
      obtain ⟨row, rowFound, same⟩ := Option.map_eq_some_iff.mp found
      exact .inr ⟨short, row, rfl, List.mem_of_find?_eq_some rowFound,
        by simpa using List.find?_some rowFound, same.symm⟩

theorem label_of_sideOf? (found : groups.sideOf? contains position name = some side) :
    side.label = position.labelOf name := by
  unfold KernPosition.labelOf
  rcases sideOf?_cases found with ⟨unmarked, -, rfl⟩ | ⟨short, row, marked, -, -, rfl⟩
  · rw [unmarked]
    rfl
  · rw [marked]
    rfl

/-- A side that stands for a glyph has one of the two names of the glyph. -/
theorem nameOf?_of_sideOf? (clean : CleanSide position contains (groups.side position))
    (found : groups.sideOf? contains position name = some side) {glyph : GlyphName}
    (listed : glyph ∈ side.glyphs) : groups.nameOf? position side.isGroup glyph = some name := by
  rcases sideOf?_cases found with ⟨unmarked, -, rfl⟩ | ⟨short, row, -, rowListed, named, rfl⟩
  · rw [List.mem_singleton.mp listed]
    simp [nameOf?, KernSide.isGroup, unmarked]
  · unfold nameOf? groupOf?
    rw [KernSide.isGroup, if_pos rfl, ← named]
    exact Option.map_eq_some_iff.mpr
      ⟨row, find?_holder_of_disjoint clean.disjoint rowListed listed, rfl⟩

/-- Each name of a glyph in the font is that of a side that stands for the glyph. -/
theorem sideOf?_of_nameOf? (clean : CleanSide position contains (groups.side position))
    {grouped : Bool} {glyph : GlyphName} (present : contains glyph = true)
    (named : groups.nameOf? position grouped glyph = some name) :
    ∃ side, groups.sideOf? contains position name = some side ∧ side.isGroup = grouped ∧
      glyph ∈ side.glyphs := by
  unfold nameOf? at named
  cases grouped with
  | false =>
      rw [if_neg Bool.false_ne_true] at named
      obtain ⟨unmarked, same⟩ := Option.ite_none_right_eq_some.mp named
      have same : glyph = name := Option.some.inj same
      subst same
      refine ⟨.glyph glyph, ?_, rfl, List.mem_singleton_self glyph⟩
      rw [sideOf?, Option.isNone_iff_eq_none.mp unmarked]
      exact if_pos present
  | true =>
      rw [if_pos rfl] at named
      obtain ⟨row, found, rfl⟩ := Option.map_eq_some_iff.mp named
      have rowListed := List.mem_of_find?_eq_some found
      have held : glyph ∈ row.2 := by simpa using List.find?_some found
      obtain ⟨short, marked⟩ := Option.isSome_iff_exists.mp (clean.marked row rowListed)
      refine ⟨.group short row.2, ?_, rfl, held⟩
      rw [sideOf?, marked]
      exact Option.map_eq_some_iff.mpr ⟨row, find?_named_of_nodup clean.distinct rowListed, rfl⟩

end Sides

end KerningGroups

/-! ## Resolved pairs -/

section Pairs

variable {α : Type} [Coordinate α] {groups : KerningGroups} {contains : GlyphName → Bool}

/-- A resolved pair stands for an entry whose names both stand for something,
unless it is an entry of two groups without kerning. -/
theorem mem_resolvedPairs {kerning : KerningTable α} {pair : KerningPair α} :
    pair ∈ resolvedPairs groups contains kerning ↔
      ∃ first second, ((first, second), pair.value) ∈ kerning.entries ∧
        groups.sideOf? contains .first first = some pair.first ∧
        groups.sideOf? contains .second second = some pair.second ∧
        (Coordinate.isZero pair.value && pair.first.isGroup && pair.second.isGroup) = false := by
  unfold resolvedPairs
  rw [List.mem_filterMap]
  constructor
  · rintro ⟨⟨⟨first, second⟩, value⟩, listed, resolved⟩
    unfold resolvedPair? at resolved
    dsimp only at resolved
    cases firstFound : groups.sideOf? contains .first first with
    | none =>
        rw [firstFound] at resolved
        cases resolved
    | some firstSide =>
        cases secondFound : groups.sideOf? contains .second second with
        | none =>
            rw [firstFound, secondFound] at resolved
            cases resolved
        | some secondSide =>
            rw [firstFound, secondFound] at resolved
            obtain ⟨counts, same⟩ := Option.ite_none_left_eq_some.mp resolved
            have same : KerningPair.mk firstSide secondSide value = pair := Option.some.inj same
            subst same
            exact ⟨first, second, listed, firstFound, secondFound, Bool.eq_false_iff.mpr counts⟩
  · rintro ⟨first, second, listed, firstFound, secondFound, counts⟩
    refine ⟨_, listed, ?_⟩
    unfold resolvedPair?
    rw [firstFound, secondFound]
    exact if_neg (Bool.eq_false_iff.mp counts)

/-- Each label comes from one entry of the table. -/
theorem eq_of_label_eq_of_mem_resolvedPairs {kerning : KerningTable α}
    {pair other : KerningPair α} (member : pair ∈ resolvedPairs groups contains kerning)
    (otherMember : other ∈ resolvedPairs groups contains kerning)
    (same : pair.label = other.label) : pair = other := by
  obtain ⟨first, second, listed, firstFound, secondFound, -⟩ := mem_resolvedPairs.mp member
  obtain ⟨otherFirst, otherSecond, otherListed, otherFirstFound, otherSecondFound, -⟩ :=
    mem_resolvedPairs.mp otherMember
  have firsts : first = otherFirst := KernPosition.labelOf_injective <|
    calc KernPosition.first.labelOf first
      _ = pair.first.label := (KerningGroups.label_of_sideOf? firstFound).symm
      _ = other.first.label := congrArg Prod.fst same
      _ = KernPosition.first.labelOf otherFirst := KerningGroups.label_of_sideOf? otherFirstFound
  have seconds : second = otherSecond := KernPosition.labelOf_injective <|
    calc KernPosition.second.labelOf second
      _ = pair.second.label := (KerningGroups.label_of_sideOf? secondFound).symm
      _ = other.second.label := congrArg Prod.snd same
      _ = KernPosition.second.labelOf otherSecond := KerningGroups.label_of_sideOf? otherSecondFound
  subst firsts seconds
  rw [← OrderedMap.get?_eq_some_iff] at listed otherListed
  exact KerningPair.eq_of_sides (Option.some.inj (firstFound.symm.trans otherFirstFound))
    (Option.some.inj (secondFound.symm.trans otherSecondFound))
    (Option.some.inj (listed.symm.trans otherListed))

theorem labelsAgree_resolvedPairs (kerning : KerningTable α) :
    LabelsAgree (resolvedPairs groups contains kerning) :=
  fun _ member _ otherMember same =>
    congrArg KerningPair.value (eq_of_label_eq_of_mem_resolvedPairs member otherMember same)

end Pairs

end FontCompiler
