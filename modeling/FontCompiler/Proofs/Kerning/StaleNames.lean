import FontCompiler.Proofs.Kerning.Groups

/-!
# Stale names in kerning

Groups and kerning may name glyphs that the font does not have. Cleaning passes over
such members, and resolving passes over such pairs. So it makes no difference whether
the names have been taken out before.
-/

namespace FontCompiler

section Members

variable {contains shows : GlyphName → Bool}
  (visible : ∀ name, contains name = true → shows name = true)
include visible

/-- A list that keeps only names with a glyph may have lost some of the others before. -/
theorem filter_filter_contains (further : GlyphName → Bool) (names : List GlyphName) :
    (names.filter shows).filter (fun name => contains name && further name) =
      names.filter fun name => contains name && further name := by
  rw [List.filter_filter]
  refine List.filter_congr fun name _ => ?_
  cases present : contains name with
  | false => rfl
  | true => rw [visible name present, Bool.and_true]

namespace KerningGroups

/-- Members without a glyph do not count, whether they are listed or not. -/
theorem clean_filter (position : KernPosition) (claimed : List GlyphName)
    (rows : List (String × List GlyphName)) :
    clean position contains claimed (rows.map fun row => (row.1, row.2.filter shows)) =
      clean position contains claimed rows := by
  induction rows generalizing claimed with
  | nil => rfl
  | cons row rest ih =>
      have members := filter_filter_contains visible (fun glyph => !claimed.contains glyph) row.2
      rw [List.map_cons, clean, clean, members]
      simp only [ih]

theorem ofTable_filter (groups : GroupTable) :
    ofTable contains (groups.map (fun row => (row.1, row.2.filter shows)) fun _ => rfl) =
      ofTable contains groups := by
  unfold ofTable KeyedList.map
  rw [clean_filter visible, clean_filter visible]

theorem claimMembers_filter (position : KernPosition) (name : String) (owners : Owners)
    (listed : List GlyphName) :
    claimMembers position contains name owners (listed.filter shows) =
      claimMembers position contains name owners listed := by
  induction listed generalizing owners with
  | nil => rfl
  | cons glyph rest ih =>
      cases shown : shows glyph with
      | true =>
          rw [List.filter_cons_of_pos shown, claimMembers, claimMembers]
          simp only [ih]
      | false =>
          have absent : ¬ contains glyph = true := fun present => by
            rw [visible glyph present] at shown
            cases shown
          rw [List.filter_cons_of_neg (Bool.eq_false_iff.mp shown), ih, claimMembers,
            if_neg absent]

/-- Members without a glyph repeat nothing. -/
theorem repeatedMembers_filter (owners : Owners) (rows : List (String × List GlyphName)) :
    repeatedMembers contains owners (rows.map fun row => (row.1, row.2.filter shows)) =
      repeatedMembers contains owners rows := by
  induction rows generalizing owners with
  | nil => rfl
  | cons row rest ih =>
      rw [List.map_cons, repeatedMembers, repeatedMembers]
      simp only [claimMembers_filter visible, ih]

end KerningGroups

end Members

namespace KernPosition

theorem unmarked?_eq_none_iff {position : KernPosition} {name : String} :
    position.unmarked? name = none ↔ ¬ position.marker.toList <+: name.toList := by
  rw [Option.eq_none_iff_forall_ne_some]
  constructor
  · rintro unmarked ⟨letters, joined⟩
    refine unmarked (String.ofList letters) (unmarked?_eq_some_iff.mpr ?_)
    rw [String.toList_ofList, joined]
  · intro apart short marked
    exact apart ⟨short.toList, unmarked?_eq_some_iff.mp marked⟩

end KernPosition

/-- A name that no glyph has and that no side's marker begins stands for nothing. -/
theorem KerningGroups.sideOf?_eq_none (groups : KerningGroups) {contains : GlyphName → Bool}
    {position : KernPosition} {name : String} (unmarked : ¬ position.marker.toList <+: name.toList)
    (absent : contains name = false) : groups.sideOf? contains position name = none := by
  rw [sideOf?, KernPosition.unmarked?_eq_none_iff.mpr unmarked, absent]
  rfl

/-- Pairs that name what is nowhere are no pairs, whether they are listed or not. -/
theorem resolvedPairs_filter {α : Type} [Coordinate α] {contains shows : GlyphName → Bool}
    (absent : ∀ name, shows name = false → contains name = false)
    (unmarked : ∀ name, shows name = false → ∀ position : KernPosition,
      ¬ position.marker.toList <+: name.toList)
    (groups : KerningGroups) (kerning : KerningTable α) :
    resolvedPairs groups contains
        (kerning.filter fun entry => shows entry.1.1 && shows entry.1.2) =
      resolvedPairs groups contains kerning := by
  unfold resolvedPairs KeyedList.filter
  rw [List.filterMap_filter]
  refine List.filterMap_congr fun entry _ => ?_
  unfold resolvedPair?
  cases first : shows entry.1.1 with
  | false =>
      rw [groups.sideOf?_eq_none (unmarked _ first .first) (absent _ first)]
      rfl
  | true =>
      cases second : shows entry.1.2 with
      | false =>
          rw [groups.sideOf?_eq_none (unmarked _ second .second) (absent _ second)]
          cases groups.sideOf? contains .first entry.1.1 <;> rfl
      | true => rfl

end FontCompiler
