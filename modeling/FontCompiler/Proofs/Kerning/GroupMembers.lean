import Mathlib.Data.List.Nodup
import Mathlib.Data.List.Perm.Basic
import FontCompiler.Proofs.Kerning.Groups

/-!
# Members of kerning groups

Cleaning gives a glyph of the font to the first group of a side that lists it. Every further
listing of the glyph on the side is reported, so the listings of glyphs in the font are those
that are kept and those that are reported.
-/

namespace FontCompiler

/-- A name marks one side at most. -/
theorem KernPosition.ofGroup?_eq_some_iff {position : KernPosition} {name : String} :
    ofGroup? name = some position ↔ (position.unmarked? name).isSome = true := by
  have apart : (first.unmarked? name).isSome = true → (second.unmarked? name).isSome = true →
      False := by
    intro isFirst isSecond
    obtain ⟨short, marked⟩ := Option.isSome_iff_exists.mp isFirst
    obtain ⟨other, otherMarked⟩ := Option.isSome_iff_exists.mp isSecond
    rw [unmarked?_eq_some_iff] at marked otherMarked
    -- Both markers have the same length, so a name that begins with both makes them equal.
    have same : first.marker.toList = second.marker.toList :=
      (List.append_inj (marked.trans otherMarked.symm) (by decide)).1
    exact absurd same (by decide)
  unfold ofGroup?
  cases position <;> split_ifs <;> simp_all

def GroupTable.onSide (position : KernPosition) (groups : GroupTable) : GroupTable :=
  groups.filter fun entry => (position.unmarked? entry.1).isSome

namespace KerningGroups

variable {position : KernPosition} {contains : GlyphName → Bool} {glyph : GlyphName}
  {name : String}

/-- The first group for a side that lists a glyph. -/
def firstGroup? (position : KernPosition) (glyph : GlyphName)
    (entries : List (String × List GlyphName)) : Option String :=
  (entries.find? fun entry =>
    (position.unmarked? entry.1).isSome && entry.2.contains glyph).map Prod.fst

/-- Whether a group with a name has a glyph. -/
def Holds (rows : List (String × SortedSet GlyphName)) (name : String) (glyph : GlyphName) : Prop :=
  ∃ members, (name, members) ∈ rows ∧ glyph ∈ members

theorem holds_cons {row : String × SortedSet GlyphName}
    {rows : List (String × SortedSet GlyphName)} :
    Holds (row :: rows) name glyph ↔ row.1 = name ∧ glyph ∈ row.2 ∨ Holds rows name glyph := by
  unfold Holds
  constructor
  · rintro ⟨members, listed, held⟩
    rcases List.mem_cons.mp listed with rfl | later
    · exact .inl ⟨rfl, held⟩
    · exact .inr ⟨members, later, held⟩
  · rintro (⟨rfl, held⟩ | ⟨members, later, held⟩)
    · exact ⟨row.2, List.mem_cons_self, held⟩
    · exact ⟨members, List.mem_cons_of_mem _ later, held⟩

/-- A glyph that is free and in the font goes to the first group that lists it. -/
theorem holds_clean_iff {claimed : List GlyphName} {entries : List (String × List GlyphName)} :
    Holds (clean position contains claimed entries) name glyph ↔
      contains glyph = true ∧ glyph ∉ claimed ∧
        firstGroup? position glyph entries = some name := by
  induction claimed, entries using clean.induct position contains with
  | case1 claimed => simp [clean, Holds, firstGroup?]
  | case2 claimed group listed rest marked members empty ih =>
      rw [clean, if_pos marked, if_pos empty, ih, firstGroup?, firstGroup?]
      refine and_congr_right fun present => and_congr_right fun free => ?_
      -- A free glyph of the font that the group lists would be one of its members.
      have unlisted : glyph ∉ listed := fun found => by
        have member : glyph ∈ members := SortedSet.mem_ofList.mpr
          (List.mem_filter.mpr ⟨found, by simp [present, free]⟩)
        rw [SortedSet.mem_def, List.isEmpty_iff.mp empty] at member
        cases member
      rw [List.find?_cons_of_neg (by simp [unlisted])]
  | case3 claimed group listed rest marked members inhabited ih =>
      rw [clean, if_pos marked, if_neg inhabited, holds_cons, ih]
      have held : glyph ∈ members ↔ glyph ∈ listed ∧ contains glyph = true ∧ glyph ∉ claimed := by
        simp [members]
      rw [List.mem_append, ← SortedSet.mem_def, held, firstGroup?, firstGroup?]
      by_cases found : glyph ∈ listed
      · rw [List.find?_cons_of_pos (by simp [marked, found])]
        grind
      · rw [List.find?_cons_of_neg (by simp [found])]
        grind
  | case4 claimed group listed rest unmarked ih =>
      rw [clean, if_neg unmarked, ih, firstGroup?, firstGroup?,
        List.find?_cons_of_neg (by simp [unmarked])]

/-- Cleaning a side looks at the groups for the side only. -/
theorem clean_onSide (claimed : List GlyphName) (entries : List (String × List GlyphName)) :
    clean position contains claimed
        (entries.filter fun entry => (position.unmarked? entry.1).isSome) =
      clean position contains claimed entries := by
  induction claimed, entries using clean.induct position contains with
  | case1 claimed => rfl
  | case2 claimed group listed rest marked members empty ih =>
      rw [List.filter_cons, if_pos marked, clean, clean, if_pos marked, if_pos empty, if_pos marked,
        if_pos empty, ih]
  | case3 claimed group listed rest marked members inhabited ih =>
      rw [List.filter_cons, if_pos marked, clean, clean, if_pos marked, if_neg inhabited,
        if_pos marked, if_neg inhabited, ih]
  | case4 claimed group listed rest unmarked ih =>
      rw [List.filter_cons, if_neg unmarked, clean, if_neg unmarked, ih]

def memberCount (rows : List (String × SortedSet GlyphName)) : Nat :=
  (rows.flatMap fun row => row.2.toList).length

/-- The number of times that groups for either side list a glyph of the font. -/
def listingCount (contains : GlyphName → Bool) (entries : List (String × List GlyphName)) : Nat :=
  ((entries.filter fun entry => (KernPosition.ofGroup? entry.1).isSome).flatMap
    Prod.snd).countP contains

/-- Whether a glyph has its group on a side. -/
def Owners.Owned (owners : Owners) (position : KernPosition) (glyph : GlyphName) : Prop :=
  ∃ owner, ((position, glyph), owner) ∈ owners

theorem Owners.owned_append {owners : Owners} {claimed : List GlyphName} {other : KernPosition} :
    Owned (claimed.map (fun glyph => ((position, glyph), name)) ++ owners) other glyph ↔
      other = position ∧ glyph ∈ claimed ∨ owners.Owned other glyph := by
  unfold Owned
  simp only [List.mem_append, List.mem_map, Prod.mk.injEq, exists_or]
  grind

/-- A group claims its listed glyphs that are in the font and free, each once, and reports
every other listing of a glyph in the font. -/
theorem exists_claimed (position : KernPosition) (contains : GlyphName → Bool) (name : String)
    (owners : Owners) (listed : List GlyphName) :
    ∃ claimed : List GlyphName,
      (claimMembers position contains name owners listed).2 =
        claimed.map (fun glyph => ((position, glyph), name)) ++ owners ∧
      claimed.Nodup ∧
      (∀ glyph, glyph ∈ claimed ↔
        glyph ∈ listed ∧ contains glyph = true ∧ ¬ owners.Owned position glyph) ∧
      (claimMembers position contains name owners listed).1.length + claimed.length =
        listed.countP contains := by
  induction listed generalizing owners with
  | nil => exact ⟨[], rfl, .nil, by simp, rfl⟩
  | cons first rest ih =>
      rw [claimMembers]
      by_cases present : contains first = true
      · rw [if_pos present, List.countP_cons_of_pos present]
        split
        · next row found =>
            have owned : owners.Owned position first := by
              have key : row.1 = (position, first) := by simpa using List.find?_some found
              exact ⟨row.2, key ▸ List.mem_of_find?_eq_some found⟩
            obtain ⟨claimed, final, nodup, exact, count⟩ := ih owners
            refine ⟨claimed, final, nodup, fun glyph => ?_, ?_⟩
            · rw [exact, List.mem_cons]
              grind
            · rw [List.length_cons, ← count]
              omega
        · next free =>
            have unowned : ¬ owners.Owned position first := by
              rintro ⟨owner, listed⟩
              simpa using List.find?_eq_none.mp free _ listed
            obtain ⟨claimed, final, nodup, exact, count⟩ := ih (((position, first), name) :: owners)
            have owned : ∀ glyph,
                Owners.Owned (((position, first), name) :: owners) position glyph ↔
                  glyph = first ∨ owners.Owned position glyph := fun glyph => by
              simp only [Owners.Owned, List.mem_cons, Prod.mk.injEq, true_and, exists_or,
                exists_and_left, exists_eq, and_true]
            refine ⟨claimed ++ [first], ?_, ?_, fun glyph => ?_, ?_⟩
            · rw [final, List.map_append, List.append_assoc]
              rfl
            · refine List.nodup_append'.mpr ⟨nodup, List.nodup_singleton _, ?_⟩
              rw [List.disjoint_singleton, exact, owned]
              exact fun held => held.2.2 (.inl rfl)
            · rw [List.mem_append, List.mem_singleton, exact, owned, List.mem_cons]
              grind
            · rw [List.length_append, List.length_singleton, ← Nat.add_assoc, count]
      · rw [if_neg present, List.countP_cons_of_neg present]
        obtain ⟨claimed, final, nodup, exact, count⟩ := ih owners
        refine ⟨claimed, final, nodup, fun glyph => ?_, count⟩
        rw [exact, List.mem_cons]
        grind

/-- The members that a group gets when some glyphs have their group. -/
def newMembers (contains : GlyphName → Bool) (claimed listed : List GlyphName) :
    SortedSet GlyphName :=
  .ofList (listed.filter fun glyph => contains glyph && !claimed.contains glyph)

/-- The members of a side are those of its first group and those of the later ones. -/
theorem memberCount_clean_cons {claimed listed : List GlyphName}
    {rest : List (String × List GlyphName)} :
    memberCount (clean position contains claimed ((name, listed) :: rest)) =
      if (position.unmarked? name).isSome then
        (newMembers contains claimed listed).size + memberCount
          (clean position contains (claimed ++ (newMembers contains claimed listed).toList) rest)
      else memberCount (clean position contains claimed rest) := by
  rw [clean]
  dsimp only
  rw [← newMembers]
  split
  · split
    · next empty =>
        have none := List.isEmpty_iff.mp empty
        rw [none, List.append_nil, SortedSet.size, none, List.length_nil, Nat.zero_add]
    · exact List.length_append
  · rfl

/-- A group adds members to its own side. -/
theorem memberCount_clean_cons_of_ofGroup? {claimed : KernPosition → List GlyphName}
    {listed : List GlyphName} {rest : List (String × List GlyphName)}
    (side : KernPosition.ofGroup? name = some position) (other : KernPosition) :
    let members := newMembers contains (claimed position) listed
    let further := Function.update claimed position (claimed position ++ members.toList)
    memberCount (clean other contains (claimed other) ((name, listed) :: rest)) =
      (if other = position then members.size else 0) +
        memberCount (clean other contains (further other) rest) := by
  have marked : (other.unmarked? name).isSome = true ↔ other = position := by
    rw [← KernPosition.ofGroup?_eq_some_iff, side, Option.some.injEq, eq_comm]
  dsimp only
  rw [memberCount_clean_cons]
  by_cases same : other = position
  · rw [if_pos (marked.mpr same), if_pos same, same, Function.update_self]
  · rw [if_neg fun isMarked => same (marked.mp isMarked), if_neg same, Nat.zero_add,
      Function.update_of_ne same]

/-- Every listing of a glyph in the font is kept or reported. -/
theorem length_repeatedMembers {owners : Owners} {claimed : KernPosition → List GlyphName}
    (agree : ∀ position glyph, glyph ∈ claimed position ↔ owners.Owned position glyph)
    (entries : List (String × List GlyphName)) :
    (repeatedMembers contains owners entries).length +
        (memberCount (clean .first contains (claimed .first) entries) +
          memberCount (clean .second contains (claimed .second) entries)) =
      listingCount contains entries := by
  induction entries generalizing owners claimed with
  | nil => rfl
  | cons entry rest ih =>
      obtain ⟨name, listed⟩ := entry
      rw [repeatedMembers]
      cases side : KernPosition.ofGroup? name with
      | none =>
          have unmarked : ∀ position : KernPosition, ¬ (position.unmarked? name).isSome = true := by
            intro position marked
            rw [← KernPosition.ofGroup?_eq_some_iff, side] at marked
            cases marked
          rw [memberCount_clean_cons, memberCount_clean_cons, if_neg (unmarked _),
            if_neg (unmarked _), ih agree]
          simp [listingCount, side]
      | some position =>
          obtain ⟨kept, final, nodup, exact, count⟩ :=
            exists_claimed position contains name owners listed
          have same : ∀ glyph, glyph ∈ newMembers contains (claimed position) listed ↔
              glyph ∈ kept := fun glyph => by
            rw [newMembers, SortedSet.mem_ofList, List.mem_filter, exact]
            simp [agree]
          have size : (newMembers contains (claimed position) listed).size = kept.length :=
            ((List.perm_ext_iff_of_nodup (SortedSet.nodup _) nodup).mpr same).length_eq
          have further : ∀ other glyph, glyph ∈ Function.update claimed position
              (claimed position ++ (newMembers contains (claimed position) listed).toList) other ↔
                (claimMembers position contains name owners listed).2.Owned other glyph := by
            intro other glyph
            rw [final, Owners.owned_append, ← same, ← agree]
            by_cases here : other = position
            · rw [here, Function.update_self, List.mem_append, ← SortedSet.mem_def]
              tauto
            · rw [Function.update_of_ne here]
              tauto
          have later := ih further
          have listings : listingCount contains ((name, listed) :: rest) =
              listed.countP contains + listingCount contains rest := by
            simp [listingCount, side]
          -- Just one of the two sides is that of the group.
          have onlyHere : (if KernPosition.first = position then kept.length else 0) +
              (if KernPosition.second = position then kept.length else 0) = kept.length := by
            cases position <;> simp
          rw [memberCount_clean_cons_of_ofGroup? side, memberCount_clean_cons_of_ofGroup? side,
            size, listings, List.length_append]
          omega

/-- Each side of the cleaned groups gives the glyphs of the font to the first group for the side
that lists them, keeps the order of the groups, and does not depend on the groups for the other
side. The listings of glyphs in the font are the members and the reported listings. -/
theorem ofTable_firstGroup (contains : GlyphName → Bool) (groups : GroupTable) :
    (∀ position : KernPosition,
      CleanSide position contains ((ofTable contains groups).side position) ∧
      (∀ name glyph, Holds ((ofTable contains groups).side position) name glyph ↔
        contains glyph = true ∧ firstGroup? position glyph groups.entries = some name) ∧
      (((ofTable contains groups).side position).map Prod.fst).Sublist groups.keys ∧
      (ofTable contains (groups.onSide position)).side position =
        (ofTable contains groups).side position) ∧
    (repeatedMembers contains [] groups.entries).length +
        (memberCount (ofTable contains groups).first +
          memberCount (ofTable contains groups).second) =
      listingCount contains groups.entries := by
  have sides : ∀ (position : KernPosition) (groups : GroupTable),
      (ofTable contains groups).side position = clean position contains [] groups.entries :=
    fun position groups => by cases position <;> rfl
  refine ⟨fun position => ⟨cleanSide_ofTable contains groups position, fun name glyph => ?_, ?_,
    ?_⟩, ?_⟩
  · rw [sides, holds_clean_iff]
    simp
  · rw [sides]
    exact names_clean_sublist [] groups.entries
  · rw [sides, sides]
    exact clean_onSide [] groups.entries
  · have unclaimed : ∀ position glyph,
        glyph ∈ (fun _ => [] : KernPosition → List GlyphName) position ↔
          Owners.Owned [] position glyph := by
      simp [Owners.Owned]
    exact length_repeatedMembers unclaimed groups.entries

end KerningGroups

end FontCompiler
