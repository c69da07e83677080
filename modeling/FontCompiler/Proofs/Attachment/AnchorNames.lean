import FontCompiler.Attachment.AnchorPair
import FontCompiler.Proofs.Collection.Sorting
import FontCompiler.Proofs.Feature.Name

/-!
# Names of anchors that belong together

A name with a mark anchor has a pair when it is the name of an anchor itself, and a chain when
its first numbered anchor is there. The chain ends before the first number that is missing,
which is found because a set has fewer names than there are numbers.
-/

namespace FontCompiler

/-! ## Prefixes of a sequence -/

/-- The longest prefix of a finite sequence on which a test holds. -/
theorem exists_takeWhile_map_range {α : Type} (test : α → Bool) (value : Nat → α) (size : Nat) :
    ∃ count ≤ size,
      ((List.range size).map value).takeWhile test = (List.range count).map value ∧
        (∀ index < count, test (value index) = true) ∧
          (count < size → test (value count) = false) := by
  induction size generalizing value with
  | zero =>
      exact ⟨0, Nat.le_refl 0, rfl, fun _ below => absurd below (Nat.not_lt_zero _),
        fun below => absurd below (Nat.not_lt_zero 0)⟩
  | succ size ih =>
      rw [List.range_succ_eq_map, List.map_cons, List.map_map, List.takeWhile_cons]
      split
      · next first =>
          obtain ⟨count, atMost, same, before, next⟩ := ih (value ∘ Nat.succ)
          refine ⟨count + 1, Nat.succ_le_succ atMost, ?_, fun index below => ?_, fun below => ?_⟩
          · rw [same, List.range_succ_eq_map, List.map_cons, List.map_map]
          · cases index with
            | zero => exact first
            | succ index => exact before index (Nat.lt_of_succ_lt_succ below)
          · exact next (Nat.lt_of_succ_lt_succ below)
      · next first =>
          exact ⟨0, Nat.zero_le _, rfl, fun _ below => absurd below (Nat.not_lt_zero _),
            fun _ => eq_false_of_ne_true first⟩

/-! ## Numbered anchors -/

/-- The first anchors of a name, by their number. -/
def numberedNames (base : String) (count : Nat) : List String :=
  (List.range count).map fun index => numberedName base (index + 1)

/-- Whether the numbered anchors of a name end after some number. -/
structure EndsAfter (names : SortedSet String) (base : String) (count : Nat) : Prop where
  before : ∀ index < count, numberedName base (index + 1) ∈ names
  missing : numberedName base (count + 1) ∉ names

variable {names : SortedSet String} {base mark : String} {count other : Nat}

theorem EndsAfter.unique (ends : EndsAfter names base count) (again : EndsAfter names base other) :
    count = other := by
  rcases Nat.lt_trichotomy count other with below | same | above
  · exact absurd (again.before count below) ends.missing
  · exact same
  · exact absurd (ends.before other above) again.missing

/-- Some number is missing, as the numbered anchors differ and the set is finite. -/
theorem exists_numberedChain_eq (names : SortedSet String) (base : String) :
    ∃ count, EndsAfter names base count ∧ numberedChain names base = numberedNames base count := by
  obtain ⟨count, atMost, same, before, next⟩ := exists_takeWhile_map_range
    (fun name => decide (name ∈ names)) (fun index => numberedName base (index + 1)) names.size
  have listed : ∀ index < count, numberedName base (index + 1) ∈ names := fun index below =>
    of_decide_eq_true (before index below)
  refine ⟨count, ⟨listed, fun further => ?_⟩, same⟩
  rcases Nat.lt_or_eq_of_le atMost with below | all
  · exact absurd further (of_decide_eq_false (next below))
  · -- All tried names are in the set, and with one more there are more than the set has.
    have distinct : (numberedNames base (count + 1)).Nodup :=
      List.Nodup.map (fun number other same => Nat.succ.inj (numberedName_injective base same))
        List.nodup_range
    obtain ⟨candidate, tried, free⟩ := exists_not_mem_of_size_lt names distinct
      (by rw [numberedNames, List.length_map, List.length_range]; omega)
    obtain ⟨index, within, rfl⟩ := List.mem_map.mp tried
    rcases Nat.lt_succ_iff_lt_or_eq.mp (List.mem_range.mp within) with earlier | rfl
    · exact absurd (listed index earlier) free
    · exact absurd further free

theorem EndsAfter.numberedChain_eq (ends : EndsAfter names base count) :
    numberedChain names base = numberedNames base count := by
  obtain ⟨length, endsThere, same⟩ := exists_numberedChain_eq names base
  rw [same, ends.unique endsThere]

theorem numberedChain_ne_nil_iff :
    numberedChain names base ≠ [] ↔ numberedName base 1 ∈ names := by
  obtain ⟨count, ends, same⟩ := exists_numberedChain_eq names base
  rw [same]
  cases count with
  | zero => exact iff_of_false (fun some => some rfl) ends.missing
  | succ count =>
      exact iff_of_true (by simp [numberedNames]) (ends.before 0 (Nat.succ_pos count))

/-! ## Names with a mark anchor -/

theorem attachedName?_eq_some_iff :
    attachedName? mark = some base ↔ base ≠ "" ∧ mark = "_" ++ base := by
  unfold attachedName?
  constructor
  · intro found
    split at found
    · next first rest letters =>
        cases found
        refine ⟨fun none => ?_, String.toList_inj.mp ?_⟩
        · simpa using congrArg String.toList none
        · rw [letters, String.toList_append]
          exact congrArg ('_' :: ·) String.toList_ofList.symm
    · cases found
  · rintro ⟨nonempty, rfl⟩
    have letters : ("_" ++ base).toList = '_' :: base.toList := String.toList_append
    rw [letters]
    cases same : base.toList with
    | nil => exact absurd (String.toList_inj.mp same) nonempty
    | cons first rest => exact congrArg some (same ▸ String.ofList_toList)

/-- The names to which the mark anchors of a set attach. -/
def attachedNames (names : SortedSet String) : List String := names.toList.filterMap attachedName?

theorem mem_attachedNames : base ∈ attachedNames names ↔ base ≠ "" ∧ "_" ++ base ∈ names := by
  unfold attachedNames
  rw [List.mem_filterMap]
  constructor
  · rintro ⟨mark, listed, found⟩
    obtain ⟨nonempty, rfl⟩ := attachedName?_eq_some_iff.mp found
    exact ⟨nonempty, listed⟩
  · rintro ⟨nonempty, listed⟩
    exact ⟨_, listed, attachedName?_eq_some_iff.mpr ⟨nonempty, rfl⟩⟩

/-- The names stand in the order of their mark anchors. -/
theorem attachedNames_increasing (names : SortedSet String) :
    (attachedNames names).Pairwise fun first second =>
      compare ("_" ++ first) ("_" ++ second) = .lt := by
  refine names.increasing.filterMap _ fun mark other below first found second next => ?_
  obtain ⟨-, rfl⟩ := attachedName?_eq_some_iff.mp found
  obtain ⟨-, rfl⟩ := attachedName?_eq_some_iff.mp next
  exact below

/-- The names to which mark anchors attach by an anchor of some kind that is there. -/
def joinedNames (names : SortedSet String) (anchor : String → String) : List String :=
  (attachedNames names).filter fun name => decide (anchor name ∈ names)

theorem mem_joinedNames {anchor : String → String} : base ∈ joinedNames names anchor ↔
    base ≠ "" ∧ "_" ++ base ∈ names ∧ anchor base ∈ names := by
  rw [joinedNames, List.mem_filter, mem_attachedNames, decide_eq_true_eq, and_assoc]

theorem joinedNames_increasing (names : SortedSet String) (anchor : String → String) :
    (joinedNames names anchor).Pairwise fun first second =>
      compare ("_" ++ first) ("_" ++ second) = .lt :=
  (attachedNames_increasing names).filter _

theorem nodup_joinedNames (names : SortedSet String) (anchor : String → String) :
    (joinedNames names anchor).Nodup :=
  (joinedNames_increasing names anchor).imp fun {first second} below same => by
    have self : compare ("_" ++ second) ("_" ++ second) = .eq := Std.ReflCmp.compare_self
    rw [same, self] at below
    cases below

def AnchorPair.ofName (name : String) : AnchorPair := ⟨name, "_" ++ name⟩

/-- The chain of the numbered anchors of a name and its mark anchor. -/
def AnchorChain.ofName (names : SortedSet String) (name : String) : AnchorChain :=
  ⟨numberedChain names name, "_" ++ name⟩

theorem anchorPairs_eq (names : SortedSet String) : anchorPairs names =
    (joinedNames names fun name => name).map AnchorPair.ofName := by
  unfold anchorPairs joinedNames attachedNames
  rw [← List.filterMap_eq_filter, List.filterMap_filterMap, List.map_filterMap]
  refine List.filterMap_congr fun mark _ => ?_
  cases found : attachedName? mark with
  | none => rfl
  | some base =>
      obtain ⟨-, rfl⟩ := attachedName?_eq_some_iff.mp found
      by_cases listed : base ∈ names <;> simp [listed, AnchorPair.ofName, Option.guard]

theorem anchorChains_eq (names : SortedSet String) : anchorChains names =
    (joinedNames names fun name => numberedName name 1).map (AnchorChain.ofName names) := by
  unfold anchorChains joinedNames attachedNames
  rw [← List.filterMap_eq_filter, List.filterMap_filterMap, List.map_filterMap]
  refine List.filterMap_congr fun mark _ => ?_
  cases found : attachedName? mark with
  | none => rfl
  | some base =>
      obtain ⟨-, rfl⟩ := attachedName?_eq_some_iff.mp found
      have parts : (numberedChain names base).isEmpty = true ↔ numberedName base 1 ∉ names := by
        rw [List.isEmpty_iff, ← numberedChain_ne_nil_iff, not_ne_iff]
      by_cases listed : numberedName base 1 ∈ names
      · simp [listed, AnchorChain.ofName, parts, Option.guard]
      · simp [listed, parts, Option.guard]

/-! ## Pairs and chains -/

theorem mem_anchorPairs {pair : AnchorPair} : pair ∈ anchorPairs names ↔
    pair.base ≠ "" ∧ pair.mark = "_" ++ pair.base ∧ pair.base ∈ names ∧ pair.mark ∈ names := by
  rw [anchorPairs_eq, List.mem_map]
  constructor
  · rintro ⟨name, joined, rfl⟩
    obtain ⟨nonempty, marked, listed⟩ := mem_joinedNames.mp joined
    exact ⟨nonempty, rfl, listed, marked⟩
  · rintro ⟨nonempty, same, listed, marked⟩
    exact ⟨pair.base, mem_joinedNames.mpr ⟨nonempty, same ▸ marked, listed⟩,
      by rw [AnchorPair.ofName, ← same]⟩

theorem mem_anchorChains {chain : AnchorChain} : chain ∈ anchorChains names ↔
    ∃ base count, base ≠ "" ∧ "_" ++ base ∈ names ∧ 0 < count ∧ EndsAfter names base count ∧
      chain = ⟨numberedNames base count, "_" ++ base⟩ := by
  rw [anchorChains_eq, List.mem_map]
  constructor
  · rintro ⟨base, joined, rfl⟩
    obtain ⟨nonempty, marked, first⟩ := mem_joinedNames.mp joined
    obtain ⟨count, ends, same⟩ := exists_numberedChain_eq names base
    refine ⟨base, count, nonempty, marked, Nat.pos_of_ne_zero fun none => ?_, ends,
      congrArg (AnchorChain.mk · _) same⟩
    subst none
    exact ends.missing first
  · rintro ⟨base, count, nonempty, marked, positive, ends, rfl⟩
    exact ⟨base, mem_joinedNames.mpr ⟨nonempty, marked, ends.before 0 positive⟩,
      congrArg (AnchorChain.mk · _) ends.numberedChain_eq⟩

theorem anchorPairs_increasing (names : SortedSet String) :
    (anchorPairs names).Pairwise fun first second => compare first.mark second.mark = .lt := by
  rw [anchorPairs_eq]
  exact List.pairwise_map.mpr (joinedNames_increasing names _)

theorem anchorChains_increasing (names : SortedSet String) :
    (anchorChains names).Pairwise fun first second => compare first.mark second.mark = .lt := by
  rw [anchorChains_eq]
  exact List.pairwise_map.mpr (joinedNames_increasing names _)

end FontCompiler
