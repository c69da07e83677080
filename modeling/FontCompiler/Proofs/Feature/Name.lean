import Mathlib.Data.List.Nodup
import Mathlib.Data.List.Perm.Subperm
import FontCompiler.Feature.File

/-!
# Fresh names are fresh

Numbered names with different numbers differ, so among more numbers than there
are taken names one gives a name that is not taken.
-/

namespace FontCompiler

theorem numberedName_injective (name : String) : Function.Injective (numberedName name) := by
  intro number other same
  have letters : name.toList ++ "_".toList ++ (toString number).toList =
      name.toList ++ "_".toList ++ (toString other).toList := by
    simpa only [numberedName, String.toList_append] using congrArg String.toList same
  have digits : Nat.toDigits 10 number = Nat.toDigits 10 other := by
    simpa only [Nat.toString_eq_ofList_toDigits, String.toList_ofList] using
      List.append_cancel_left letters
  calc number = Nat.ofDigitChars 10 (Nat.toDigits 10 number) 0 :=
        (Nat.ofDigitChars_toDigits (by decide) (by decide)).symm
    _ = Nat.ofDigitChars 10 (Nat.toDigits 10 other) 0 := by rw [digits]
    _ = other := Nat.ofDigitChars_toDigits (by decide) (by decide)

/-- One of more distinct candidates than taken names is not taken. -/
theorem exists_not_mem_of_size_lt (taken : SortedSet String) {candidates : List String}
    (distinct : candidates.Nodup) (more : taken.size < candidates.length) :
    ∃ candidate ∈ candidates, candidate ∉ taken := by
  by_contra none
  have all : candidates ⊆ taken.toList := by
    intro candidate listed
    by_contra missing
    exact none ⟨candidate, listed, missing⟩
  have atMost : candidates.length ≤ taken.size := (distinct.subperm all).length_le
  omega

theorem freshName_not_mem (name : String) (taken : SortedSet String) :
    freshName name taken ∉ taken := by
  unfold freshName
  split
  · next found =>
      have distinct : ((List.range (taken.size + 1)).map
          fun index => numberedName name (index + 1)).Nodup := by
        refine List.Nodup.map (fun number other same => ?_) List.nodup_range
        exact Nat.succ.inj (numberedName_injective name same)
      obtain ⟨candidate, listed, free⟩ := exists_not_mem_of_size_lt taken distinct
        (by rw [List.length_map, List.length_range]; omega)
      cases search : ((List.range (taken.size + 1)).map
          fun index => numberedName name (index + 1)).find?
          fun candidate => decide (candidate ∉ taken) with
      | none => exact absurd (decide_eq_true free) (List.find?_eq_none.mp search candidate listed)
      | some fresh =>
          have free := List.find?_some search
          exact of_decide_eq_true free
  · next free => exact free

/-- A fresh name begins with the wanted one. -/
theorem exists_freshName_eq (name : String) (taken : SortedSet String) :
    ∃ rest, freshName name taken = name ++ rest := by
  unfold freshName
  split
  · cases search : ((List.range (taken.size + 1)).map
        fun index => numberedName name (index + 1)).find?
        fun candidate => decide (candidate ∉ taken) with
    | none => exact ⟨"", (String.append_empty).symm⟩
    | some fresh =>
        obtain ⟨index, -, rfl⟩ := List.mem_map.mp (List.mem_of_find?_eq_some search)
        exact ⟨"_" ++ toString (index + 1), String.append_assoc⟩
  · exact ⟨"", (String.append_empty).symm⟩

/-- A taken name gets the least number that makes it fresh. -/
theorem freshName_of_mem {name : String} {taken : SortedSet String} (found : name ∈ taken) :
    ∃ number, freshName name taken = numberedName name (number + 1) ∧
      numberedName name (number + 1) ∉ taken ∧
      ∀ smaller < number, numberedName name (smaller + 1) ∈ taken := by
  have free := freshName_not_mem name taken
  unfold freshName at free ⊢
  rw [if_pos found] at free ⊢
  rw [List.find?_map] at free ⊢
  cases search : (List.range (taken.size + 1)).find?
      ((fun candidate => decide (candidate ∉ taken)) ∘
        fun index => numberedName name (index + 1)) with
  | none =>
      rw [search] at free
      exact absurd found free
  | some number =>
      obtain ⟨fresh, -, least⟩ := List.find?_range_eq_some.mp search
      refine ⟨number, rfl, of_decide_eq_true fresh, fun smaller below => ?_⟩
      simpa using least smaller below

theorem freshName_congr {name : String} {taken other : SortedSet String}
    (same : ∀ rest, name ++ rest ∈ taken ↔ name ++ rest ∈ other) :
    freshName name taken = freshName name other := by
  have sameNumbered : ∀ number, numberedName name number ∈ taken ↔
      numberedName name number ∈ other := fun number => by
    unfold numberedName
    rw [String.append_assoc]
    exact same _
  have sameName : name ∈ taken ↔ name ∈ other := by
    simpa using same ""
  by_cases found : name ∈ taken
  · obtain ⟨number, named, free, least⟩ := freshName_of_mem found
    obtain ⟨further, otherNamed, otherFree, otherLeast⟩ := freshName_of_mem (sameName.mp found)
    rw [named, otherNamed]
    rcases Nat.lt_trichotomy number further with below | equal | above
    · exact absurd ((sameNumbered _).mpr (otherLeast number below)) free
    · rw [equal]
    · exact absurd ((sameNumbered _).mp (least further above)) otherFree
  · unfold freshName
    rw [if_neg found, if_neg fun taken => found (sameName.mpr taken)]

theorem freshClassName_not_mem (name : String) (taken : SortedSet String) :
    freshClassName name taken ∉ taken :=
  freshName_not_mem _ taken

end FontCompiler
