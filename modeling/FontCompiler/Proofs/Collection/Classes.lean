import Mathlib.Data.List.Nodup
import Mathlib.Data.List.Perm.Basic

/-!
# Classes of a list

A list without its repetitions has each element once. The classes into which a key sorts
elements hold all of them, each in one class only.
-/

namespace FontCompiler

universe u v

theorem nodup_eraseDups {α : Type u} [BEq α] [LawfulBEq α] (elements : List α) :
    elements.eraseDups.Nodup := by
  induction elements using (measure List.length).wf.induction with
  | _ elements ih =>
      cases elements with
      | nil => exact .nil
      | cons element rest =>
          have shorter : (rest.filter fun other => !other == element).length <
              (element :: rest).length := Nat.lt_succ_of_le (List.length_filter_le _ _)
          rw [List.eraseDups_cons]
          refine List.nodup_cons.mpr ⟨fun again => ?_, ih _ shorter⟩
          have kept := (List.mem_filter.mp (List.mem_eraseDups.mp again)).2
          simp at kept

/-- Without repetitions, elements stand in the order of their first occurrences. -/
theorem pairwise_idxOf_eraseDups {α : Type u} [DecidableEq α] (elements : List α)
    (test : α → Bool) : (elements.filter test).eraseDups.Pairwise
      fun first second => elements.idxOf first < elements.idxOf second := by
  induction elements generalizing test with
  | nil => exact .nil
  | cons element rest ih =>
      have behind : ∀ others : α → Bool, others element = false →
          (∀ member ∈ (rest.filter others).eraseDups, element ≠ member) ∧
            (rest.filter others).eraseDups.Pairwise fun first second =>
              (element :: rest).idxOf first < (element :: rest).idxOf second := by
        intro others without
        have other : ∀ member ∈ (rest.filter others).eraseDups, element ≠ member := by
          rintro member listed rfl
          have kept := (List.mem_filter.mp (List.mem_eraseDups.mp listed)).2
          exact Bool.false_ne_true (without.symm.trans kept)
        refine ⟨other, (ih others).imp_of_mem fun first second before => ?_⟩
        rw [List.idxOf_cons_ne _ (other _ first), List.idxOf_cons_ne _ (other _ second)]
        exact Nat.succ_lt_succ before
      by_cases kept : test element = true
      · rw [List.filter_cons_of_pos kept, List.eraseDups_cons, List.filter_filter]
        obtain ⟨other, later⟩ := behind (fun member => (!member == element) && test member) (by simp)
        refine List.pairwise_cons.mpr ⟨fun member listed => ?_, later⟩
        rw [List.idxOf_cons_self, List.idxOf_cons_ne _ (other member listed)]
        exact Nat.succ_pos _
      · rw [List.filter_cons_of_neg kept]
        exact (behind test (Bool.eq_false_iff.mpr kept)).2

/-- The classes of elements that are listed once hold these elements. -/
theorem flatMap_classes_perm {α : Type u} {κ : Type v} [BEq κ] [LawfulBEq κ] (key : α → κ)
    {elements : List α} (nodup : elements.Nodup) :
    ((elements.map key).eraseDups.flatMap fun shared =>
      elements.filter fun element => key element == shared).Perm elements := by
  have once : ((elements.map key).eraseDups.flatMap fun shared =>
      elements.filter fun element => key element == shared).Nodup := by
    refine List.nodup_flatMap.mpr ⟨fun shared _ => nodup.filter _, ?_⟩
    refine (nodup_eraseDups (elements.map key)).imp ?_
    intro shared other different element held again
    simp only [List.mem_filter, beq_iff_eq] at held again
    exact different (held.2.symm.trans again.2)
  refine (List.perm_ext_iff_of_nodup once nodup).mpr fun element => ?_
  rw [List.mem_flatMap]
  constructor
  · rintro ⟨shared, -, held⟩
    exact (List.mem_filter.mp held).1
  · intro listed
    refine ⟨key element, ?_, List.mem_filter.mpr ⟨listed, BEq.rfl⟩⟩
    exact List.mem_eraseDups.mpr (List.mem_map.mpr ⟨element, listed, rfl⟩)

end FontCompiler
