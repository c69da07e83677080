/-!
# What is left to visit

A search that never visits a name twice ends, because each visit leaves fewer
of finitely many names. This module counts the names that are left.
-/

namespace FontCompiler

universe u

variable {α : Type u} [DecidableEq α]

/-- The number of listed values that have not been visited. -/
def remaining (all visited : List α) : Nat :=
  (all.filter fun value => !visited.contains value).length

theorem remaining_le_of_subset {all visited further : List α}
    (kept : ∀ value ∈ visited, value ∈ further) :
    remaining all further ≤ remaining all visited := by
  unfold remaining
  rw [← List.countP_eq_length_filter, ← List.countP_eq_length_filter]
  refine List.countP_mono_left fun value _ fresh => ?_
  simp only [Bool.not_eq_true', List.contains_eq_mem, decide_eq_false_iff_not] at fresh ⊢
  exact fun old => fresh (kept value old)

/-- Visiting a fresh listed value leaves fewer to visit. -/
theorem remaining_lt {all visited further : List α} {value : α} (listed : value ∈ all)
    (fresh : value ∉ visited) (now : value ∈ further) (kept : ∀ other ∈ visited, other ∈ further) :
    remaining all further < remaining all visited := by
  induction all with
  | nil => cases listed
  | cons first rest ih =>
      have shorter : remaining rest further ≤ remaining rest visited := remaining_le_of_subset kept
      unfold remaining at shorter ih ⊢
      by_cases same : first = value
      · subst same
        have after : further.contains first = true := by simpa using now
        have before : visited.contains first = false := by simpa using fresh
        simp only [List.filter_cons, after, before, Bool.not_true, Bool.not_false, if_true,
          Bool.false_eq_true, if_false, List.length_cons]
        omega
      · have step := ih ((List.mem_cons.mp listed).resolve_left fun equal => same equal.symm)
        by_cases before : first ∈ visited
        · have afterTrue : further.contains first = true := by simpa using kept first before
          have beforeTrue : visited.contains first = true := by simpa using before
          simpa only [List.filter_cons, afterTrue, beforeTrue, Bool.not_true, Bool.false_eq_true,
            if_false] using step
        · have beforeFalse : visited.contains first = false := by simpa using before
          by_cases after : first ∈ further
          · have afterTrue : further.contains first = true := by simpa using after
            simp only [List.filter_cons, afterTrue, beforeFalse, Bool.not_true, Bool.not_false,
              if_true, Bool.false_eq_true, if_false, List.length_cons]
            omega
          · have afterFalse : further.contains first = false := by simpa using after
            simpa only [List.filter_cons, afterFalse, beforeFalse, Bool.not_false, if_true,
              List.length_cons, Nat.succ_lt_succ_iff] using step

end FontCompiler
