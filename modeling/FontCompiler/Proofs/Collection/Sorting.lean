import FontCompiler.Collection.SortedSet
import FontCompiler.Collection.Sorting

/-!
# Sorted lists and sets

Sorting only reorders. When elements that may stand in either order are equal,
the sorted list depends on the elements alone. What is made from a sorted set
depends on its members alone.
-/

namespace FontCompiler

universe u

section Lists

variable {α : Type u} {le : α → α → Bool}

theorem insertSorted_perm (le : α → α → Bool) (element : α) (elements : List α) :
    (insertSorted le element elements).Perm (element :: elements) := by
  induction elements with
  | nil => exact .refl _
  | cons first rest ih =>
      unfold insertSorted
      split
      · exact .refl _
      · exact (ih.cons first).trans (.swap element first rest)

theorem sortBy_perm (le : α → α → Bool) (elements : List α) :
    (sortBy le elements).Perm elements := by
  induction elements with
  | nil => exact .refl _
  | cons first rest ih => exact (insertSorted_perm le first _).trans (ih.cons first)

/-- Lists with the same elements are sorted to the same list, if only equal
elements may stand in either order. -/
theorem sortBy_eq_of_perm (trans : ∀ a b c, le a b = true → le b c = true → le a c = true)
    (total : ∀ a b, le a b = true ∨ le b a = true) {first second : List α}
    (ties : ∀ a ∈ first, ∀ b ∈ first, le a b = true → le b a = true → a = b)
    (same : first.Perm second) : sortBy le first = sortBy le second := by
  refine List.Perm.eq_of_pairwise (fun a b listed other => ?_)
    (pairwise_sortBy trans total first) (pairwise_sortBy trans total second)
    ((sortBy_perm le first).trans (same.trans (sortBy_perm le second).symm))
  exact ties a (mem_sortBy.mp listed) b (same.mem_iff.mpr (mem_sortBy.mp other))

end Lists

namespace SortedSet

variable {α : Type u} [Ord α] [Std.TransOrd α] {set : SortedSet α}

theorem filter_congr {test other : α → Bool} (same : ∀ member ∈ set, test member = other member) :
    set.filter test = set.filter other :=
  ext fun member => by
    rw [mem_filter, mem_filter]
    exact and_congr_right fun held => by rw [same member held]

theorem ofList_congr [Std.LawfulEqOrd α] {members others : List α}
    (same : ∀ member, member ∈ members ↔ member ∈ others) : ofList members = ofList others :=
  ext fun member => by rw [mem_ofList, mem_ofList, same]

theorem ofList_append [Std.LawfulEqOrd α] (members others : List α) :
    ofList (members ++ others) = (ofList members).union (ofList others) :=
  ext fun member => by simp

end SortedSet

end FontCompiler
