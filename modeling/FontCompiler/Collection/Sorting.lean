/-!
# Sorting

A list is sorted by inserting its elements one by one, the last one first. An
element goes before those that may stand after it, so elements that may stand
in either order keep the order that they had.
-/

namespace FontCompiler

universe u

variable {α : Type u} {le : α → α → Bool}

/-- Place an element before the first one that may stand after it. -/
def insertSorted (le : α → α → Bool) (element : α) : List α → List α
  | [] => [element]
  | first :: rest =>
      if le element first then element :: first :: rest else first :: insertSorted le element rest

def sortBy (le : α → α → Bool) (elements : List α) : List α :=
  elements.foldr (insertSorted le) []

theorem mem_insertSorted {element other : α} {elements : List α} :
    other ∈ insertSorted le element elements ↔ other = element ∨ other ∈ elements := by
  induction elements with
  | nil => simp [insertSorted]
  | cons first rest ih =>
      unfold insertSorted
      split
      · exact List.mem_cons
      · rw [List.mem_cons, List.mem_cons, ih, or_left_comm]

@[simp] theorem mem_sortBy {elements : List α} {element : α} :
    element ∈ sortBy le elements ↔ element ∈ elements := by
  induction elements with
  | nil => exact Iff.rfl
  | cons first rest ih =>
      rw [sortBy, List.foldr_cons, mem_insertSorted, ← sortBy, ih, List.mem_cons]

theorem pairwise_insertSorted (trans : ∀ a b c, le a b = true → le b c = true → le a c = true)
    (total : ∀ a b, le a b = true ∨ le b a = true) (element : α) {elements : List α}
    (sorted : elements.Pairwise fun first second => le first second = true) :
    (insertSorted le element elements).Pairwise fun first second => le first second = true := by
  induction elements with
  | nil => exact List.pairwise_singleton _ _
  | cons first rest ih =>
      obtain ⟨below, tail⟩ := List.pairwise_cons.mp sorted
      unfold insertSorted
      split
      · next before =>
          refine List.pairwise_cons.mpr ⟨fun other listed => ?_, sorted⟩
          rcases List.mem_cons.mp listed with rfl | later
          · exact before
          · exact trans _ _ _ before (below other later)
      · next after =>
          refine List.pairwise_cons.mpr ⟨fun other listed => ?_, ih tail⟩
          rcases mem_insertSorted.mp listed with rfl | later
          · exact (total _ _).resolve_left after
          · exact below other later

theorem pairwise_sortBy (trans : ∀ a b c, le a b = true → le b c = true → le a c = true)
    (total : ∀ a b, le a b = true ∨ le b a = true) (elements : List α) :
    (sortBy le elements).Pairwise fun first second => le first second = true := by
  induction elements with
  | nil => exact .nil
  | cons first rest ih => exact pairwise_insertSorted trans total first ih

end FontCompiler
