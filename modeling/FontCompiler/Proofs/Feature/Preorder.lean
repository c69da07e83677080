import FontCompiler.Proofs.Collection.Sorting
import FontCompiler.Proofs.Feature.MarkClasses

/-!
# The walk through a feature file is the preorder

The walk keeps a stack of the statements that it still has to visit. It takes the statement on
top, and puts the statements inside it on the stack instead, the last of them first. After as many
steps as there are statements the stack is empty, and the statements have been visited in the
order in which a reader meets them. So what the statements of two files hold is what those of the
first file hold and then those of the second.
-/

namespace FontCompiler

namespace Statement

mutual

/-- A statement and then the statements inside it, in source order. -/
def preorder : Statement → List Statement
  | block kind name body => block kind name body :: preorderAll body
  | statement => [statement]

/-- The statements of a list, each with those inside it, in source order. -/
def preorderAll : List Statement → List Statement
  | [] => []
  | first :: rest => preorder first ++ preorderAll rest

end

theorem preorder_eq (statement : Statement) :
    statement.preorder = statement :: preorderAll statement.children := by
  cases statement <;> simp [preorder, preorderAll, children]

theorem preorderAll_append (first second : List Statement) :
    preorderAll (first ++ second) = preorderAll first ++ preorderAll second := by
  induction first with
  | nil => simp [preorderAll]
  | cons statement rest ih => simp [preorderAll, ih]

/-- The walk visits the statements of its agenda in preorder. -/
theorem visit_eq_preorderAll (agenda : List Statement) : visit agenda = preorderAll agenda := by
  induction agenda using visit.induct with
  | case1 => rw [visit_nil, preorderAll]
  | case2 first rest ih =>
      rw [visit_cons, ih, preorderAll_append, preorderAll, preorder_eq, List.cons_append]

end Statement

open Statement

/-- A walk on its way: what it has visited, and what it has still to visit, the next statement
last. -/
structure Walk where
  visited : List Statement
  stack : List Statement

namespace Walk

/-- Take the last statement from the stack, and put those inside it there instead. A walk whose
stack is empty has ended. -/
def step? (walk : Walk) : Option Walk :=
  walk.stack.getLast?.map fun next =>
    ⟨walk.visited ++ [next], walk.stack.dropLast ++ next.children.reverse⟩

def steps : Nat → Walk → Option Walk
  | 0, walk => some walk
  | count + 1, walk => walk.step?.bind (steps count)

theorem step?_concat (visited stack : List Statement) (next : Statement) :
    step? ⟨visited, stack ++ [next]⟩ =
      some ⟨visited ++ [next], stack ++ next.children.reverse⟩ := by
  unfold step?
  rw [List.getLast?_concat, List.dropLast_concat]
  rfl

/-- Each statement is visited in one step, and what is inside it before what comes after it. -/
theorem steps_preorderAll (agenda visited : List Statement) :
    steps (preorderAll agenda).length ⟨visited, agenda.reverse⟩ =
      some ⟨visited ++ preorderAll agenda, []⟩ := by
  induction agenda using visit.induct generalizing visited with
  | case1 => simp [preorderAll, steps]
  | case2 first rest ih =>
      have walked := ih (visited ++ [first])
      rw [List.reverse_append, preorderAll_append] at walked
      rw [List.reverse_cons, preorderAll, preorder_eq, List.cons_append, List.length_cons, steps,
        step?_concat, Option.bind_some, walked, List.append_assoc, List.singleton_append]

end Walk

/-- The walk through a feature file ends after as many steps as the file has statements, and it has
visited them in preorder. So two files one after the other have the names of classes and lookups of
both, the mark classes of the first overlaid with those of the second, and the substitution rules
of the first and then those of the second. -/
theorem FeatureFile.walk_is_preorder (file : FeatureFile) :
    file.allStatements = preorderAll file.statements ∧
    Walk.steps file.allStatements.length ⟨[], file.statements.reverse⟩ =
      some ⟨file.allStatements, []⟩ ∧
    ∀ other : FeatureFile,
      (file.append other.statements).classNames = file.classNames.union other.classNames ∧
      (file.append other.statements).lookupNames = file.lookupNames.union other.lookupNames ∧
      (file.append other.statements).markClasses =
        overlayMarkClasses file.markClasses other.markClasses ∧
      (∀ className glyph, (file.append other.statements).markPlace? className glyph =
        (other.markPlace? className glyph).or (file.markPlace? className glyph)) ∧
      (file.append other.statements).substitutions = file.substitutions ++ other.substitutions := by
  have visited : file.allStatements = preorderAll file.statements := visit_eq_preorderAll _
  refine ⟨visited, ?_, fun other => ⟨?_, ?_, file.markClasses_append other.statements, ?_, ?_⟩⟩
  · rw [visited]
    exact Walk.steps_preorderAll file.statements []
  · unfold classNames
    rw [allStatements_append, List.filterMap_append, SortedSet.ofList_append]
    rfl
  · unfold lookupNames
    rw [allStatements_append, List.filterMap_append, SortedSet.ofList_append]
    rfl
  · intro className glyph
    rw [markPlace?, markClasses_append]
    exact placeIn?_overlayMarkClasses _ _ className glyph
  · unfold substitutions
    rw [allStatements_append, List.filterMap_append]
    rfl

end FontCompiler
