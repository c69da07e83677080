import Mathlib.Data.List.Basic
import FontCompiler.Feature.File

/-!
# Walking through a feature file

The walk through a feature file takes its statements one after another, each
with what is inside it. Statements at the end of a file therefore only add
what they hold themselves.
-/

namespace FontCompiler

namespace Statement

@[simp] theorem visit_nil : visit [] = [] := by
  rw [visit]

theorem visit_cons (first : Statement) (rest : List Statement) :
    visit (first :: rest) = first :: visit (first.children ++ rest) := by
  rw [visit]

theorem visit_append (agenda later : List Statement) :
    visit (agenda ++ later) = visit agenda ++ visit later := by
  induction agenda using visit.induct with
  | case1 => rw [visit_nil, List.nil_append, List.nil_append]
  | case2 first rest ih =>
      rw [List.cons_append, visit_cons, visit_cons, ← List.append_assoc, ih, List.cons_append]

/-- The walk finds a statement where it stands or inside a block. -/
theorem mem_visit {statements : List Statement} {found : Statement} :
    found ∈ visit statements ↔
      ∃ statement ∈ statements, found = statement ∨ found ∈ visit statement.children := by
  induction statements with
  | nil => simp
  | cons first rest ih =>
      rw [visit_cons, visit_append, List.mem_cons, List.mem_append, ih, List.exists_mem_cons_iff,
        or_assoc]

/-- Among statements without blocks the walk finds just these. -/
theorem visit_of_flat {statements : List Statement}
    (flat : ∀ statement ∈ statements, statement.children = []) : visit statements = statements := by
  induction statements with
  | nil => exact visit_nil
  | cons first rest ih =>
      rw [visit_cons, flat first List.mem_cons_self, List.nil_append,
        ih fun statement later => flat statement (List.mem_cons_of_mem _ later)]

end Statement

namespace FeatureFile

theorem allStatements_append (file : FeatureFile) (added : List Statement) :
    (file.append added).allStatements = file.allStatements ++ Statement.visit added :=
  Statement.visit_append _ _

theorem mem_classNames_of_glyphClass {file : FeatureFile} {definition : GlyphClass}
    (listed : .glyphClass definition ∈ file.allStatements) : definition.name ∈ file.classNames :=
  SortedSet.mem_ofList.mpr (List.mem_filterMap.mpr ⟨_, listed, rfl⟩)

theorem mem_lookupNames_of_block {file : FeatureFile} {name : String} {body : List Statement}
    (listed : .block .lookup name body ∈ file.allStatements) : name ∈ file.lookupNames :=
  SortedSet.mem_ofList.mpr (List.mem_filterMap.mpr ⟨_, listed, rfl⟩)

end FeatureFile

end FontCompiler
