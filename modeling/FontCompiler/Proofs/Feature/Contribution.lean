import FontCompiler.Proofs.Feature.Meaning
import FontCompiler.Proofs.Feature.Walk

/-!
# Contributions to a feature file

A writer adds statements at the end of a feature file, or at the end of the table
of glyph definitions that the file has. Whatever is read from the file statement
by statement then changes by what is read from the added statements only.
-/

namespace FontCompiler

@[simp] theorem Statement.body?_block (kind : BlockKind) (name : String) (body : List Statement) :
    (block kind name body).body? kind name = some body := by
  simp [body?]

namespace FeatureFile

variable {name : String}

theorem extendFirstTable_table (added body rest : List Statement) :
    extendFirstTable name added (.block .table name body :: rest) =
      .block .table name (body ++ added) :: rest := by
  simp [extendFirstTable]

theorem extendFirstTable_other {first : Statement} (other : first.body? .table name = none)
    (added rest : List Statement) :
    extendFirstTable name added (first :: rest) = first :: extendFirstTable name added rest := by
  simp [extendFirstTable, other]

theorem extendFirstTable_nil (name : String) (statements : List Statement) :
    extendFirstTable name [] statements = statements := by
  induction statements with
  | nil => rfl
  | cons first rest ih =>
      cases found : first.body? .table name with
      | none => rw [extendFirstTable_other found, ih]
      | some body =>
          rw [Statement.eq_block_of_body? found, extendFirstTable_table, List.append_nil]

@[simp] theorem extendTable_nil (name : String) (file : FeatureFile) :
    file.extendTable name [] = file := by
  rw [extendTable, extendFirstTable_nil]

/-- The table is longer by what was added to it. -/
theorem table?_extendTable (name : String) (added : List Statement) (file : FeatureFile) :
    (file.extendTable name added).table? name = (file.table? name).map (· ++ added) := by
  unfold table? extendTable
  induction file.statements with
  | nil => rfl
  | cons first rest ih =>
      cases found : first.body? .table name with
      | none =>
          rw [extendFirstTable_other found, List.findSome?_cons, List.findSome?_cons, found]
          exact ih
      | some body =>
          rw [Statement.eq_block_of_body? found, extendFirstTable_table, List.findSome?_cons,
            List.findSome?_cons, Statement.body?_block, Statement.body?_block]
          rfl

theorem extendTable_extendTable (name : String) (earlier later : List Statement)
    (file : FeatureFile) :
    (file.extendTable name earlier).extendTable name later =
      file.extendTable name (earlier ++ later) := by
  refine congrArg FeatureFile.mk ?_
  obtain ⟨statements⟩ := file
  unfold extendTable
  dsimp only
  induction statements with
  | nil => rfl
  | cons first rest ih =>
      cases found : first.body? .table name with
      | none =>
          rw [extendFirstTable_other found, extendFirstTable_other found,
            extendFirstTable_other found, ih]
      | some body =>
          rw [Statement.eq_block_of_body? found, extendFirstTable_table, extendFirstTable_table,
            extendFirstTable_table, List.append_assoc]

/-- What is added to a table that the file has does not reach later statements. -/
theorem extendTable_append {file : FeatureFile} (present : file.hasTable name = true)
    (added later : List Statement) :
    (file.append later).extendTable name added = (file.extendTable name added).append later := by
  refine congrArg FeatureFile.mk ?_
  obtain ⟨statements⟩ := file
  unfold hasTable table? at present
  unfold append extendTable
  dsimp only at present ⊢
  induction statements with
  | nil => cases present
  | cons first rest ih =>
      cases found : first.body? .table name with
      | none =>
          rw [List.findSome?_cons, found] at present
          rw [List.cons_append, extendFirstTable_other found, extendFirstTable_other found,
            ih present, List.cons_append]
      | some body =>
          rw [Statement.eq_block_of_body? found, List.cons_append, extendFirstTable_table,
            extendFirstTable_table, List.cons_append]

section Reading

variable {β : Type} {pick : Statement → Option β}

theorem filterMap_extendFirstTable (blind : ∀ body, pick (.block .table name body) = none)
    (added statements : List Statement) :
    (extendFirstTable name added statements).filterMap pick = statements.filterMap pick := by
  induction statements with
  | nil => rfl
  | cons first rest ih =>
      cases found : first.body? .table name with
      | none =>
          rw [extendFirstTable_other found, List.filterMap_cons, List.filterMap_cons, ih]
      | some body =>
          rw [Statement.eq_block_of_body? found, extendFirstTable_table,
            List.filterMap_cons_none (blind _), List.filterMap_cons_none (blind _)]

/-- Statements in a table that are passed over do not change what is read from the whole file. -/
theorem filterMap_visit_extendFirstTable (blind : ∀ body, pick (.block .table name body) = none)
    {added : List Statement} (silent : (Statement.visit added).filterMap pick = [])
    (statements : List Statement) :
    (Statement.visit (extendFirstTable name added statements)).filterMap pick =
      (Statement.visit statements).filterMap pick := by
  induction statements with
  | nil => rfl
  | cons first rest ih =>
      cases found : first.body? .table name with
      | none =>
          rw [extendFirstTable_other found, Statement.visit_cons, Statement.visit_cons,
            Statement.visit_append, Statement.visit_append, List.filterMap_cons,
            List.filterMap_cons, List.filterMap_append, List.filterMap_append, ih]
      | some body =>
          rw [Statement.eq_block_of_body? found, extendFirstTable_table, Statement.visit_cons,
            Statement.visit_cons, List.filterMap_cons_none (blind _),
            List.filterMap_cons_none (blind _)]
          simp only [Statement.children, Statement.visit_append, List.filterMap_append, silent,
            List.append_nil]

end Reading

theorem hasFeature_iff {file : FeatureFile} :
    file.hasFeature name = true ↔ ∃ body, .block .feature name body ∈ file.statements := by
  unfold hasFeature
  rw [List.any_eq_true]
  constructor
  · rintro ⟨statement, listed, found⟩
    obtain ⟨body, same⟩ := Option.isSome_iff_exists.mp found
    rw [Statement.eq_block_of_body? same] at listed
    exact ⟨body, listed⟩
  · rintro ⟨body, listed⟩
    exact ⟨_, listed, by rw [Statement.body?_block]; rfl⟩

end FeatureFile

/-- Statements for the table of glyph definitions that a file has, and statements
for the end of the file. -/
structure Contribution where
  definitions : List Statement := []
  appended : List Statement := []

namespace Contribution

def isEmpty (contribution : Contribution) : Bool :=
  contribution.definitions.isEmpty && contribution.appended.isEmpty

/-- The file with the contribution in it. -/
def applyTo (contribution : Contribution) (file : FeatureFile) : FeatureFile :=
  (file.extendTable FeatureFile.definitionBlock contribution.definitions).append
    contribution.appended

variable {contribution : Contribution} {file : FeatureFile}

theorem applyTo_empty (file : FeatureFile) : ({} : Contribution).applyTo file = file := by
  simp [applyTo, FeatureFile.append]

/-- One contribution after another is a single contribution, if what the later one
adds to the table goes to a table that the file has. -/
theorem applyTo_applyTo {later : Contribution}
    (present : file.hasTable FeatureFile.definitionBlock = true ∨ later.definitions = []) :
    later.applyTo (contribution.applyTo file) =
      applyTo ⟨contribution.definitions ++ later.definitions,
        contribution.appended ++ later.appended⟩ file := by
  have extended : ((contribution.applyTo file).extendTable FeatureFile.definitionBlock
        later.definitions) =
      (file.extendTable FeatureFile.definitionBlock
        (contribution.definitions ++ later.definitions)).append contribution.appended := by
    rcases present with table | none
    · have longer : (file.extendTable FeatureFile.definitionBlock
          contribution.definitions).hasTable FeatureFile.definitionBlock = true := by
        rw [FeatureFile.hasTable, FeatureFile.table?_extendTable, Option.isSome_map]
        exact table
      rw [applyTo, FeatureFile.extendTable_append longer, FeatureFile.extendTable_extendTable]
    · rw [none, FeatureFile.extendTable_nil, List.append_nil, applyTo]
  rw [applyTo, extended, applyTo, FeatureFile.append, FeatureFile.append, FeatureFile.append,
    List.append_assoc]

/-- Contributions one after another are a single contribution. -/
theorem foldl_applyTo {contributions : List Contribution}
    (present : ∀ later ∈ contributions,
      file.hasTable FeatureFile.definitionBlock = true ∨ later.definitions = []) :
    contributions.foldl (fun current later => later.applyTo current)
        (contribution.applyTo file) =
      applyTo ⟨contribution.definitions ++ contributions.flatMap definitions,
        contribution.appended ++ contributions.flatMap appended⟩ file := by
  induction contributions generalizing contribution with
  | nil => rw [List.flatMap_nil, List.flatMap_nil, List.append_nil, List.append_nil]; rfl
  | cons first rest ih =>
      rw [List.foldl_cons, applyTo_applyTo (present first List.mem_cons_self),
        ih fun later listed => present later (List.mem_cons_of_mem _ listed), List.flatMap_cons,
        List.flatMap_cons, List.append_assoc, List.append_assoc]

section Reading

variable {β : Type} {pick : Statement → Option β}

theorem filterMap_statements (blind : ∀ name body, pick (.block .table name body) = none) :
    (contribution.applyTo file).statements.filterMap pick =
      file.statements.filterMap pick ++ contribution.appended.filterMap pick := by
  unfold applyTo FeatureFile.append FeatureFile.extendTable
  rw [List.filterMap_append, FeatureFile.filterMap_extendFirstTable (blind _)]

theorem filterMap_allStatements (blind : ∀ name body, pick (.block .table name body) = none)
    (silent : (Statement.visit contribution.definitions).filterMap pick = []) :
    (contribution.applyTo file).allStatements.filterMap pick =
      file.allStatements.filterMap pick ++
        (Statement.visit contribution.appended).filterMap pick := by
  rw [applyTo, FeatureFile.allStatements_append, List.filterMap_append]
  unfold FeatureFile.allStatements FeatureFile.extendTable
  rw [FeatureFile.filterMap_visit_extendFirstTable (blind _) silent]

end Reading

theorem table?_applyTo :
    (contribution.applyTo file).table? FeatureFile.definitionBlock =
      ((file.table? FeatureFile.definitionBlock).map (· ++ contribution.definitions)).or
        (contribution.appended.findSome? (Statement.body? .table FeatureFile.definitionBlock)) := by
  rw [← FeatureFile.table?_extendTable]
  exact List.findSome?_append

/-- The features of the new file are those of the old one and those contributed. -/
theorem hasFeature_applyTo {name : String} :
    (contribution.applyTo file).hasFeature name = true ↔ file.hasFeature name = true ∨
      ∃ body, .block .feature name body ∈ contribution.appended := by
  have read : ∀ statements : List Statement,
      (∃ body, .block .feature name body ∈ statements) ↔
        ∃ body, body ∈ statements.filterMap (Statement.body? .feature name) := fun statements => by
    simp only [List.mem_filterMap]
    constructor
    · rintro ⟨body, listed⟩
      exact ⟨body, _, listed, Statement.body?_block _ _ _⟩
    · rintro ⟨body, statement, listed, found⟩
      exact ⟨body, Statement.eq_block_of_body? found ▸ listed⟩
  rw [FeatureFile.hasFeature_iff, FeatureFile.hasFeature_iff, read, read, read,
    filterMap_statements fun table body => by simp [Statement.body?]]
  simp only [List.mem_append, exists_or]

end Contribution

end FontCompiler
