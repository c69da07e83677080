import FontCompiler.Proofs.Attachment.CursivePlan
import FontCompiler.Proofs.Attachment.MarkAdditions
import FontCompiler.Proofs.Kerning.Additions

/-!
# What the built-in writers contribute

A built-in writer makes a contribution to the feature file, which may be empty,
and reports whether it is. The contributions of a run follow one another in the
file in the order in which the writers run.
-/

namespace FontCompiler

open Statement

section Writing

variable {α : Type}

/-- The file with a contribution in it. -/
def Written.contributing (contribution : Contribution) (file : FeatureFile)
    (notices : List (Notice α)) : Written α :=
  ⟨contribution.applyTo file, !contribution.isEmpty, notices⟩

theorem Written.unchanged_eq_contributing (file : FeatureFile) (notices : List (Notice α)) :
    unchanged file notices = contributing {} file notices := by
  rw [contributing, Contribution.applyTo_empty]
  rfl

theorem Written.appending_eq_contributing (statements : List Statement) (file : FeatureFile)
    (notices : List (Notice α)) :
    appending statements file notices = contributing { appended := statements } file notices := by
  unfold appending
  split
  · next none =>
      rw [List.isEmpty_iff.mp none]
      exact unchanged_eq_contributing file notices
  · next some =>
      have wrote : Contribution.isEmpty { appended := statements } = false := by
        simpa [Contribution.isEmpty] using some
      rw [contributing, wrote, Contribution.applyTo, FeatureFile.extendTable_nil]
      rfl

/-- The statements are at the end of the file, also if there are none. -/
theorem Written.file_appending (statements : List Statement) (file : FeatureFile)
    (notices : List (Notice α)) :
    (appending statements file notices).file = file.append statements := by
  rw [appending_eq_contributing]
  exact congrArg (FeatureFile.append statements) (FeatureFile.extendTable_nil _ file)

namespace WriterRun

/-- A run with the report and the notices of a writer before it. -/
def preceded (later : WriterRun α) (report : WriterReport) (notices : List (Notice α)) :
    WriterRun α :=
  { file := later.file
    notices := notices ++ later.notices
    reports := later.reports.map fun reports => report :: reports }

variable {later : WriterRun α} {report : WriterReport} {notices : List (Notice α)}

/-- A run succeeds only if its later writers do. -/
theorem exists_reports_of_preceded {reports : List WriterReport}
    (succeeds : (later.preceded report notices).reports = .ok reports) :
    ∃ laterReports, later.reports = .ok laterReports := by
  unfold preceded at succeeds
  cases found : later.reports with
  | ok laterReports => exact ⟨laterReports, rfl⟩
  | error error =>
      rw [found] at succeeds
      cases succeeds

/-- A run fails as its later writers do. -/
theorem reports_eq_error_of_preceded {error : WriterError}
    (failed : (later.preceded report notices).reports = .error error) :
    later.reports = .error error := by
  unfold preceded at failed
  cases found : later.reports with
  | ok laterReports =>
      rw [found] at failed
      cases failed
  | error other =>
      rw [found] at failed
      exact failed

end WriterRun

end Writing

namespace DefinitionWriter

variable {α : Type} [Coordinate α]

/-- The statements for the table of glyph definitions, or the table if the file has none. -/
def contribution (writer : DefinitionWriter) (context : LayoutContext α) (file : FeatureFile) :
    Contribution :=
  match file.table? FeatureFile.definitionBlock with
  | some table =>
      if writer.overlap = .skip then {} else { definitions := missing context.view table }
  | none =>
      { appended := if (missing context.view []).isEmpty then []
          else [.block .table FeatureFile.definitionBlock (missing context.view [])] }

theorem write_eq_contributing (writer : DefinitionWriter) (context : LayoutContext α)
    (file : FeatureFile) :
    ∃ notices, writer.write context file =
      .contributing (writer.contribution context file) file notices := by
  unfold write contribution
  cases file.table? FeatureFile.definitionBlock with
  | none => exact ⟨_, Written.appending_eq_contributing _ _ _⟩
  | some table =>
      dsimp only
      by_cases skip : writer.overlap = .skip
      · rw [if_pos skip, if_pos skip]
        exact ⟨_, Written.unchanged_eq_contributing _ _⟩
      · rw [if_neg skip, if_neg skip]
        split
        · next none =>
            rw [List.isEmpty_iff.mp none]
            exact ⟨_, Written.unchanged_eq_contributing _ _⟩
        · next some =>
            have wrote :
                Contribution.isEmpty { definitions := missing context.view table } = false := by
              simpa [Contribution.isEmpty] using some
            refine ⟨[], ?_⟩
            rw [Written.contributing, wrote, Contribution.applyTo, FeatureFile.append,
              List.append_nil]
            rfl

/-- A table lacks lists of classes and carets of ligatures, and nothing else. -/
theorem of_mem_missing {view : FontView α} {table : List Statement} {statement : Statement}
    (listed : statement ∈ missing view table) :
    (∃ lists, statement = .glyphClassLists lists) ∨
      ∃ glyph positions, statement = .ligatureCarets glyph positions := by
  unfold missing at listed
  rcases List.mem_append.mp listed with classes | carets
  · split at classes
    · cases classes
    · obtain ⟨lists, -, rfl⟩ := List.mem_map.mp classes
      exact .inl ⟨lists, rfl⟩
  · obtain ⟨entry, -, rfl⟩ := List.mem_map.mp carets
    exact .inr ⟨_, _, rfl⟩

theorem visit_missing (view : FontView α) (table : List Statement) :
    visit (missing view table) = missing view table := by
  refine visit_of_flat fun statement listed => ?_
  rcases of_mem_missing listed with ⟨lists, rfl⟩ | ⟨glyph, positions, rfl⟩ <;> rfl

variable {writer : DefinitionWriter} {context : LayoutContext α} {file : FeatureFile}

theorem of_mem_visit_definitions {statement : Statement}
    (listed : statement ∈ visit (writer.contribution context file).definitions) :
    (∃ lists, statement = .glyphClassLists lists) ∨
      ∃ glyph positions, statement = .ligatureCarets glyph positions := by
  unfold contribution at listed
  split at listed
  · split at listed
    · rw [visit_nil] at listed
      cases listed
    · rw [visit_missing] at listed
      exact of_mem_missing listed
  · rw [visit_nil] at listed
    cases listed

theorem of_mem_visit_appended {statement : Statement}
    (listed : statement ∈ visit (writer.contribution context file).appended) :
    (∃ body, statement = .block .table FeatureFile.definitionBlock body) ∨
      (∃ lists, statement = .glyphClassLists lists) ∨
      ∃ glyph positions, statement = .ligatureCarets glyph positions := by
  unfold contribution at listed
  split at listed
  · split at listed
    · rw [visit_nil] at listed
      cases listed
    · rw [visit_nil] at listed
      cases listed
  · dsimp only at listed
    split at listed
    · rw [visit_nil] at listed
      cases listed
    · rw [visit_cons, List.append_nil, children, visit_missing] at listed
      rcases List.mem_cons.mp listed with rfl | inside
      · exact .inl ⟨_, rfl⟩
      · exact .inr (of_mem_missing inside)

theorem allMadeBy_contribution :
    AllMadeBy .definitions (writer.contribution context file).definitions ∧
      AllMadeBy .definitions (writer.contribution context file).appended := by
  constructor
  · intro statement listed
    rcases of_mem_visit_definitions listed with ⟨lists, rfl⟩ | ⟨glyph, positions, rfl⟩
    · exact .glyphClassLists lists
    · exact .ligatureCarets glyph positions
  · intro statement listed
    rcases of_mem_visit_appended listed with
      ⟨body, rfl⟩ | ⟨lists, rfl⟩ | ⟨glyph, positions, rfl⟩
    · exact .table body
    · exact .glyphClassLists lists
    · exact .ligatureCarets glyph positions

/-- Glyph definitions name no lookup and no class, so they fit every file. -/
theorem fits_contribution : (writer.contribution context file).Fits file := by
  have plain : ∀ statement ∈ visit (writer.contribution context file).appended,
      statement.DefinesNothing ∧ statement.lookupUses = [] ∧ statement.classUses = [] := by
    intro statement listed
    rcases of_mem_visit_appended listed with
      ⟨body, rfl⟩ | ⟨lists, rfl⟩ | ⟨glyph, positions, rfl⟩ <;>
        exact ⟨⟨rfl, rfl, rfl⟩, rfl, rfl⟩
  obtain ⟨noLookup, noClass, noMark⟩ :=
    defined_eq_nil fun statement listed => (plain statement listed).1
  refine ⟨fun statement listed => ?_, ⟨file.lookupNames, ?_⟩, ⟨file.classNames, ?_⟩,
    fun name listed => ?_, fun statement listed name used => ?_,
    fun statement listed name used => ?_⟩
  · rcases of_mem_visit_definitions listed with ⟨lists, rfl⟩ | ⟨glyph, positions, rfl⟩ <;>
      exact ⟨⟨rfl, rfl, rfl⟩, rfl, rfl⟩
  · rw [noLookup]
    exact .start _
  · rw [noClass]
    exact .start _
  · rw [noMark] at listed
    cases listed
  · rw [(plain statement listed).2.1] at used
    cases used
  · rw [(plain statement listed).2.2] at used
    cases used

end DefinitionWriter

namespace BuiltinWriter

def kind : BuiltinWriter → BuiltinKind
  | kern _ => .kern
  | mark _ => .mark
  | cursive _ => .cursive
  | definitions _ => .definitions

/-- What the writer does about features that the file has already. -/
def overlap : BuiltinWriter → OverlapPolicy
  | kern writer => writer.overlap
  | mark writer => writer.overlap
  | cursive writer => writer.overlap
  | definitions writer => writer.overlap

/-- The step of the grid on which the writer works. -/
def step : BuiltinWriter → Nat
  | kern writer => writer.quantization
  | mark writer => writer.quantization
  | cursive _ => 1
  | definitions _ => 1

variable {α : Type} [Coordinate α]

def contribution (writer : BuiltinWriter) (context : LayoutContext α) (file : FeatureFile) :
    Contribution :=
  match writer with
  | kern writer => { appended := writer.statements context file }
  | mark writer => { appended := writer.additions context file }
  | cursive writer => { appended := writer.additions context file }
  | definitions writer => writer.contribution context file

variable {writer : BuiltinWriter} {context : LayoutContext α} {file : FeatureFile}

@[simp] theorem contribution_kern (writer : KernWriter) :
    (kern writer).contribution context file = { appended := writer.statements context file } := rfl

@[simp] theorem contribution_mark (writer : MarkWriter) :
    (mark writer).contribution context file = { appended := writer.additions context file } := rfl

@[simp] theorem contribution_cursive (writer : CursiveWriter) :
    (cursive writer).contribution context file =
      { appended := writer.additions context file } := rfl

@[simp] theorem contribution_definitions (writer : DefinitionWriter) :
    (definitions writer).contribution context file = writer.contribution context file := rfl

theorem name_toWriter (writer : BuiltinWriter) :
    (writer.toWriter : Writer α).name = writer.kind.name := by
  cases writer <;> rfl

/-- On a grid with a step the writer makes its contribution. -/
theorem write_eq_contributing (step : writer.step ≠ 0) (context : LayoutContext α)
    (file : FeatureFile) : ∃ notices, writer.toWriter.write context file =
      .ok (.contributing (writer.contribution context file) file notices) := by
  cases writer with
  | kern writer =>
      obtain ⟨notices, wrote⟩ := @KernWriter.write_eq_appending α _ writer context file step
      exact ⟨notices, wrote.trans (congrArg _ (Written.appending_eq_contributing _ _ _))⟩
  | mark writer =>
      obtain ⟨notices, wrote⟩ := @MarkWriter.write_eq_appending α _ writer context file step
      exact ⟨notices, wrote.trans (congrArg _ (Written.appending_eq_contributing _ _ _))⟩
  | cursive writer =>
      obtain ⟨notices, wrote⟩ := @CursiveWriter.write_eq_appending α _ writer context file
      exact ⟨notices, congrArg _ (wrote.trans (Written.appending_eq_contributing _ _ _))⟩
  | definitions writer =>
      obtain ⟨notices, wrote⟩ := writer.write_eq_contributing context file
      exact ⟨notices, congrArg _ wrote⟩

/-- On a grid without a step the writer fails. -/
theorem write_eq_error (noStep : writer.step = 0) (context : LayoutContext α)
    (file : FeatureFile) : writer.toWriter.write context file = .error .zeroQuantization := by
  cases writer with
  | kern writer => exact if_pos noStep
  | mark writer => exact if_pos noStep
  | cursive writer => cases noStep
  | definitions writer => cases noStep

/-- Built-in writers all write after the substitutions, so they run in the order given. -/
theorem runOrder_map_toWriter (writers : List BuiltinWriter) :
    runOrder (writers.map (toWriter : BuiltinWriter → Writer α)) = writers.map toWriter := by
  have later : ∀ writer : BuiltinWriter,
      (writer.toWriter : Writer α).table ≠ substitutionTable := by
    have positions : positionTable ≠ substitutionTable := by decide
    have definitions : definitionTable ≠ substitutionTable := by decide
    intro writer
    cases writer with
    | kern writer => exact positions
    | mark writer => exact positions
    | cursive writer => exact positions
    | definitions writer => exact definitions
  unfold runOrder
  rw [List.filter_eq_nil_iff.mpr, List.filter_eq_self.mpr, List.nil_append]
  · intro writer listed
    obtain ⟨builtin, -, rfl⟩ := List.mem_map.mp listed
    exact decide_eq_true (later builtin)
  · intro writer listed
    obtain ⟨builtin, -, rfl⟩ := List.mem_map.mp listed
    exact fun first => later builtin (of_decide_eq_true first)

/-- The first writer of a run fails on a grid without a step, or the run goes on from
its contribution. -/
theorem runWriters_cons_cases (writer : BuiltinWriter) (context : LayoutContext α)
    (file : FeatureFile) (rest : List (Writer α)) :
    writer.step = 0 ∧ runWriters context file (writer.toWriter :: rest) =
        ⟨file, [], .error .zeroQuantization⟩ ∨
      writer.step ≠ 0 ∧ ∃ notices, runWriters context file (writer.toWriter :: rest) =
        (runWriters context ((writer.contribution context file).applyTo file) rest).preceded
          ⟨writer.kind.name, !(writer.contribution context file).isEmpty⟩ notices := by
  rw [runWriters]
  by_cases noStep : writer.step = 0
  · rw [writer.write_eq_error noStep]
    exact .inl ⟨noStep, rfl⟩
  · obtain ⟨notices, wrote⟩ := writer.write_eq_contributing noStep context file
    rw [wrote, name_toWriter]
    exact .inr ⟨noStep, notices, rfl⟩

/-- The file after some writers, one after the other. -/
def fileAfter (context : LayoutContext α) (file : FeatureFile) (writers : List BuiltinWriter) :
    FeatureFile :=
  writers.foldl (fun current writer => (writer.contribution context current).applyTo current) file

/-- What some writers report, one after the other. -/
def reportsAfter (context : LayoutContext α) (file : FeatureFile) :
    List BuiltinWriter → List WriterReport
  | [] => []
  | writer :: rest =>
      ⟨writer.kind.name, !(writer.contribution context file).isEmpty⟩ ::
        reportsAfter context ((writer.contribution context file).applyTo file) rest

/-- On grids with steps all writers of a run make their contributions. -/
theorem runWriters_eq (context : LayoutContext α) (file : FeatureFile)
    {writers : List BuiltinWriter} (steps : ∀ writer ∈ writers, writer.step ≠ 0) :
    (runWriters context file (writers.map toWriter)).file = fileAfter context file writers ∧
      (runWriters context file (writers.map toWriter)).reports =
        .ok (reportsAfter context file writers) := by
  induction writers generalizing file with
  | nil => exact ⟨rfl, rfl⟩
  | cons writer rest ih =>
      obtain ⟨files, reports⟩ := ih ((writer.contribution context file).applyTo file)
        fun other listed => steps other (List.mem_cons_of_mem _ listed)
      rcases writer.runWriters_cons_cases context file (rest.map toWriter) with
        ⟨noStep, -⟩ | ⟨-, notices, goesOn⟩
      · exact absurd noStep (steps writer List.mem_cons_self)
      · rw [List.map_cons, goesOn, WriterRun.preceded, files, reports]
        exact ⟨rfl, rfl⟩

/-- A run succeeds only on grids with steps. -/
theorem step_ne_zero_of_runWriters {writers : List BuiltinWriter} {reports : List WriterReport}
    (succeeds : (runWriters context file (writers.map toWriter)).reports = .ok reports) :
    ∀ writer ∈ writers, writer.step ≠ 0 := by
  induction writers generalizing file reports with
  | nil => exact fun _ listed => nomatch listed
  | cons writer rest ih =>
      rw [List.map_cons] at succeeds
      rcases writer.runWriters_cons_cases context file (rest.map toWriter) with
        ⟨-, stops⟩ | ⟨step, notices, goesOn⟩
      · rw [stops] at succeeds
        cases succeeds
      · rw [goesOn] at succeeds
        obtain ⟨laterReports, later⟩ := WriterRun.exists_reports_of_preceded succeeds
        intro other listed
        rcases List.mem_cons.mp listed with rfl | further
        · exact step
        · exact ih later other further

theorem allMadeBy_contribution (writer : BuiltinWriter) (context : LayoutContext α)
    (file : FeatureFile) :
    AllMadeBy writer.kind (writer.contribution context file).definitions ∧
      AllMadeBy writer.kind (writer.contribution context file).appended := by
  cases writer with
  | kern writer =>
      refine ⟨.nil, ?_⟩
      rcases writer.statements_cases context file with none | same
      · rw [contribution_kern, none]
        exact .nil
      · rw [contribution_kern, same]
        exact KernSetting.allMadeBy_additions
  | mark writer => exact ⟨.nil, MarkWriter.allMadeBy_statements⟩
  | cursive writer => exact ⟨.nil, CursiveWriter.allMadeBy_additions⟩
  | definitions writer => exact DefinitionWriter.allMadeBy_contribution

/-- What a writer contributes to a coherent file fits it. -/
theorem fits_contribution (writer : BuiltinWriter) (context : LayoutContext α)
    (coherent : file.Coherent) : (writer.contribution context file).Fits file := by
  cases writer with
  | kern writer =>
      rcases writer.statements_cases context file with none | same
      · rw [contribution_kern, none]
        exact Contribution.fits_empty file
      · rw [contribution_kern, same]
        exact KernSetting.fits_additions
  | mark writer => exact MarkWriter.fits_statements coherent
  | cursive writer => exact CursiveWriter.fits_additions
  | definitions writer => exact DefinitionWriter.fits_contribution

end BuiltinWriter

end FontCompiler
