import FontCompiler.Proofs.Layout.Idempotence

/-!
# What authors wrote stays

A built-in writer leaves a file as it was, adds statements at its end, or adds to its
first table of glyph definitions. A writer that skips what a file has adds no block for
a feature or a table of the file, not even inside other blocks.
-/

namespace FontCompiler

open Statement

namespace Statement

/-- The kind and the name of a feature or of a table. -/
def heading? : Statement → Option (BlockKind × String)
  | block .feature name _ => some (.feature, name)
  | block .table name _ => some (.table, name)
  | _ => none

/-- The features and tables among some statements and inside them. -/
def headings (statements : List Statement) : List (BlockKind × String) :=
  (visit statements).filterMap heading?

@[simp] theorem headings_nil : headings [] = [] := by
  simp [headings]

theorem headings_append (statements others : List Statement) :
    headings (statements ++ others) = headings statements ++ headings others := by
  rw [headings, visit_append, List.filterMap_append]
  rfl

end Statement

/-! ## Features and tables that are added -/

section Headings

variable {row : BlockKind × String}

namespace MarkDraft

variable {file : FeatureFile} {glyphs : List AnchoredGlyph} {wanted : List String}

theorem headings_lookup (name className filterName : String) (plan : MarkPlan) :
    headings [.block .lookup name (plan.body className filterName)] = [] := by
  rw [headings, visit_lookup]
  refine List.filterMap_eq_nil_iff.mpr fun statement listed => ?_
  rcases List.mem_cons.mp listed with rfl | inside
  · rfl
  · rcases MarkPlan.of_mem_body inside with ⟨-, ⟨glyphs, rfl⟩ | rfl⟩ | ⟨rule, -, rfl⟩ <;> rfl

/-- Plans add neither features nor tables to the lookups of a draft. -/
theorem headings_foldl {draft : MarkDraft} (none : headings draft.lookups = [])
    (plans : List MarkPlan) :
    headings (plans.foldl (addPlan file glyphs) draft).lookups = [] := by
  induction plans generalizing draft with
  | nil => exact none
  | cons plan rest ih =>
      refine ih ?_
      rcases @addPlan_cases file glyphs draft plan with
        ⟨-, same⟩ | ⟨className, classes, -, -, same⟩
      · rw [same, none]
      · rw [same, addPlanned_eq]
        dsimp only
        rw [headings_append, none, headings_lookup, List.append_nil]

/-- A block without features or tables inside has one heading, if it is there at all. -/
theorem of_mem_headings_block {draft : MarkDraft} (none : headings draft.lookups = [])
    {feature : String} (listed : row ∈ headings (draft.block feature)) :
    row = (.feature, feature) ∧ draft.lookups ≠ [] := by
  rw [headings, visit_block] at listed
  split at listed
  · cases listed
  · next filled =>
      have heads : heading? (.block .feature feature draft.lookups) = some (.feature, feature) :=
        rfl
      rw [List.filterMap_cons_some heads, ← headings, none, List.mem_singleton] at listed
      exact ⟨listed, fun empty => filled (List.isEmpty_iff.mpr empty)⟩

/-- The blocks are for wanted features. -/
theorem of_mem_headings_blocks (listed : row ∈ headings (blocks file wanted glyphs)) :
    row.1 = .feature ∧ row.2 ∈ wanted := by
  unfold blocks at listed
  rw [headings_append, List.mem_append] at listed
  rcases listed with bases | marks
  · obtain ⟨rfl, some⟩ := of_mem_headings_block (headings_foldl headings_nil _) bases
    exact ⟨rfl, (lookups_ofBases_ne_nil_iff.mp some).1⟩
  · obtain ⟨rfl, some⟩ := of_mem_headings_block (headings_foldl headings_nil _) marks
    exact ⟨rfl, (lookups_ofMarks_ne_nil_iff.mp some).1⟩

end MarkDraft

variable {α : Type} [Coordinate α] {context : LayoutContext α} {file : FeatureFile}

/-- The kerning writer adds only features that it is to write. -/
theorem KernWriter.of_mem_headings {writer : KernWriter}
    (listed : row ∈ headings (writer.statements context file)) :
    row.1 = .feature ∧ row.2 ∈ wantedFeatures writer.overlap file features := by
  rcases writer.statements_cases context file with none | same
  · rw [none, headings_nil] at listed
    cases listed
  · rw [same] at listed
    obtain ⟨statement, found, heads⟩ := List.mem_filterMap.mp listed
    rw [KernSetting.visit_additions] at found
    simp only [List.mem_append, List.mem_singleton] at found
    rcases found with ((named | rfl) | lookups) | featured
    · obtain ⟨definition, -, rfl⟩ := KernClassNames.mem_definitions.mp named
      cases heads
    · cases heads
    · obtain ⟨lookup, member, inside⟩ := List.mem_flatMap.mp lookups
      rcases List.mem_cons.mp inside with rfl | inside
      · cases heads
      · rcases KernSetting.of_mem_body_of_mem_lookups member inside with
          ⟨flag, rfl⟩ | ⟨definition, rfl⟩ | ⟨rule, rfl⟩ <;> cases heads
    · obtain ⟨block, member, found⟩ := mem_visit.mp featured
      obtain ⟨name, registration, rfl, -⟩ := KernSetting.of_mem_blocks member
      rcases found with rfl | inside
      · cases heads
        exact ⟨rfl, (KernWriter.exists_featureBlock_iff.mp ⟨_, member⟩).1⟩
      · rw [children, visit_of_flat KernSetting.statements_flat] at inside
        rcases KernSetting.of_mem_statements inside with
          rfl | ⟨tag, rfl⟩ | ⟨tag, rfl⟩ | ⟨lookup, rfl⟩ <;> cases heads

/-- The mark writer adds only features that it is to write. -/
theorem MarkWriter.of_mem_headings {writer : MarkWriter}
    (listed : row ∈ headings (writer.additions context file)) :
    row.1 = .feature ∧ row.2 ∈ wantedFeatures writer.overlap file features := by
  unfold additions at listed
  rcases statements_cases file (wantedFeatures writer.overlap file features)
    (writer.glyphs context file) with none | same
  · rw [none, headings_nil] at listed
    cases listed
  · rw [same, headings_append, List.mem_append] at listed
    rcases listed with defined | blocks
    · obtain ⟨statement, found, heads⟩ := List.mem_filterMap.mp defined
      rw [visit_definitions] at found
      obtain ⟨entry, -, rfl⟩ := List.mem_map.mp found
      cases heads
    · exact MarkDraft.of_mem_headings_blocks blocks

/-- The cursive writer adds only the feature that it is to write. -/
theorem CursiveWriter.of_mem_headings {writer : CursiveWriter}
    (listed : row ∈ headings (writer.additions context file)) :
    row.1 = .feature ∧ row.2 ∈ wantedFeatures writer.overlap file features := by
  rcases writer.additions_cases context file with none | same
  · rw [none, headings_nil] at listed
    cases listed
  · have some : writer.additions context file ≠ [] := by
      rw [same]
      exact List.cons_ne_nil _ _
    have wanted := (CursiveWriter.additions_ne_nil_iff.mp some).1
    obtain ⟨statement, found, heads⟩ := List.mem_filterMap.mp listed
    rcases CursiveWriter.of_mem_visit_additions found with
      ⟨body, rfl⟩ | ⟨name, body, rfl, -⟩ | ⟨flag, rfl, -⟩ | ⟨glyph, entry, exit, rfl⟩
    · cases heads
      exact ⟨rfl, wanted⟩
    · cases heads
    · cases heads
    · cases heads

/-- The writer of glyph definitions adds only the table, and only where there is none. -/
theorem DefinitionWriter.of_mem_headings {writer : DefinitionWriter}
    (listed : row ∈ headings (writer.contribution context file).appended) :
    row = (.table, FeatureFile.definitionBlock) ∧
      file.table? FeatureFile.definitionBlock = none := by
  have noTable : file.table? FeatureFile.definitionBlock = none := by
    cases table : file.table? FeatureFile.definitionBlock with
    | none => rfl
    | some body =>
        have none : (writer.contribution context file).appended = [] := by
          unfold contribution
          rw [table]
          dsimp only
          split <;> rfl
        rw [none, headings_nil] at listed
        cases listed
  obtain ⟨statement, found, heads⟩ := List.mem_filterMap.mp listed
  rcases of_mem_visit_appended found with ⟨body, rfl⟩ | ⟨lists, rfl⟩ | ⟨glyph, positions, rfl⟩
  · cases heads
    exact ⟨rfl, noTable⟩
  · cases heads
  · cases heads

/-- A writer that skips what a file has adds no feature and no table of the file. -/
theorem BuiltinWriter.not_hasBlock_of_mem_headings {writer : BuiltinWriter}
    (skips : writer.overlap = .skip)
    (listed : row ∈ headings (writer.contribution context file).appended) :
    ¬ file.HasBlock row.1 row.2 := by
  have new : ∀ {features : List String},
      row.1 = .feature ∧ row.2 ∈ wantedFeatures writer.overlap file features →
        ¬ file.HasBlock row.1 row.2 := by
    rintro features ⟨kind, wanted⟩
    rw [skips, mem_wantedFeatures_skip] at wanted
    rw [kind]
    exact wanted.2
  cases writer with
  | kern writer => exact new (KernWriter.of_mem_headings listed)
  | mark writer => exact new (MarkWriter.of_mem_headings listed)
  | cursive writer => exact new (CursiveWriter.of_mem_headings listed)
  | definitions writer =>
      obtain ⟨rfl, noTable⟩ := DefinitionWriter.of_mem_headings listed
      rw [FeatureFile.hasBlock_table_iff, noTable]
      exact Bool.false_ne_true

end Headings

/-! ## What one writer does to a file -/

/-- The outcomes of a writer. It fails or reports nothing written and leaves the file; or
it writes at the end of the file; or, if it is to append, it writes definitions at the end
of the first table that the file has for them. -/
inductive WriterEffect {α : Type} (writer : BuiltinWriter) (file : FeatureFile) :
    WriterRun α → Prop where
  | failed (error : WriterError) (notices : List (Notice α)) :
      WriterEffect writer file ⟨file, notices, .error error⟩
  | idle (notices : List (Notice α)) :
      WriterEffect writer file ⟨file, notices, .ok [⟨writer.kind.name, false⟩]⟩
  | appended (notices : List (Notice α)) {added : List Statement} (filled : added ≠ [])
      (new : writer.overlap = .skip → ∀ row ∈ headings added, ¬ file.HasBlock row.1 row.2) :
      WriterEffect writer file
        ⟨⟨file.statements ++ added⟩, notices, .ok [⟨writer.kind.name, true⟩]⟩
  | extended (notices : List (Notice α)) {before body after added : List Statement}
      (filled : added ≠ []) (defines : writer.kind = .definitions)
      (appends : writer.overlap = .append)
      (first : ∀ other, .block .table FeatureFile.definitionBlock other ∉ before)
      (old : file.statements =
        before ++ .block .table FeatureFile.definitionBlock body :: after) :
      WriterEffect writer file
        ⟨⟨before ++ .block .table FeatureFile.definitionBlock (body ++ added) :: after⟩, notices,
          .ok [⟨writer.kind.name, true⟩]⟩

/-- The first table with a name divides the file, and it is the one that gets longer. -/
theorem FeatureFile.extendFirstTable_eq {name : String} {statements body : List Statement}
    (found : statements.findSome? (Statement.body? .table name) = some body)
    (added : List Statement) :
    ∃ before after, (∀ other, .block .table name other ∉ before) ∧
      statements = before ++ .block .table name body :: after ∧
      extendFirstTable name added statements =
        before ++ .block .table name (body ++ added) :: after := by
  induction statements with
  | nil => cases found
  | cons first rest ih =>
      cases head : first.body? .table name with
      | some old =>
          rw [List.findSome?_cons, head] at found
          cases found
          rw [Statement.eq_block_of_body? head]
          exact ⟨[], rest, fun _ => List.not_mem_nil, rfl, extendFirstTable_table added body rest⟩
      | none =>
          rw [List.findSome?_cons, head] at found
          obtain ⟨before, after, new, same, extended⟩ := ih found
          refine ⟨first :: before, after, fun other listed => ?_, ?_, ?_⟩
          · rcases List.mem_cons.mp listed with rfl | later
            · rw [Statement.body?_block] at head
              cases head
            · exact new other later
          · rw [same, List.cons_append]
          · rw [extendFirstTable_other head, extended, List.cons_append]

section Effects

variable {α : Type} [Coordinate α]

/-- A writer adds to the end of a file, or to the table of glyph definitions that the file has. -/
theorem BuiltinWriter.contribution_cases (writer : BuiltinWriter) (context : LayoutContext α)
    (file : FeatureFile) :
    (writer.contribution context file).definitions = [] ∨
      (writer.contribution context file).appended = [] ∧ writer.kind = .definitions ∧
        writer.overlap = .append ∧ ∃ body, file.table? FeatureFile.definitionBlock = some body := by
  cases writer with
  | kern writer => exact .inl rfl
  | mark writer => exact .inl rfl
  | cursive writer => exact .inl rfl
  | definitions writer =>
      rw [contribution_definitions]
      unfold DefinitionWriter.contribution
      cases table : file.table? FeatureFile.definitionBlock with
      | none => exact .inl rfl
      | some body =>
          dsimp only
          split
          · exact .inl rfl
          · next other =>
              have appends : writer.overlap = .append := by
                cases overlap : writer.overlap with
                | skip => exact absurd overlap other
                | append => rfl
              exact .inr ⟨rfl, rfl, appends, body, rfl⟩

variable {writer : BuiltinWriter} {file : FeatureFile}

omit [Coordinate α] in
/-- What is added at the end of a file leaves all of it, and nothing added is reported so. -/
theorem WriterEffect.of_appended (notices : List (Notice α)) {added : List Statement}
    (new : writer.overlap = .skip → ∀ row ∈ headings added, ¬ file.HasBlock row.1 row.2) :
    WriterEffect writer file ⟨Contribution.applyTo ⟨[], added⟩ file, notices,
      .ok [⟨writer.kind.name, !Contribution.isEmpty ⟨[], added⟩⟩]⟩ := by
  unfold Contribution.applyTo Contribution.isEmpty
  rw [FeatureFile.extendTable_nil]
  cases added with
  | nil =>
      rw [FeatureFile.append, List.append_nil]
      exact .idle notices
  | cons first rest => exact .appended notices (List.cons_ne_nil first rest) new

omit [Coordinate α] in
/-- What is added to the first table of glyph definitions leaves all else. -/
theorem WriterEffect.of_extended (notices : List (Notice α)) (defines : writer.kind = .definitions)
    (appends : writer.overlap = .append) {body : List Statement}
    (table : file.table? FeatureFile.definitionBlock = some body) (added : List Statement) :
    WriterEffect writer file ⟨Contribution.applyTo ⟨added, []⟩ file, notices,
      .ok [⟨writer.kind.name, !Contribution.isEmpty ⟨added, []⟩⟩]⟩ := by
  unfold Contribution.applyTo Contribution.isEmpty
  rw [FeatureFile.append, List.append_nil]
  cases added with
  | nil =>
      rw [FeatureFile.extendTable_nil]
      exact .idle notices
  | cons first rest =>
      obtain ⟨before, after, earliest, old, longer⟩ :=
        FeatureFile.extendFirstTable_eq table (first :: rest)
      rw [FeatureFile.extendTable, longer]
      exact .extended notices (List.cons_ne_nil first rest) defines appends earliest old

/-- A built-in writer alters nothing that a file has. -/
theorem effect_runWriters (writer : BuiltinWriter) (context : LayoutContext α)
    (file : FeatureFile) :
    WriterEffect writer file (runWriters context file [writer.toWriter]) := by
  rcases writer.runWriters_cons_cases context file [] with ⟨-, stops⟩ | ⟨-, notices, goesOn⟩
  · rw [stops]
    exact .failed _ _
  · rw [goesOn, runWriters, WriterRun.preceded, List.append_nil, Except.map]
    have new := fun skips row => @BuiltinWriter.not_hasBlock_of_mem_headings row α _ context file
      writer skips
    have parts := writer.contribution_cases context file
    generalize writer.contribution context file = contribution at new parts
    obtain ⟨definitions, appended⟩ := contribution
    rcases parts with rfl | ⟨rfl, defines, appends, body, table⟩
    · exact .of_appended notices new
    · exact .of_extended notices defines appends table definitions

end Effects

/-! ## What a run does to a file -/

namespace FeatureFile

variable {file later last : FeatureFile}

/-- Whether a later file has all that a file has, with at most additions at its end and
in its first table of glyph definitions. -/
def GrowsTo (file later : FeatureFile) : Prop :=
  ∃ contribution : Contribution, contribution.applyTo file = later

/-- Without a table, the first one of further statements gets longer. -/
theorem extendFirstTable_append {name : String} {statements : List Statement}
    (none : statements.findSome? (Statement.body? .table name) = none)
    (added further : List Statement) :
    extendFirstTable name added (statements ++ further) =
      statements ++ extendFirstTable name added further := by
  induction statements with
  | nil => rfl
  | cons first rest ih =>
      obtain ⟨head, tail⟩ := List.findSome?_eq_none_iff.mp none |> List.forall_mem_cons.mp
      rw [List.cons_append, extendFirstTable_other head, ih (List.findSome?_eq_none_iff.mpr tail),
        List.cons_append]

theorem GrowsTo.refl (file : FeatureFile) : file.GrowsTo file :=
  ⟨{}, Contribution.applyTo_empty file⟩

theorem GrowsTo.trans (first : file.GrowsTo later) (second : later.GrowsTo last) :
    file.GrowsTo last := by
  obtain ⟨earlier, rfl⟩ := first
  obtain ⟨⟨definitions, appended⟩, rfl⟩ := second
  cases table : file.table? definitionBlock with
  | some body =>
      exact ⟨_, (Contribution.applyTo_applyTo
        (.inl ((congrArg Option.isSome table).trans rfl))).symm⟩
  | none =>
      -- The later definitions go to a table that was appended, or nowhere.
      refine ⟨⟨[], extendFirstTable definitionBlock definitions earlier.appended ++ appended⟩, ?_⟩
      have idle : file.extendTable definitionBlock earlier.definitions = file := by
        have none := extendFirstTable_append table earlier.definitions []
        rw [List.append_nil] at none
        exact congrArg FeatureFile.mk (none.trans (List.append_nil _))
      unfold Contribution.applyTo
      rw [idle, extendTable_nil]
      unfold append extendTable
      rw [extendFirstTable_append table, List.append_assoc]

end FeatureFile

section Runs

variable {α : Type} [Coordinate α]

/-- A run of built-in writers, also one that fails, only adds to a file. -/
theorem growsTo_runWriters (context : LayoutContext α) (file : FeatureFile)
    (writers : List BuiltinWriter) :
    file.GrowsTo (runWriters context file (writers.map BuiltinWriter.toWriter)).file := by
  induction writers generalizing file with
  | nil => exact .refl file
  | cons writer rest ih =>
      rw [List.map_cons]
      rcases writer.runWriters_cons_cases context file (rest.map BuiltinWriter.toWriter) with
        ⟨-, stops⟩ | ⟨-, notices, goesOn⟩
      · rw [stops]
        exact .refl file
      · rw [goesOn]
        exact .trans ⟨writer.contribution context file, rfl⟩ (ih _)

/-- Layout only adds to what authors wrote. -/
theorem growsTo_writeLayout (view : FontView α) (characters : CharacterData) (file : FeatureFile)
    (writers : List BuiltinWriter) :
    file.GrowsTo
      (view.writeLayout characters file (writers.map BuiltinWriter.toWriter)).file := by
  unfold FontView.writeLayout
  split
  · exact .refl file
  · rw [BuiltinWriter.runOrder_map_toWriter]
    exact growsTo_runWriters _ file writers

/-- Built-in writers never fail for a fault of the font. -/
theorem reports_runWriters_ne_fontError (context : LayoutContext α) (file : FeatureFile)
    (writers : List BuiltinWriter) (fault : FontError) :
    (runWriters context file (writers.map BuiltinWriter.toWriter)).reports ≠
      .error (.font fault) := by
  intro failed
  induction writers generalizing file with
  | nil => cases failed
  | cons writer rest ih =>
      rw [List.map_cons] at failed
      rcases writer.runWriters_cons_cases context file (rest.map BuiltinWriter.toWriter) with
        ⟨-, stops⟩ | ⟨-, notices, goesOn⟩
      · rw [stops] at failed
        cases failed
      · rw [goesOn] at failed
        exact ih _ (WriterRun.reports_eq_error_of_preceded failed)

/-- What authors wrote is never altered: each built-in writer leaves the file, appends to
it, or appends to its table of glyph definitions, and a conflict between codepoints keeps
all writers from the file. -/
theorem authored_kept (file : FeatureFile) :
    (∀ (context : LayoutContext α) (writer : BuiltinWriter),
      WriterEffect writer file (runWriters context file [writer.toWriter])) ∧
    ∀ (view : FontView α) (characters : CharacterData) (fault : FontError),
      (view.characterMap = .error fault → ∀ writers : List (Writer α),
        view.writeLayout characters file writers = ⟨file, [], .error (.font fault)⟩) ∧
      ∀ writers : List BuiltinWriter,
        (view.writeLayout characters file (writers.map BuiltinWriter.toWriter)).reports =
          .error (.font fault) → view.characterMap = .error fault := by
  refine ⟨fun context writer => effect_runWriters writer context file,
    fun view characters fault => ⟨fun conflict writers => ?_, fun writers failed => ?_⟩⟩
  · unfold FontView.writeLayout LayoutContext.ofView
    rw [conflict]
    rfl
  · unfold FontView.writeLayout LayoutContext.ofView at failed
    cases found : view.characterMap with
    | error other =>
        rw [found] at failed
        cases failed
        rfl
    | ok map =>
        rw [found, BuiltinWriter.runOrder_map_toWriter] at failed
        exact absurd failed (reports_runWriters_ne_fontError _ file writers fault)

end Runs

/-- Two letters that stand for one codepoint. -/
def conflictFont : Font Rat where
  glyphs := .ofList [
    { name := "a", width := 500, height := 0, codepoints := [0x61] },
    { name := "b", width := 500, height := 0, codepoints := [0x61] }]

theorem authored_kept_conflictFont :
    let authored : FeatureFile := ⟨[.comment "authored"]⟩
    let fault : FontError := .duplicateCodepoint 0x61 "a" "b"
    conflictFont.whole.characterMap = .error fault ∧
      conflictFont.whole.writeLayout .builtin authored
        (skippingWriters.map BuiltinWriter.toWriter) = ⟨authored, [], .error (.font fault)⟩ := by
  dsimp only
  have conflict : conflictFont.whole.characterMap =
      .error (.duplicateCodepoint 0x61 "a" "b") := rfl
  exact ⟨conflict, ((authored_kept _).2 conflictFont.whole .builtin _).1 conflict _⟩

end FontCompiler
