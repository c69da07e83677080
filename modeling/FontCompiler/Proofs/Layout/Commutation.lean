import FontCompiler.Proofs.Attachment.Agreement
import FontCompiler.Proofs.Kerning.Agreement
import FontCompiler.Proofs.Layout.Idempotence

/-!
# Writers in any order

Each kind of writer has features, names of lookups and names of classes that no
other kind writes, and one kind alone writes mark classes or glyph definitions. So
a writer contributes the same whether or not writers of other kinds ran before it,
and a run of writers of distinct kinds leaves their contributions to the first
file, in the order in which the writers ran.
-/

namespace FontCompiler

open Statement

section Foreign

variable {contribution : Contribution} {file other third : FeatureFile} {kind maker : BuiltinKind}

/-! ## What another kind of writer leaves as it is -/

/-- A contribution takes no name that its statements do not take. -/
theorem exists_read_applyTo {read : Statement → Option String} {name : String}
    (blind : ∀ table body, read (.block .table table body) = none)
    (foreign : ∀ statement, statement.MadeBy maker → read statement ≠ some name)
    (definitions : AllMadeBy maker contribution.definitions)
    (appended : AllMadeBy maker contribution.appended) :
    (∃ statement ∈ (contribution.applyTo file).allStatements, read statement = some name) ↔
      ∃ statement ∈ file.allStatements, read statement = some name := by
  have same : (contribution.applyTo file).allStatements.filterMap (fun statement =>
        (read statement).filter fun found => decide (found = name)) =
      file.allStatements.filterMap fun statement =>
        (read statement).filter fun found => decide (found = name) := by
    refine filterMap_allStatements_applyTo (fun table body => ?_) (fun statement made => ?_)
      definitions appended
    · rw [blind]
      rfl
    · refine Option.filter_eq_none_iff.mpr fun found reads same => ?_
      exact foreign statement made (of_decide_eq_true same ▸ reads)
  have reading : ∀ statements : List Statement,
      (∃ statement ∈ statements, read statement = some name) ↔
        name ∈ statements.filterMap fun statement =>
          (read statement).filter fun found => decide (found = name) := fun statements => by
    simp [List.mem_filterMap, Option.filter_eq_some_iff]
  rw [reading, reading, same]

variable (different : maker ≠ kind) (definitions : AllMadeBy maker contribution.definitions)
  (appended : AllMadeBy maker contribution.appended)
include different appended

theorem hasFeature_applyTo_of_ne {feature : String} (listed : feature ∈ kind.features) :
    (contribution.applyTo file).hasFeature feature = file.hasFeature feature := by
  rw [Bool.eq_iff_iff, Contribution.hasFeature_applyTo]
  refine or_iff_left ?_
  rintro ⟨body, added⟩
  cases appended.madeBy added with
  | feature _ own => exact different (BuiltinKind.eq_of_mem_features own listed)

include definitions

theorem lookupNames_applyTo_of_ne :
    AgreeFor lookupMaker? kind file.lookupNames (contribution.applyTo file).lookupNames := by
  intro name made
  have taken : ∀ file : FeatureFile, name ∈ file.lookupNames ↔
      ∃ statement ∈ file.allStatements, lookupName? statement = some name := fun file => by
    rw [FeatureFile.mem_lookupNames, definedLookups, List.mem_filterMap]
    rfl
  rw [taken, taken]
  refine (exists_read_applyTo (fun _ _ => rfl) (fun statement madeBy reads => ?_) definitions
    appended).symm
  cases madeBy with
  | lookup body own =>
      cases reads
      exact different (Option.some.inj (own.symm.trans made))
  | _ => cases reads

theorem classNames_applyTo_of_ne :
    AgreeFor classMaker? kind file.classNames (contribution.applyTo file).classNames := by
  intro name made
  have taken : ∀ file : FeatureFile, name ∈ file.classNames ↔
      (∃ statement ∈ file.allStatements, glyphClassName? statement = some name) ∨
        ∃ statement ∈ file.allStatements, markClassName? statement = some name := fun file => by
    rw [FeatureFile.mem_classNames, definedGlyphClasses, definedMarkClasses, List.mem_filterMap,
      List.mem_filterMap]
    rfl
  rw [taken, taken]
  refine or_congr (exists_read_applyTo (fun _ _ => rfl) (fun statement madeBy reads => ?_)
      definitions appended).symm
    (exists_read_applyTo (fun _ _ => rfl) (fun statement madeBy reads => ?_) definitions
      appended).symm
  · cases madeBy with
    | glyphClass own =>
        cases reads
        exact different (Option.some.inj (own.symm.trans made))
    | _ => cases reads
  · cases madeBy with
    | markClass own =>
        cases reads
        exact different (Option.some.inj (own.symm.trans made))
    | _ => cases reads

end Foreign

/-- Only the mark writer adds mark classes. -/
theorem markClasses_applyTo_of_ne {contribution : Contribution} {file : FeatureFile}
    {maker : BuiltinKind} (different : maker ≠ .mark)
    (definitions : AllMadeBy maker contribution.definitions)
    (appended : AllMadeBy maker contribution.appended) :
    (contribution.applyTo file).markClasses = file.markClasses := by
  unfold FeatureFile.markClasses
  rw [filterMap_allStatements_applyTo (fun _ _ => rfl) (fun statement made => ?_) definitions
    appended]
  cases made with
  | markClass own => exact absurd rfl different
  | _ => rfl

/-! ## Files that one kind of writer sees alike -/

section SameFor

variable {α : Type} {context : LayoutContext α} {file other third : FeatureFile}
  {kind : BuiltinKind}

/-- Whether all that a kind of writer reads of a file is the same in another file. -/
structure SameFor (kind : BuiltinKind) (context : LayoutContext α)
    (file other : FeatureFile) : Prop where
  alike : Alike context file other
  features : ∀ feature ∈ kind.features, other.hasFeature feature = file.hasFeature feature
  lookupNames : AgreeFor lookupMaker? kind file.lookupNames other.lookupNames
  classNames : AgreeFor classMaker? kind file.classNames other.classNames
  markClasses : kind = .mark → other.markClasses = file.markClasses
  table : kind = .definitions →
    other.table? FeatureFile.definitionBlock = file.table? FeatureFile.definitionBlock

namespace SameFor

theorem refl (kind : BuiltinKind) (context : LayoutContext α) (file : FeatureFile) :
    SameFor kind context file file :=
  ⟨.refl context file, fun _ _ => rfl, fun _ _ => Iff.rfl, fun _ _ => Iff.rfl, fun _ => rfl,
    fun _ => rfl⟩

theorem trans (same : SameFor kind context file other)
    (further : SameFor kind context other third) : SameFor kind context file third where
  alike := same.alike.trans further.alike
  features feature listed :=
    (further.features feature listed).trans (same.features feature listed)
  lookupNames name made := (same.lookupNames name made).trans (further.lookupNames name made)
  classNames name made := (same.classNames name made).trans (further.classNames name made)
  markClasses own := (further.markClasses own).trans (same.markClasses own)
  table own := (further.table own).trans (same.table own)

theorem wantedFeatures_eq (same : SameFor kind context file other) (overlap : OverlapPolicy) :
    wantedFeatures overlap other kind.features = wantedFeatures overlap file kind.features := by
  unfold wantedFeatures
  cases overlap with
  | append => rfl
  | skip => exact List.filter_congr fun feature listed => by rw [same.features feature listed]

/-! ## Contributions to them -/

variable [Coordinate α]

theorem kernStatements (same : SameFor .kern context file other) (writer : KernWriter) :
    writer.statements context other = writer.statements context file := by
  have wanted : wantedFeatures writer.overlap other KernWriter.features =
      wantedFeatures writer.overlap file KernWriter.features :=
    same.wantedFeatures_eq writer.overlap
  have drafts := (writer.kernSetting context file).draft_agree same.lookupNames same.classNames
  have blocks : ∀ features lookups,
      KernWriter.blocks context other features (writer.kernSetting context file) lookups =
        KernWriter.blocks context file features (writer.kernSetting context file) lookups := by
    intro features lookups
    unfold KernWriter.blocks
    rw [same.alike.scriptsByGlyph, same.alike.declaredLanguages]
  have additions : ∀ features,
      (writer.kernSetting context file).additions context other features =
        (writer.kernSetting context file).additions context file features := by
    intro features
    unfold KernSetting.additions KernClassNames.definitions
    dsimp only
    rw [blocks, drafts.lookups, drafts.classNames.named]
  unfold KernWriter.statements KernWriter.featureBlocks KernWriter.lookups
  dsimp only
  rw [wanted, same.alike.kernSetting, blocks, additions, drafts.lookups]

theorem markAdditions (same : SameFor .mark context file other) (writer : MarkWriter) :
    writer.additions context other = writer.additions context file := by
  have wanted : wantedFeatures writer.overlap other MarkWriter.features =
      wantedFeatures writer.overlap file MarkWriter.features :=
    same.wantedFeatures_eq writer.overlap
  unfold MarkWriter.additions
  rw [wanted, same.alike.markGlyphs]
  exact (MarkWriter.statements_congr (same.markClasses rfl).symm same.lookupNames same.classNames
    _ _).symm

theorem cursiveAdditions (same : SameFor .cursive context file other) (writer : CursiveWriter) :
    writer.additions context other = writer.additions context file := by
  have wanted : wantedFeatures writer.overlap other CursiveWriter.features =
      wantedFeatures writer.overlap file CursiveWriter.features :=
    same.wantedFeatures_eq writer.overlap
  unfold CursiveWriter.additions CursiveWriter.plans
  rw [wanted, same.alike.leftToRightGlyphs, CursivePlan.lookups_congr same.lookupNames]

end SameFor

namespace BuiltinWriter

variable [Coordinate α]

/-- A writer of another kind leaves all that a kind of writer reads as it is. -/
theorem sameFor_applyTo (writer : BuiltinWriter) (different : writer.kind ≠ kind)
    (context : LayoutContext α) (file : FeatureFile) :
    SameFor kind context file ((writer.contribution context file).applyTo file) := by
  obtain ⟨definitions, appended⟩ := writer.allMadeBy_contribution context file
  refine ⟨writer.alike_applyTo context file,
    fun feature listed => hasFeature_applyTo_of_ne different appended listed,
    lookupNames_applyTo_of_ne different definitions appended,
    classNames_applyTo_of_ne different definitions appended,
    fun own => markClasses_applyTo_of_ne (own ▸ different) definitions appended, fun own => ?_⟩
  subst own
  cases writer with
  | kern writer => exact table?_applyTo_of_ne different rfl appended
  | mark writer => exact table?_applyTo_of_ne different rfl appended
  | cursive writer => exact table?_applyTo_of_ne different rfl appended
  | definitions writer => exact absurd rfl different

/-- Writers of other kinds leave all that a kind of writer reads as it is. -/
theorem sameFor_fileAfter {writers : List BuiltinWriter}
    (different : ∀ writer ∈ writers, writer.kind ≠ kind) (context : LayoutContext α)
    (file : FeatureFile) : SameFor kind context file (fileAfter context file writers) := by
  induction writers generalizing file with
  | nil => exact .refl kind context file
  | cons first rest ih =>
      exact (first.sameFor_applyTo (different first List.mem_cons_self) context file).trans
        (ih (fun writer listed => different writer (List.mem_cons_of_mem _ listed)) _)

/-- A writer contributes the same to files that are the same for its kind. -/
theorem contribution_congr {writer : BuiltinWriter}
    (same : SameFor writer.kind context file other) :
    writer.contribution context other = writer.contribution context file := by
  cases writer with
  | kern writer => rw [contribution_kern, contribution_kern, same.kernStatements]
  | mark writer => rw [contribution_mark, contribution_mark, same.markAdditions]
  | cursive writer => rw [contribution_cursive, contribution_cursive, same.cursiveAdditions]
  | definitions writer =>
      rw [contribution_definitions, contribution_definitions]
      unfold DefinitionWriter.contribution
      rw [same.table rfl]

/-! ## Runs of writers of distinct kinds -/

/-- Writers of distinct kinds contribute to each other's files what they would
contribute to the first file. -/
theorem run_of_distinct {writers : List BuiltinWriter}
    (distinct : (writers.map BuiltinWriter.kind).Nodup)
    (same : ∀ writer ∈ writers, SameFor writer.kind context file other) :
    fileAfter context other writers =
        (writers.map fun writer => writer.contribution context file).foldl
          (fun current contribution => contribution.applyTo current) other ∧
      reportsAfter context other writers = writers.map fun writer =>
        ⟨writer.kind.name, !(writer.contribution context file).isEmpty⟩ := by
  induction writers generalizing other with
  | nil => exact ⟨rfl, rfl⟩
  | cons first rest ih =>
      obtain ⟨fresh, restDistinct⟩ := List.nodup_cons.mp distinct
      have further : ∀ writer ∈ rest, SameFor writer.kind context file
          ((first.contribution context other).applyTo other) := fun writer listed =>
        (same writer (List.mem_cons_of_mem _ listed)).trans
          (first.sameFor_applyTo (fun equal => fresh (equal ▸ List.mem_map_of_mem listed))
            context other)
      obtain ⟨files, reports⟩ := ih restDistinct further
      have firstSame := contribution_congr (same first List.mem_cons_self)
      rw [fileAfter, List.foldl_cons, reportsAfter, ← fileAfter, files, reports, firstSame]
      exact ⟨rfl, rfl⟩

/-- Only the writer of glyph definitions adds to a table of the file. -/
theorem definitions_eq_nil {writer : BuiltinWriter} (other : writer.kind ≠ .definitions) :
    (writer.contribution context file).definitions = [] := by
  cases writer with
  | definitions writer => exact absurd rfl other
  | _ => rfl

/-- A writer adds to a table only if the file has it. -/
theorem hasTable_or_definitions_eq_nil (writer : BuiltinWriter) (context : LayoutContext α)
    (file : FeatureFile) : file.hasTable FeatureFile.definitionBlock = true ∨
      (writer.contribution context file).definitions = [] := by
  cases writer with
  | definitions writer =>
      rw [contribution_definitions, DefinitionWriter.contribution, FeatureFile.hasTable]
      cases file.table? FeatureFile.definitionBlock with
      | some table => exact .inl rfl
      | none => exact .inr rfl
  | _ => exact .inr rfl

/-- Among writers of distinct kinds, only the writer of glyph definitions adds to a table. -/
theorem flatMap_definitions {writers : List BuiltinWriter}
    (distinct : (writers.map BuiltinWriter.kind).Nodup) {writer : DefinitionWriter}
    (listed : .definitions writer ∈ writers) :
    writers.flatMap (fun other => (other.contribution context file).definitions) =
      (writer.contribution context file).definitions := by
  obtain ⟨earlier, later, rfl⟩ := List.append_of_mem listed
  rw [List.map_append, List.map_cons, List.nodup_middle, List.nodup_cons,
    ← List.map_append] at distinct
  have none : ∀ other ∈ earlier ++ later, (other.contribution context file).definitions = [] :=
    fun other member => definitions_eq_nil fun same =>
      distinct.1 (List.mem_map.mpr ⟨other, member, same⟩)
  rw [List.flatMap_append, List.flatMap_cons,
    List.flatMap_eq_nil_iff.mpr fun other member => none other (List.mem_append_left _ member),
    List.flatMap_eq_nil_iff.mpr fun other member => none other (List.mem_append_right _ member),
    List.nil_append, List.append_nil]
  rfl

/-- Writers of distinct kinds, with one of glyph definitions, extend the table of glyph
definitions and then add their statements in the order in which they run. -/
theorem fileAfter_of_distinct {writers : List BuiltinWriter}
    (distinct : (writers.map BuiltinWriter.kind).Nodup) {definitions : DefinitionWriter}
    (listed : .definitions definitions ∈ writers) (context : LayoutContext α)
    (file : FeatureFile) :
    fileAfter context file writers = Contribution.applyTo
      { definitions := (definitions.contribution context file).definitions
        appended := writers.flatMap fun writer => (writer.contribution context file).appended }
      file := by
  obtain ⟨fold, -⟩ := run_of_distinct distinct fun writer _ => .refl writer.kind context file
  have folded := @Contribution.foldl_applyTo {} file
    (writers.map fun writer => writer.contribution context file) fun later found => by
      obtain ⟨writer, -, rfl⟩ := List.mem_map.mp found
      exact writer.hasTable_or_definitions_eq_nil context file
  rw [Contribution.applyTo_empty, List.flatMap_map, List.flatMap_map,
    flatMap_definitions distinct listed] at folded
  exact fold.trans folded

end BuiltinWriter

end SameFor

/-! ## Any order -/

section Runs

variable {α : Type} [Coordinate α]

/-- One writer of each kind, in any order: each contributes to the file at its turn
what it would contribute to the first file, and reports the same. In the end, the
table of glyph definitions is longer by the same statements, and all others follow
the first file in the order in which the writers ran. -/
theorem writeLayout_anyOrder (view : FontView α) (characters : CharacterData) (file : FeatureFile)
    (kern : KernWriter) (mark : MarkWriter) (cursive : CursiveWriter)
    (definitions : DefinitionWriter) (kernStep : kern.quantization ≠ 0)
    (markStep : mark.quantization ≠ 0) {order : List BuiltinWriter}
    (permuted : order.Perm [.kern kern, .mark mark, .cursive cursive, .definitions definitions]) :
    let run := view.writeLayout characters file (order.map BuiltinWriter.toWriter)
    match LayoutContext.ofView view characters with
    | .error fault => run.reports = .error (.font fault) ∧ run.file = file
    | .ok context =>
        run.reports = .ok (order.map fun writer =>
            ⟨writer.kind.name, !(writer.contribution context file).isEmpty⟩) ∧
          run.file = Contribution.applyTo
            { definitions := (definitions.contribution context file).definitions
              appended := order.flatMap fun writer =>
                (writer.contribution context file).appended } file ∧
          ∀ earlier writer later, order = earlier ++ writer :: later →
            let before := (runWriters context file (earlier.map BuiltinWriter.toWriter)).file
            ∃ notices, writer.toWriter.write context before =
              .ok (.contributing (writer.contribution context file) before notices) := by
  have kinds : (order.map BuiltinWriter.kind).Perm BuiltinKind.all :=
    permuted.map BuiltinWriter.kind
  have distinct : (order.map BuiltinWriter.kind).Nodup := kinds.nodup_iff.mpr (by decide)
  have steps : ∀ writer ∈ order, writer.step ≠ 0 := by
    intro writer listed
    have known := permuted.mem_iff.mp listed
    simp only [List.mem_cons, List.not_mem_nil, or_false] at known
    rcases known with rfl | rfl | rfl | rfl
    · exact kernStep
    · exact markStep
    · exact Nat.one_ne_zero
    · exact Nat.one_ne_zero
  have last : .definitions definitions ∈ order := permuted.mem_iff.mpr (by simp)
  dsimp only
  unfold FontView.writeLayout
  cases LayoutContext.ofView view characters with
  | error fault => exact ⟨rfl, rfl⟩
  | ok context =>
      dsimp only
      rw [BuiltinWriter.runOrder_map_toWriter]
      obtain ⟨files, reports⟩ := BuiltinWriter.runWriters_eq context file steps
      obtain ⟨-, flags⟩ := BuiltinWriter.run_of_distinct distinct
        fun writer _ => .refl writer.kind context file
      refine ⟨reports.trans (congrArg _ flags), ?_, fun earlier writer later split => ?_⟩
      · exact files.trans (BuiltinWriter.fileAfter_of_distinct distinct last context file)
      · subst split
        have member : writer ∈ earlier ++ writer :: later :=
          List.mem_append_right _ List.mem_cons_self
        obtain ⟨before, -⟩ := BuiltinWriter.runWriters_eq context file
          fun other listed => steps other (List.mem_append_left _ listed)
        rw [List.map_append, List.map_cons, List.nodup_middle, List.nodup_cons] at distinct
        have same := BuiltinWriter.sameFor_fileAfter (fun other listed equal => distinct.1
          (List.mem_append_left _ (List.mem_map.mpr ⟨other, listed, equal⟩))) context file
        rw [before, ← BuiltinWriter.contribution_congr same]
        exact writer.write_eq_contributing (steps writer member) context _

end Runs

/-- The writers run last to first on the letter and its accent: all of them write. -/
theorem writeLayout_accentFont_reversed :
    let run := accentFont.whole.writeLayout .builtin {}
      (skippingWriters.reverse.map BuiltinWriter.toWriter)
    run.reports = .ok (skippingWriters.reverse.map fun writer => ⟨writer.kind.name, true⟩) ∧
    match LayoutContext.ofView accentFont.whole .builtin with
    | .error fault => run.reports = .error (.font fault) ∧ run.file = {}
    | .ok context =>
        run.reports = .ok (skippingWriters.reverse.map fun writer =>
            ⟨writer.kind.name, !(writer.contribution context {}).isEmpty⟩) ∧
          run.file = Contribution.applyTo
            { definitions := (DefinitionWriter.contribution {} context {}).definitions
              appended := skippingWriters.reverse.flatMap fun writer =>
                (writer.contribution context {}).appended } {} ∧
          ∀ earlier writer later, skippingWriters.reverse = earlier ++ writer :: later →
            let before := (runWriters context {} (earlier.map BuiltinWriter.toWriter)).file
            ∃ notices, writer.toWriter.write context before =
              .ok (.contributing (writer.contribution context {}) before notices) :=
  ⟨by decide +kernel, writeLayout_anyOrder accentFont.whole .builtin {} {} {} {} {} (by decide)
    (by decide) (by decide)⟩

end FontCompiler
