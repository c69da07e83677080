import FontCompiler.Proofs.Layout.Alike

/-!
# Running writers twice

A writer that skips what a file has is settled by a file that has all blocks that
the writer offers: it contributes nothing. Once it has written, the file settles
it, and so does every later file, because blocks stay and offers do not change.
-/

namespace FontCompiler

open Statement

/-- Whether a file has a block of a kind and name outside of other blocks. -/
def FeatureFile.HasBlock (file : FeatureFile) (kind : BlockKind) (name : String) : Prop :=
  ∃ body, .block kind name body ∈ file.statements

namespace FeatureFile

variable {file : FeatureFile} {kind : BlockKind} {name : String}

theorem hasBlock_feature_iff : file.HasBlock .feature name ↔ file.hasFeature name = true :=
  hasFeature_iff.symm

theorem hasBlock_table_iff : file.HasBlock .table name ↔ (file.table? name).isSome = true := by
  unfold table?
  rw [List.findSome?_isSome_iff]
  constructor
  · rintro ⟨body, listed⟩
    exact ⟨_, listed, by rw [Statement.body?_block]; rfl⟩
  · rintro ⟨statement, listed, found⟩
    obtain ⟨body, same⟩ := Option.isSome_iff_exists.mp found
    exact ⟨body, Statement.eq_block_of_body? same ▸ listed⟩

/-- Longer tables are still there. -/
theorem exists_mem_extendFirstTable {table : String} {added statements : List Statement}
    (present : ∃ body, .block kind name body ∈ statements) :
    ∃ body, .block kind name body ∈ extendFirstTable table added statements := by
  obtain ⟨body, listed⟩ := present
  induction statements with
  | nil => cases listed
  | cons first rest ih =>
      cases found : first.body? .table table with
      | none =>
          rw [extendFirstTable_other found]
          rcases List.mem_cons.mp listed with rfl | later
          · exact ⟨body, List.mem_cons_self⟩
          · obtain ⟨other, further⟩ := ih later
            exact ⟨other, List.mem_cons_of_mem _ further⟩
      | some old =>
          rw [Statement.eq_block_of_body? found] at listed ⊢
          rw [extendFirstTable_table]
          rcases List.mem_cons.mp listed with same | later
          · cases same
            exact ⟨_, List.mem_cons_self⟩
          · exact ⟨body, List.mem_cons_of_mem _ later⟩

/-- No contribution takes a block away. -/
theorem HasBlock.applyTo (present : file.HasBlock kind name) (contribution : Contribution) :
    (contribution.applyTo file).HasBlock kind name := by
  obtain ⟨body, listed⟩ := exists_mem_extendFirstTable present
  exact ⟨body, List.mem_append_left _ listed⟩

theorem hasBlock_of_mem_appended {contribution : Contribution} {body : List Statement}
    (listed : .block kind name body ∈ contribution.appended) :
    (contribution.applyTo file).HasBlock kind name :=
  ⟨body, List.mem_append_right _ listed⟩

end FeatureFile

namespace BuiltinWriter

variable {α : Type} [Coordinate α] {writer : BuiltinWriter} {context : LayoutContext α}
  {file other : FeatureFile} {kind : BlockKind} {name : String}

/-! ## Offers -/

/-- Whether a writer would write a block of a kind and name into a file without any. -/
def Offers (writer : BuiltinWriter) (context : LayoutContext α) (file : FeatureFile)
    (kind : BlockKind) (name : String) : Prop :=
  match writer with
  | kern writer => kind = .feature ∧ name ∈ writer.provided context file
  | mark writer => kind = .feature ∧ MarkDraft.provided (writer.glyphs context file) name
  | cursive _ => kind = .feature ∧ name = "curs" ∧
      ∃ plan ∈ CursiveWriter.plans context file, plan.rules ≠ []
  | definitions _ => kind = .table ∧ name = FeatureFile.definitionBlock ∧
      DefinitionWriter.missing context.view [] ≠ []

/-- A writer makes the same offers to files that it sees alike. -/
theorem offers_congr (alike : Alike context file other) :
    writer.Offers context other kind name ↔ writer.Offers context file kind name := by
  cases writer with
  | kern writer =>
      have scripts : (writer.lookups context other).map KernLookup.script =
          (writer.lookups context file).map KernLookup.script := by
        rw [writer.map_script_lookups, writer.map_script_lookups, alike.kernSetting]
      have registered : writer.registeredScripts context other =
          writer.registeredScripts context file := by
        rw [KernWriter.registeredScripts, alike.scriptsByGlyph, alike.declaredLanguages,
          alike.kernSetting]
        rfl
      unfold Offers KernWriter.provided
      dsimp only
      rw [registeredFeatures_congr scripts, registered]
  | mark writer =>
      unfold Offers
      dsimp only
      rw [alike.markGlyphs]
  | cursive writer =>
      unfold Offers CursiveWriter.plans
      dsimp only
      rw [alike.leftToRightGlyphs]
  | definitions writer => exact Iff.rfl

theorem mem_wantedFeatures_skip {features : List String} :
    name ∈ wantedFeatures .skip file features ↔
      name ∈ features ∧ ¬ file.HasBlock .feature name := by
  unfold wantedFeatures
  dsimp only
  rw [List.mem_filter, FeatureFile.hasBlock_feature_iff, Bool.not_eq_true', Bool.not_eq_true]

/-- What a writer offers is among its own features. -/
theorem mem_features_of_offers (offers : writer.Offers context file .feature name) :
    name ∈ writer.kind.features := by
  cases writer with
  | kern writer =>
      have known : ∀ lookups scripts, ∀ feature ∈ registeredFeatures lookups scripts,
          feature ∈ KernWriter.features := by
        intro lookups scripts feature listed
        unfold registeredFeatures at listed
        unfold KernWriter.features
        grind
      exact known _ _ name offers.2
  | mark writer =>
      rcases offers.2 with ⟨rfl, -⟩ | ⟨rfl, -⟩
      · exact List.mem_cons_self
      · exact List.mem_cons_of_mem _ List.mem_cons_self
  | cursive writer =>
      rw [offers.2.1]
      exact List.mem_cons_self
  | definitions writer => cases offers.1

/-- Whether a file has all blocks that a writer offers. -/
def Settled (writer : BuiltinWriter) (context : LayoutContext α) (file : FeatureFile) : Prop :=
  ∀ kind name, writer.Offers context file kind name → file.HasBlock kind name

/-- A writer that skips contributes nothing to a file that settles it. -/
theorem contribution_eq_empty (skips : writer.overlap = .skip)
    (settled : writer.Settled context file) : writer.contribution context file = {} := by
  cases writer with
  | kern writer =>
      have none : writer.statements context file = [] :=
        KernWriter.statements_eq_nil_iff.mpr fun feature offered wanted => by
          rw [show writer.overlap = .skip from skips, mem_wantedFeatures_skip] at wanted
          exact wanted.2 (settled .feature feature ⟨rfl, offered⟩)
      rw [contribution_kern, none]
  | mark writer =>
      have none : writer.additions context file = [] :=
        MarkWriter.statements_eq_nil_iff.mpr fun feature offered wanted => by
          rw [show writer.overlap = .skip from skips, mem_wantedFeatures_skip] at wanted
          exact wanted.2 (settled .feature feature ⟨rfl, offered⟩)
      rw [contribution_mark, none]
  | cursive writer =>
      have none : writer.additions context file = [] := by
        by_contra some
        obtain ⟨wanted, plans⟩ := CursiveWriter.additions_ne_nil_iff.mp some
        rw [show writer.overlap = .skip from skips, mem_wantedFeatures_skip] at wanted
        exact wanted.2 (settled .feature "curs" ⟨rfl, rfl, plans⟩)
      rw [contribution_cursive, none]
  | definitions writer =>
      rw [contribution_definitions]
      unfold DefinitionWriter.contribution
      cases table : file.table? FeatureFile.definitionBlock with
      | some found => exact if_pos skips
      | none =>
          have none : DefinitionWriter.missing context.view [] = [] := by
            by_contra some
            have present := settled .table FeatureFile.definitionBlock ⟨rfl, rfl, some⟩
            rw [FeatureFile.hasBlock_table_iff, table] at present
            cases present
          rw [none]
          rfl

/-- What a writer contributes settles it. -/
theorem settled_applyTo (skips : writer.overlap = .skip) (context : LayoutContext α)
    (file : FeatureFile) :
    writer.Settled context ((writer.contribution context file).applyTo file) := by
  intro kind name offered
  rw [offers_congr (writer.alike_applyTo context file)] at offered
  by_cases present : file.HasBlock kind name
  · exact present.applyTo _
  · have wanted : kind = .feature →
        name ∈ wantedFeatures writer.overlap file writer.kind.features := fun feature => by
      subst feature
      rw [skips, mem_wantedFeatures_skip]
      exact ⟨mem_features_of_offers offered, present⟩
    cases writer with
    | kern writer =>
        obtain ⟨rfl, provided⟩ := offered
        obtain ⟨body, listed⟩ := KernWriter.exists_featureBlock_iff.mpr ⟨wanted rfl, provided⟩
        exact FeatureFile.hasBlock_of_mem_appended
          (KernWriter.mem_statements_of_mem_featureBlocks listed)
    | mark writer =>
        obtain ⟨rfl, provided⟩ := offered
        obtain ⟨body, listed⟩ := MarkDraft.exists_mem_blocks.mpr ⟨wanted rfl, provided⟩
        exact FeatureFile.hasBlock_of_mem_appended (MarkWriter.mem_statements_of_mem_blocks listed)
    | cursive writer =>
        obtain ⟨rfl, rfl, plans⟩ := offered
        obtain ⟨body, listed⟩ := CursiveWriter.exists_mem_additions
          (CursiveWriter.additions_ne_nil_iff.mpr ⟨wanted rfl, plans⟩)
        exact FeatureFile.hasBlock_of_mem_appended listed
    | definitions writer =>
        obtain ⟨rfl, rfl, some⟩ := offered
        have table : file.table? FeatureFile.definitionBlock = none := by
          rw [FeatureFile.hasBlock_table_iff] at present
          exact Option.not_isSome_iff_eq_none.mp present
        have made : ((definitions writer).contribution context file).appended =
            [.block .table FeatureFile.definitionBlock
              (DefinitionWriter.missing context.view [])] := by
          rw [contribution_definitions, DefinitionWriter.contribution, table]
          exact if_neg fun none => some (List.isEmpty_iff.mp none)
        exact FeatureFile.hasBlock_of_mem_appended (made ▸ List.mem_singleton_self _)

/-- A file that settles a writer does so with any further contribution. -/
theorem Settled.applyTo (settled : writer.Settled context file) (other : BuiltinWriter) :
    writer.Settled context ((other.contribution context file).applyTo file) := by
  intro kind name offered
  rw [offers_congr (other.alike_applyTo context file)] at offered
  exact (settled kind name offered).applyTo _

theorem Settled.fileAfter (settled : writer.Settled context file) (writers : List BuiltinWriter) :
    writer.Settled context (fileAfter context file writers) := by
  induction writers generalizing file with
  | nil => exact settled
  | cons other rest ih => exact ih (settled.applyTo other)

/-- A run settles each of its writers. -/
theorem settled_fileAfter {writers : List BuiltinWriter}
    (skips : ∀ writer ∈ writers, writer.overlap = .skip) (context : LayoutContext α)
    (file : FeatureFile) :
    ∀ writer ∈ writers, writer.Settled context (BuiltinWriter.fileAfter context file writers) := by
  induction writers generalizing file with
  | nil => exact fun _ listed => nomatch listed
  | cons first rest ih =>
      intro writer listed
      rcases List.mem_cons.mp listed with rfl | later
      · exact (settled_applyTo (skips writer List.mem_cons_self) context file).fileAfter rest
      · exact ih (fun other member => skips other (List.mem_cons_of_mem _ member)) _ writer later

/-- Settled writers leave the file as it is and report that they wrote nothing. -/
theorem run_of_settled {writers : List BuiltinWriter}
    (skips : ∀ writer ∈ writers, writer.overlap = .skip)
    (settled : ∀ writer ∈ writers, writer.Settled context file) :
    BuiltinWriter.fileAfter context file writers = file ∧
      reportsAfter context file writers =
        writers.map fun writer => ⟨writer.kind.name, false⟩ := by
  induction writers with
  | nil => exact ⟨rfl, rfl⟩
  | cons writer rest ih =>
      have none := contribution_eq_empty (skips writer List.mem_cons_self)
        (settled writer List.mem_cons_self)
      obtain ⟨sameFile, sameReports⟩ := ih
        (fun other listed => skips other (List.mem_cons_of_mem _ listed))
        fun other listed => settled other (List.mem_cons_of_mem _ listed)
      rw [BuiltinWriter.fileAfter, List.foldl_cons, reportsAfter, none,
        Contribution.applyTo_empty, sameReports]
      exact ⟨sameFile, rfl⟩

end BuiltinWriter

/-! ## The second run -/

section Runs

variable {α : Type} [Coordinate α]

/-- Writers that skip what is there write nothing more when they run again. -/
theorem writeLayout_idempotent (view : FontView α) (characters : CharacterData)
    (file : FeatureFile) {writers : List BuiltinWriter}
    (skips : ∀ writer ∈ writers, writer.overlap = .skip) {reports : List WriterReport}
    (succeeds : (view.writeLayout characters file
      (writers.map BuiltinWriter.toWriter)).reports = .ok reports) :
    let first := view.writeLayout characters file (writers.map BuiltinWriter.toWriter)
    let second := view.writeLayout characters first.file (writers.map BuiltinWriter.toWriter)
    second.reports = .ok (writers.map fun writer => ⟨writer.kind.name, false⟩) ∧
      second.file = first.file := by
  unfold FontView.writeLayout at succeeds ⊢
  cases map : LayoutContext.ofView view characters with
  | error fault =>
      rw [map] at succeeds
      cases succeeds
  | ok context =>
      rw [map] at succeeds
      dsimp only at succeeds ⊢
      rw [BuiltinWriter.runOrder_map_toWriter] at succeeds ⊢
      have steps := BuiltinWriter.step_ne_zero_of_runWriters succeeds
      obtain ⟨firstFile, -⟩ := BuiltinWriter.runWriters_eq context file steps
      obtain ⟨secondFile, secondReports⟩ := BuiltinWriter.runWriters_eq context
        (BuiltinWriter.fileAfter context file writers) steps
      obtain ⟨sameFile, sameReports⟩ := BuiltinWriter.run_of_settled skips
        (BuiltinWriter.settled_fileAfter skips context file)
      rw [firstFile, secondReports, secondFile, sameReports, sameFile]
      exact ⟨rfl, rfl⟩

end Runs

/-- A letter that joins the next one and is kerned with itself, and an accent for it
with which it is kerned too. -/
def accentFont : Font Rat where
  glyphs := .ofList [
    { name := "a", width := 500, height := 0, codepoints := [0x61],
      anchors := [⟨some "top", ⟨250, 500⟩⟩, ⟨some "entry", ⟨0, 0⟩⟩, ⟨some "exit", ⟨500, 0⟩⟩] },
    { name := "acute", width := 0, height := 0, codepoints := [0x301],
      anchors := [⟨some "_top", ⟨0, 500⟩⟩, ⟨some "top", ⟨0, 700⟩⟩] }]
  kerning := .ofList [(("a", "a"), -20), (("a", "acute"), 10)]
  categories := .ofList [("a", .base), ("acute", .mark)]

def skippingWriters : List BuiltinWriter := [.kern {}, .mark {}, .cursive {}, .definitions {}]

/-- All four writers write on the first run, and none of them on the second. -/
theorem writeLayout_accentFont_twice :
    let first := accentFont.whole.writeLayout .builtin {}
      (skippingWriters.map BuiltinWriter.toWriter)
    let second := accentFont.whole.writeLayout .builtin first.file
      (skippingWriters.map BuiltinWriter.toWriter)
    first.reports = .ok (skippingWriters.map fun writer => ⟨writer.kind.name, true⟩) ∧
      second.reports = .ok (skippingWriters.map fun writer => ⟨writer.kind.name, false⟩) ∧
      second.file = first.file := by
  have wrote : (accentFont.whole.writeLayout .builtin {}
      (skippingWriters.map BuiltinWriter.toWriter)).reports =
        .ok (skippingWriters.map fun writer => ⟨writer.kind.name, true⟩) := by
    decide +kernel
  exact ⟨wrote, writeLayout_idempotent accentFont.whole .builtin {} (by decide) wrote⟩

end FontCompiler
