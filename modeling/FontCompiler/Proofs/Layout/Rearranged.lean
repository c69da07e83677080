import FontCompiler.Proofs.Font.Rearranged
import FontCompiler.Proofs.Kerning.Canonical
import FontCompiler.Proofs.Layout.Idempotence

/-!
# Layout of fonts filled in another order

Writers contribute the same for fonts that hold the same glyphs, kerning and
categories, in whatever order they hold them.
-/

namespace FontCompiler

section Contexts

variable {α : Type} [Coordinate α] {context other : LayoutContext α} {file : FeatureFile}

/-- Whether two contexts differ at most in the order in which their views hold what they hold. -/
structure LayoutContext.Rearranged (context other : LayoutContext α) : Prop where
  view : context.view.Rearranged other.view
  characters : context.characters = other.characters
  map : context.map = other.map

omit [Coordinate α] in
/-- Views that hold the same have rearranged contexts, or the same fault. -/
theorem LayoutContext.ofView_cases {view otherView : FontView α}
    (same : view.Rearranged otherView) (characters : CharacterData) :
    (∃ fault, ofView view characters = .error fault ∧ ofView otherView characters = .error fault) ∨
      ∃ context other : LayoutContext α, ofView view characters = .ok context ∧
        ofView otherView characters = .ok other ∧ context.Rearranged other := by
  unfold ofView
  rw [same.characterMap_eq]
  cases otherView.characterMap with
  | error fault => exact .inl ⟨fault, rfl, rfl⟩
  | ok map => exact .inr ⟨_, _, rfl, rfl, same, rfl, rfl⟩

namespace LayoutContext.Rearranged

variable (same : context.Rearranged other)
include same

omit [Coordinate α] in
theorem classesBy_eq {κ : Type} [Ord κ] [DecidableEq κ] [Std.TransOrd κ]
    (classes : CharacterData → Codepoint → List κ) :
    context.classesBy file (classes context.characters) =
      other.classesBy file (classes other.characters) := by
  rw [classesBy, classesBy, same.map, same.characters]

omit [Coordinate α] in
theorem scriptsByGlyph_eq : context.scriptsByGlyph file = other.scriptsByGlyph file :=
  congrArg keysByGlyph (same.classesBy_eq fun characters codepoint =>
    (characters.extensions codepoint).toList.map fun script =>
      if script = .unknown then .common else script)

omit [Coordinate α] in
theorem directionsByGlyph_eq : context.directionsByGlyph file = other.directionsByGlyph file :=
  congrArg keysByGlyph (same.classesBy_eq fun characters codepoint =>
    (characters.strongDirection? codepoint).toList)

omit [Coordinate α] in
theorem leftToRightGlyphs_eq : context.leftToRightGlyphs file = other.leftToRightGlyphs file :=
  congrArg (fun classes => classes.findD .leftToRight ∅)
    (same.classesBy_eq fun characters codepoint => [characters.scriptDirection codepoint])

omit [Coordinate α] in
theorem glyphClasses?_eq : context.glyphClasses? file = other.glyphClasses? file := by
  unfold glyphClasses?
  rw [same.view.categories.isEmpty_eq, same.view.ofCategories_eq]

/-- The kerning pairs are the same, up to their order. -/
theorem mem_kernPairs_iff (pair : KerningPair α) :
    pair ∈ context.kernPairs ↔ pair ∈ other.kernPairs := by
  unfold kernPairs kernGroups
  rw [mem_resolvedPairs, mem_resolvedPairs, same.view.contains_eq, same.view.groups]
  simp only [List.Perm.mem_iff same.view.kerning]

/-- Kerning is made from the same pairs and marks. -/
theorem kernSetting_eq (writer : KernWriter) :
    writer.kernSetting context file = writer.kernSetting other file := by
  have agree : LabelsAgree context.kernPairs := labelsAgree_resolvedPairs context.view.kerning
  have halves := splitByScript_halfPairs_congr agree same.mem_kernPairs_iff
  have marks : writer.marks context file = writer.marks other file := by
    rw [KernWriter.marks, KernWriter.marks, same.glyphClasses?_eq]
  unfold KernWriter.kernSetting KernWriter.setting
  dsimp only
  rw [marks, same.scriptsByGlyph_eq, same.directionsByGlyph_eq, same.view.glyph?_eq]
  exact congr (congrArg (KernSetting.mk writer _ _)
    (halves (other.scriptsByGlyph file) (writer.marks other file) false))
    (halves (other.scriptsByGlyph file) (writer.marks other file) true)

/-- A writer contributes the same, whatever the order. -/
theorem contribution_eq (writer : BuiltinWriter) :
    writer.contribution context file = writer.contribution other file := by
  cases writer with
  | kern writer =>
      have blocks : KernWriter.blocks context file = @KernWriter.blocks α other file := by
        unfold KernWriter.blocks
        rw [same.scriptsByGlyph_eq]
      have statements : writer.statements context file = writer.statements other file := by
        unfold KernWriter.statements KernWriter.featureBlocks KernWriter.lookups
          KernSetting.additions
        rw [same.kernSetting_eq, blocks]
      rw [BuiltinWriter.contribution_kern, BuiltinWriter.contribution_kern, statements]
  | mark writer =>
      have additions : writer.additions context file = writer.additions other file := by
        unfold MarkWriter.additions MarkWriter.glyphs
        rw [same.view.glyphsInOrder_eq, same.glyphClasses?_eq]
      rw [BuiltinWriter.contribution_mark, BuiltinWriter.contribution_mark, additions]
  | cursive writer =>
      have additions : writer.additions context file = writer.additions other file := by
        unfold CursiveWriter.additions CursiveWriter.plans
        rw [same.view.glyphsInOrder_eq, same.leftToRightGlyphs_eq]
      rw [BuiltinWriter.contribution_cursive, BuiltinWriter.contribution_cursive, additions]
  | definitions writer =>
      rw [BuiltinWriter.contribution_definitions, BuiltinWriter.contribution_definitions]
      unfold DefinitionWriter.contribution
      simp only [same.view.missing_eq]

/-- A run leaves the same file and reports the same, also when it fails. -/
theorem runWriters_eq (writers : List BuiltinWriter) :
    (runWriters context file (writers.map BuiltinWriter.toWriter)).file =
        (runWriters other file (writers.map BuiltinWriter.toWriter)).file ∧
      (runWriters context file (writers.map BuiltinWriter.toWriter)).reports =
        (runWriters other file (writers.map BuiltinWriter.toWriter)).reports := by
  induction writers generalizing file with
  | nil => exact ⟨rfl, rfl⟩
  | cons writer rest ih =>
      rw [List.map_cons, runWriters, runWriters]
      by_cases noStep : writer.step = 0
      · rw [writer.write_eq_error noStep, writer.write_eq_error noStep]
        exact ⟨rfl, rfl⟩
      · obtain ⟨notices, wrote⟩ := writer.write_eq_contributing noStep context file
        obtain ⟨otherNotices, otherWrote⟩ := writer.write_eq_contributing noStep other file
        rw [wrote, otherWrote, same.contribution_eq]
        dsimp only [Written.contributing]
        obtain ⟨files, reports⟩ := @ih ((writer.contribution other file).applyTo file)
        exact ⟨files, by rw [reports]⟩

end LayoutContext.Rearranged

/-- Views that hold the same, in whatever order, have the same layout. -/
theorem FontView.Rearranged.writeLayout_eq {view otherView : FontView α}
    (same : view.Rearranged otherView) (characters : CharacterData) (file : FeatureFile)
    (writers : List BuiltinWriter) :
    let run := view.writeLayout characters file (writers.map BuiltinWriter.toWriter)
    let otherRun := otherView.writeLayout characters file (writers.map BuiltinWriter.toWriter)
    run.reports = otherRun.reports ∧ run.file = otherRun.file := by
  dsimp only
  unfold writeLayout
  rcases LayoutContext.ofView_cases same characters with
    ⟨fault, failed, otherFailed⟩ | ⟨context, other, found, otherFound, contexts⟩
  · rw [failed, otherFailed]
    exact ⟨rfl, rfl⟩
  · rw [found, otherFound]
    dsimp only
    rw [BuiltinWriter.runOrder_map_toWriter]
    exact (contexts.runWriters_eq writers).symm

/-- Fonts filled in another order have the same layout, whole or without the glyphs
that are not exported: the same reports and files, or the same errors. -/
theorem writeLayout_eq_of_rearranged {font other : Font α} (same : font.Rearranged other)
    (characters : CharacterData) (file : FeatureFile) (writers : List BuiltinWriter) :
    let run := fun view : FontView α =>
      view.writeLayout characters file (writers.map BuiltinWriter.toWriter)
    ((run font.whole).reports = (run other.whole).reports ∧
        (run font.whole).file = (run other.whole).file) ∧
      (run font.exported).reports = (run other.exported).reports ∧
        (run font.exported).file = (run other.exported).file :=
  ⟨same.whole.writeLayout_eq characters file writers,
    same.exported.writeLayout_eq characters file writers⟩

/-- The font with its glyphs, kerning and categories last to first. -/
def Font.reverse (font : Font α) : Font α :=
  { font with
    glyphs := font.glyphs.reverse
    kerning := font.kerning.reverse
    categories := font.categories.reverse }

omit [Coordinate α] in
theorem Font.rearranged_reverse (font : Font α) : font.Rearranged font.reverse where
  glyphs := font.glyphs.rearranged_reverse
  kerning := font.kerning.rearranged_reverse
  categories := font.categories.rearranged_reverse
  declaredOrder := rfl
  groups := rfl
  hidden := rfl

end Contexts

/-- The letter and its accent in the other order: all writers write the same. -/
theorem writeLayout_accentFont_reverse :
    let run := fun view : FontView Rat =>
      view.writeLayout .builtin {} (skippingWriters.map BuiltinWriter.toWriter)
    accentFont.Rearranged accentFont.reverse ∧
      accentFont.glyphs.keys ≠ accentFont.reverse.glyphs.keys ∧
      (run accentFont.whole).reports =
        .ok (skippingWriters.map fun writer => ⟨writer.kind.name, true⟩) ∧
      ((run accentFont.whole).reports = (run accentFont.reverse.whole).reports ∧
          (run accentFont.whole).file = (run accentFont.reverse.whole).file) ∧
        (run accentFont.exported).reports = (run accentFont.reverse.exported).reports ∧
          (run accentFont.exported).file = (run accentFont.reverse.exported).file :=
  ⟨accentFont.rearranged_reverse, by decide, by decide +kernel,
    writeLayout_eq_of_rearranged accentFont.rearranged_reverse .builtin {} skippingWriters⟩

end FontCompiler
