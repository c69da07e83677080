import FontCompiler.Proofs.Kerning.Standing
import FontCompiler.Proofs.Layout.Contribution

/-!
# Coherent files stay coherent

Whatever built-in writers run on whatever fonts, one after the other, a coherent
feature file stays coherent, and the glyph classes that it defines stay defined. So
what a kerning rule stands for when it is written, it stands for after the whole run.
-/

namespace FontCompiler

open Statement

def Statement.glyphClass? : Statement → Option GlyphClass
  | glyphClass definition => some definition
  | _ => none

theorem Statement.mem_filterMap_glyphClass? {statements : List Statement}
    {definition : GlyphClass} : definition ∈ statements.filterMap glyphClass? ↔
      .glyphClass definition ∈ statements := by
  rw [List.mem_filterMap]
  constructor
  · rintro ⟨statement, listed, same⟩
    cases statement with
    | glyphClass other =>
        cases same
        exact listed
    | _ => cases same
  · exact fun listed => ⟨_, listed, rfl⟩

/-- A file keeps its glyph classes when a contribution that fits is made. -/
theorem Contribution.glyphClass_mem_applyTo {contribution : Contribution} {file : FeatureFile}
    (fits : contribution.Fits file) {definition : GlyphClass}
    (listed : .glyphClass definition ∈ file.allStatements) :
    .glyphClass definition ∈ (contribution.applyTo file).allStatements := by
  have silent : (visit contribution.definitions).filterMap Statement.glyphClass? = [] := by
    refine List.filterMap_eq_nil_iff.mpr fun statement member => ?_
    have none := (fits.plain statement member).1.2.1
    cases statement with
    | glyphClass other => cases none
    | _ => rfl
  rw [← Statement.mem_filterMap_glyphClass?] at listed ⊢
  rw [Contribution.filterMap_allStatements (fun _ _ => rfl) silent]
  exact List.mem_append_left _ listed

/-- A built-in writer that runs with what it knows of a font. -/
structure WriterStep (α : Type) where
  context : LayoutContext α
  writer : BuiltinWriter

namespace WriterStep

variable {α : Type} [Coordinate α] {file : FeatureFile}

/-- The file that the writer leaves, which is the old one when the writer fails. -/
def fileAfter (step : WriterStep α) (file : FeatureFile) : FeatureFile :=
  match step.writer.toWriter.write step.context file with
  | .ok written => written.file
  | .error _ => file

/-- The file after steps, one after the other. -/
def run (steps : List (WriterStep α)) (file : FeatureFile) : FeatureFile :=
  steps.foldl (fun current step => step.fileAfter current) file

/-- A run of writers on a font is a sequence of steps. -/
theorem exists_run_eq_writeLayout (view : FontView α) (characters : CharacterData)
    (file : FeatureFile) (writers : List BuiltinWriter) :
    ∃ steps : List (WriterStep α), run steps file =
      (view.writeLayout characters file (writers.map BuiltinWriter.toWriter)).file := by
  unfold FontView.writeLayout
  cases LayoutContext.ofView view characters with
  | error fault => exact ⟨[], rfl⟩
  | ok context =>
      dsimp only
      rw [BuiltinWriter.runOrder_map_toWriter]
      induction writers generalizing file with
      | nil => exact ⟨[], rfl⟩
      | cons writer rest ih =>
          rw [List.map_cons, runWriters]
          cases wrote : writer.toWriter.write context file with
          | error error => exact ⟨[], rfl⟩
          | ok written =>
              obtain ⟨steps, same⟩ := ih written.file
              refine ⟨⟨context, writer⟩ :: steps, ?_⟩
              rw [run, List.foldl_cons, ← run, fileAfter, wrote]
              exact same

/-- A step makes the contribution of its writer, or none. -/
theorem fileAfter_cases (step : WriterStep α) (file : FeatureFile) :
    step.fileAfter file = file ∨
      step.fileAfter file = (step.writer.contribution step.context file).applyTo file := by
  unfold fileAfter
  by_cases noStep : step.writer.step = 0
  · rw [step.writer.write_eq_error noStep]
    exact .inl rfl
  · obtain ⟨notices, wrote⟩ := step.writer.write_eq_contributing noStep step.context file
    rw [wrote]
    exact .inr rfl

/-- What a step keeps: the file stays coherent, and its glyph classes stay defined. -/
theorem fileAfter_keeps (step : WriterStep α) (coherent : file.Coherent) :
    (step.fileAfter file).Coherent ∧ ∀ definition : GlyphClass,
      .glyphClass definition ∈ file.allStatements →
        .glyphClass definition ∈ (step.fileAfter file).allStatements := by
  rcases step.fileAfter_cases file with same | same
  · rw [same]
    exact ⟨coherent, fun _ listed => listed⟩
  · have fits := step.writer.fits_contribution step.context coherent
    rw [same]
    exact ⟨Contribution.coherent_applyTo fits coherent,
      fun _ listed => Contribution.glyphClass_mem_applyTo fits listed⟩

/-- What a sequence of steps keeps. -/
theorem run_keeps (steps : List (WriterStep α)) (coherent : file.Coherent) :
    (run steps file).Coherent ∧ ∀ definition : GlyphClass,
      .glyphClass definition ∈ file.allStatements →
        .glyphClass definition ∈ (run steps file).allStatements := by
  induction steps generalizing file with
  | nil => exact ⟨coherent, fun _ listed => listed⟩
  | cons step rest ih =>
      obtain ⟨stepCoherent, stepKept⟩ := step.fileAfter_keeps coherent
      obtain ⟨restCoherent, restKept⟩ := ih stepCoherent
      exact ⟨restCoherent, fun definition listed =>
        restKept definition (stepKept definition listed)⟩

/-- A run of built-in writers keeps a file coherent, whatever the font. -/
theorem coherent_writeLayout (coherent : file.Coherent) (view : FontView α)
    (characters : CharacterData) (writers : List BuiltinWriter) :
    (view.writeLayout characters file (writers.map BuiltinWriter.toWriter)).file.Coherent := by
  obtain ⟨steps, same⟩ := exists_run_eq_writeLayout view characters file writers
  rw [← same]
  exact (run_keeps steps coherent).1

/-- A step of the kerning writer adds statements whose rules stand for split pairs
in every coherent file that keeps the glyph classes of the file after the step. -/
theorem exists_append_of_kern (context : LayoutContext α) (writer : KernWriter)
    {final : FeatureFile} (coherent : final.Coherent)
    (kept : ∀ definition : GlyphClass,
      .glyphClass definition ∈ (fileAfter ⟨context, .kern writer⟩ file).allStatements →
        .glyphClass definition ∈ final.allStatements) :
    ∃ added, fileAfter ⟨context, .kern writer⟩ file = file.append added ∧
      (writer.kernSetting context file).StandsIn final added := by
  rcases fileAfter_cases ⟨context, .kern writer⟩ file with same | same
  · rw [same]
    exact ⟨[], by simp [FeatureFile.append], KernSetting.standsIn_nil _ final⟩
  · rw [BuiltinWriter.contribution_kern, Contribution.applyTo, FeatureFile.extendTable_nil] at same
    rcases writer.statements_cases context file with none | some
    · rw [same, none]
      exact ⟨[], rfl, KernSetting.standsIn_nil _ final⟩
    · rw [some] at same
      refine ⟨_, same, KernSetting.standsIn_additions coherent.classes fun statement listed => ?_⟩
      obtain ⟨row, named, rfl⟩ := KernClassNames.mem_definitions.mp listed
      refine kept _ ?_
      rw [same]
      exact KernSetting.mem_extended_of_mem_additions (KernSetting.mem_additions.mpr (.inl listed))

/-- A coherent file stays coherent through any steps, and the rules that a step of
the kerning writer adds stand in the final file for the pairs that were split. -/
theorem run_coherent (coherent : file.Coherent) (steps : List (WriterStep α)) :
    (run steps file).Coherent ∧
      ∀ earlier context writer later, steps = earlier ++ ⟨context, .kern writer⟩ :: later →
        let before := run earlier file
        ∃ added, fileAfter ⟨context, .kern writer⟩ before = before.append added ∧
          (writer.kernSetting context before).StandsIn (run steps file) added := by
  obtain ⟨finalCoherent, -⟩ := run_keeps steps coherent
  refine ⟨finalCoherent, fun earlier context writer later split => ?_⟩
  obtain ⟨beforeCoherent, -⟩ := run_keeps earlier coherent
  obtain ⟨stepCoherent, -⟩ := fileAfter_keeps ⟨context, .kern writer⟩ beforeCoherent
  obtain ⟨-, laterKept⟩ := run_keeps later stepCoherent
  have whole : run steps file =
      run later (fileAfter ⟨context, .kern writer⟩ (run earlier file)) := by
    rw [split, run, List.foldl_append]
    rfl
  rw [whole] at finalCoherent ⊢
  exact exists_append_of_kern context writer finalCoherent laterKept

end WriterStep

/-- A file that kerns a letter in a lookup and through a class that have the names
that the kerning writer wants. -/
def takenNames : FeatureFile where
  statements := [
    .glyphClass ⟨"kern1.Latn.A", ["b"]⟩,
    .block .lookup "kern_Latn"
      [.position (.pair (.named "kern1.Latn.A") (.glyph "b") (.advance 10) true)]]

/-- A font that kerns the group of one letter with another. -/
def groupedFont : Font Rat where
  glyphs := .ofList [
    { name := "a", width := 500, height := 0, codepoints := [0x61] },
    { name := "b", width := 500, height := 0, codepoints := [0x62] }]
  groups := .ofList [("public.kern1.A", ["a"])]
  kerning := .ofList [(("public.kern1.A", "b"), -30)]

/-- The kerning of the font, and then its marks. -/
def groupedSteps : List (WriterStep Rat) :=
  let context : LayoutContext Rat :=
    ⟨groupedFont.whole, .builtin, groupedFont.whole.characterMap.toOption.getD ∅⟩
  [⟨context, .kern {}⟩, ⟨context, .mark {}⟩]

/-- The kerning writer takes other names, and its class has the letter of the group. -/
theorem run_groupedSteps_coherent :
    let final := WriterStep.run groupedSteps takenNames
    takenNames.Coherent ∧ final.Coherent ∧ final.classMembers "kern1.Latn.A_1" = ["a"] ∧
      ∀ earlier context writer later,
        groupedSteps = earlier ++ ⟨context, .kern writer⟩ :: later →
          let before := WriterStep.run earlier takenNames
          ∃ added, WriterStep.fileAfter ⟨context, .kern writer⟩ before = before.append added ∧
            (writer.kernSetting context before).StandsIn final added := by
  have coherent : takenNames.Coherent := by
    constructor <;> decide +kernel
  obtain ⟨final, stands⟩ := WriterStep.run_coherent coherent groupedSteps
  exact ⟨coherent, final, by decide +kernel, stands⟩

end FontCompiler
