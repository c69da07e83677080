import FontCompiler.Proofs.Attachment.CursivePlan
import FontCompiler.Proofs.Attachment.MarkAdditions

/-!
# Attachments drafted for different files

Plans give the same lookups in two feature files that have the same mark classes
and the same names of the kinds that the plans take.
-/

namespace FontCompiler

section Marks

variable {file other : FeatureFile} {glyphs : List AnchoredGlyph}

/-- Whether the same classes are in use, and the same names of their kind taken. -/
structure MarkClasses.Agree (classes others : MarkClasses) : Prop where
  taken : AgreeFor classMaker? .mark classes.taken others.taken
  used : classes.used = others.used

theorem MarkClasses.choose_congr (same : file.markClasses = other.markClasses)
    {taken otherTaken : SortedSet String} (agree : AgreeFor classMaker? .mark taken otherTaken)
    (anchor : String) (marks : List (GlyphName × Place)) :
    choose file taken anchor marks = choose other otherTaken anchor marks := by
  have begins : classMaker? "MC" = some .mark := rfl
  unfold choose
  dsimp only
  rw [same, agree.freshClassName_eq (classMaker?_append begins anchor)]

/-- Both files have no class for an anchor, or the same one. -/
theorem MarkClasses.Agree.use? {classes others : MarkClasses} (agree : classes.Agree others)
    (same : file.markClasses = other.markClasses) (anchor : String) :
    classes.use? file glyphs anchor = none ∧ others.use? other glyphs anchor = none ∨
      ∃ className further otherFurther,
        classes.use? file glyphs anchor = some (className, further) ∧
        others.use? other glyphs anchor = some (className, otherFurther) ∧
        further.Agree otherFurther := by
  unfold MarkClasses.use?
  rw [agree.used]
  split
  · exact .inr ⟨_, _, _, rfl, rfl, agree⟩
  · dsimp only
    split
    · exact .inl ⟨rfl, rfl⟩
    · rw [choose_congr same agree.taken]
      exact .inr ⟨_, _, _, rfl, rfl, agree.taken.insert _, rfl⟩

namespace MarkDraft

/-- Whether drafts hold the same lookups and classes, and their files the same
names of the kinds that marks take. -/
structure Agree (draft further : MarkDraft) : Prop where
  classes : draft.classes.Agree further.classes
  lookupNames : AgreeFor lookupMaker? .mark draft.lookupNames further.lookupNames
  lookups : draft.lookups = further.lookups

variable {draft further : MarkDraft}

theorem Agree.addPlanned (agree : Agree draft further) (plan : MarkPlan) (className : String)
    {classes others : MarkClasses} (classesAgree : classes.Agree others) :
    Agree (addPlanned plan className classes draft)
      (MarkDraft.addPlanned plan className others further) := by
  have named := lookupMaker?_freshName plan.named further.lookupNames
  rw [addPlanned_eq, addPlanned_eq, agree.lookupNames.freshName_eq plan.named, agree.lookups,
    classesAgree.taken.freshClassName_eq
      (classMaker?_append (classMaker?_of_lookupMaker?_mark named) _)]
  refine ⟨?_, agree.lookupNames.insert _, rfl⟩
  dsimp only
  split
  · exact ⟨classesAgree.taken.insert _, classesAgree.used⟩
  · exact classesAgree

theorem Agree.addPlan (agree : Agree draft further) (same : file.markClasses = other.markClasses)
    (plan : MarkPlan) :
    Agree (addPlan file glyphs draft plan) (MarkDraft.addPlan other glyphs further plan) := by
  unfold MarkDraft.addPlan
  split
  · exact agree
  · rcases agree.classes.use? same plan.anchor with
      ⟨unused, alsoUnused⟩ | ⟨className, classes, others, used, alsoUsed, classesAgree⟩
    · rw [unused, alsoUnused]
      exact agree
    · rw [used, alsoUsed]
      exact agree.addPlanned plan className classesAgree

theorem Agree.foldl (agree : Agree draft further) (same : file.markClasses = other.markClasses)
    (plans : List MarkPlan) :
    Agree (plans.foldl (MarkDraft.addPlan file glyphs) draft)
      (plans.foldl (MarkDraft.addPlan other glyphs) further) := by
  induction plans generalizing draft further with
  | nil => exact agree
  | cons plan rest ih => exact ih (agree.addPlan same plan)

end MarkDraft

open MarkDraft

/-- The mark writer adds the same to files with the same mark classes and the same
names of the kinds that it takes. -/
theorem MarkWriter.statements_congr (same : file.markClasses = other.markClasses)
    (lookups : AgreeFor lookupMaker? .mark file.lookupNames other.lookupNames)
    (classes : AgreeFor classMaker? .mark file.classNames other.classNames)
    (wanted : List String) (glyphs : List AnchoredGlyph) :
    MarkWriter.statements file wanted glyphs = MarkWriter.statements other wanted glyphs := by
  have start : Agree (start file) (start other) := ⟨⟨classes, rfl⟩, lookups, rfl⟩
  have bases : Agree (ofBases file wanted glyphs) (ofBases other wanted glyphs) :=
    start.foldl same _
  have between : Agree { ofBases file wanted glyphs with lookups := [] }
      { ofBases other wanted glyphs with lookups := [] } :=
    ⟨bases.classes, bases.lookupNames, rfl⟩
  have marks : Agree (ofMarks file wanted glyphs) (ofMarks other wanted glyphs) :=
    between.foldl same _
  have blocks : blocks file wanted glyphs = MarkDraft.blocks other wanted glyphs := by
    unfold MarkDraft.blocks block
    rw [bases.lookups, marks.lookups]
  rw [statements_eq, statements_eq, blocks, MarkClasses.definitions, MarkClasses.definitions,
    marks.classes.used]

end Marks

/-- Plans give the same lookups when the same names of their kind are taken. -/
theorem CursivePlan.lookups_congr {α : Type} [Coordinate α] {taken other : SortedSet String}
    (agree : AgreeFor lookupMaker? .cursive taken other) (plans : List (CursivePlan α)) :
    lookups taken plans = lookups other plans := by
  induction plans generalizing taken other with
  | nil => rfl
  | cons plan rest ih =>
      rw [lookups, lookups, agree.freshName_eq plan.named]
      exact congrArg _ (ih (agree.insert _))

end FontCompiler
