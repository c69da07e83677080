import FontCompiler.Proofs.Feature.Contribution
import FontCompiler.Proofs.Feature.NewNames

/-!
# Coherent feature files

In a coherent feature file every lookup and every class of glyphs has a name of
its own, and every name that is used is defined. A contribution keeps a file
coherent when the names that it defines are new and those that it uses are
defined in the file or in itself.
-/

namespace FontCompiler

def PairSide.className? : PairSide → Option String
  | glyph _ => none
  | named name => some name
  | listed _ => none

def PositionRule.classUses : PositionRule → List String
  | pair first second _ _ => first.className?.toList ++ second.className?.toList
  | markToBase _ marks => marks.map AttachmentPoint.className
  | markToLigature _ parts => parts.flatten.map AttachmentPoint.className
  | markToMark _ marks => marks.map AttachmentPoint.className
  | cursive _ _ _ => []

namespace Statement

/-- The name of the lookup that a statement is. -/
def lookupName? : Statement → Option String
  | block .lookup name _ => some name
  | _ => none

def glyphClassName? : Statement → Option String
  | glyphClass definition => some definition.name
  | _ => none

def markClassName? : Statement → Option String
  | markClass entry => some entry.className
  | _ => none

/-- Whether a statement is no lookup and defines no class. -/
def DefinesNothing (statement : Statement) : Prop :=
  statement.lookupName? = none ∧ statement.glyphClassName? = none ∧ statement.markClassName? = none

def lookupUses : Statement → List String
  | lookupReference name => [name]
  | _ => []

def classUses : Statement → List String
  | lookupFlag flag => flag.filterClass.toList
  | position rule => rule.classUses
  | _ => []

/-- The names of the lookups among some statements and inside them. -/
def definedLookups (statements : List Statement) : List String :=
  (visit statements).filterMap lookupName?

/-- The names of the glyph classes that some statements and those inside them define. -/
def definedGlyphClasses (statements : List Statement) : List String :=
  (visit statements).filterMap glyphClassName?

/-- The names of the mark classes that some statements and those inside them define. -/
def definedMarkClasses (statements : List Statement) : List String :=
  (visit statements).filterMap markClassName?

theorem defined_eq_nil {statements : List Statement}
    (nothing : ∀ statement ∈ visit statements, statement.DefinesNothing) :
    definedLookups statements = [] ∧ definedGlyphClasses statements = [] ∧
      definedMarkClasses statements = [] :=
  ⟨List.filterMap_eq_nil_iff.mpr fun statement listed => (nothing statement listed).1,
    List.filterMap_eq_nil_iff.mpr fun statement listed => (nothing statement listed).2.1,
    List.filterMap_eq_nil_iff.mpr fun statement listed => (nothing statement listed).2.2⟩

section Append

variable (statements others : List Statement)

theorem definedLookups_append :
    definedLookups (statements ++ others) = definedLookups statements ++ definedLookups others := by
  rw [definedLookups, visit_append, List.filterMap_append]
  rfl

theorem definedGlyphClasses_append : definedGlyphClasses (statements ++ others) =
    definedGlyphClasses statements ++ definedGlyphClasses others := by
  rw [definedGlyphClasses, visit_append, List.filterMap_append]
  rfl

theorem definedMarkClasses_append : definedMarkClasses (statements ++ others) =
    definedMarkClasses statements ++ definedMarkClasses others := by
  rw [definedMarkClasses, visit_append, List.filterMap_append]
  rfl

end Append

end Statement

open Statement

namespace FeatureFile

/-- Whether no two lookups share a name, no class of glyphs shares its name with
another class, and all lookups and classes that are referred to are defined. -/
structure Coherent (file : FeatureFile) : Prop where
  lookups : (definedLookups file.statements).Nodup
  classes : (definedGlyphClasses file.statements).Nodup
  apart : ∀ name ∈ definedGlyphClasses file.statements, name ∉ definedMarkClasses file.statements
  lookupUses : ∀ statement ∈ file.allStatements, ∀ name ∈ statement.lookupUses,
    name ∈ definedLookups file.statements
  classUses : ∀ statement ∈ file.allStatements, ∀ name ∈ statement.classUses,
    name ∈ definedGlyphClasses file.statements ∨ name ∈ definedMarkClasses file.statements

variable {file : FeatureFile} {name : String}

theorem mem_lookupNames : name ∈ file.lookupNames ↔ name ∈ definedLookups file.statements := by
  unfold FeatureFile.lookupNames definedLookups
  rw [SortedSet.mem_ofList]
  rfl

theorem mem_classNames : name ∈ file.classNames ↔
    name ∈ definedGlyphClasses file.statements ∨ name ∈ definedMarkClasses file.statements := by
  unfold FeatureFile.classNames definedGlyphClasses definedMarkClasses
  rw [SortedSet.mem_ofList]
  simp only [List.mem_filterMap, ← exists_or, ← and_or_left]
  refine exists_congr fun statement => and_congr_right fun _ => ?_
  cases statement <;> simp [glyphClassName?, markClassName?]

/-- In a file whose glyph classes have distinct names, a class has the glyphs that
it is defined with. -/
theorem classMembers_eq (distinct : (definedGlyphClasses file.statements).Nodup)
    {definition : GlyphClass} (listed : .glyphClass definition ∈ file.allStatements) :
    file.classMembers definition.name = definition.glyphs := by
  unfold classMembers
  unfold definedGlyphClasses at distinct
  unfold allStatements at listed ⊢
  generalize visit file.statements = statements at distinct listed ⊢
  induction statements with
  | nil => cases listed
  | cons first rest ih =>
      have tail : (rest.filterMap glyphClassName?).Nodup :=
        distinct.sublist ((List.sublist_cons_self _ _).filterMap _)
      have isName : ∀ other : GlyphClass, glyphClassName? (.glyphClass other) = some other.name :=
        fun _ => rfl
      rw [List.flatMap_cons]
      rcases List.mem_cons.mp listed with rfl | later
      · -- The class is defined first, and by nothing after that.
        rw [List.filterMap_cons_some (isName _), List.nodup_cons] at distinct
        refine (congr (congrArg HAppend.hAppend (if_pos rfl))
          (List.flatMap_eq_nil_iff.mpr fun statement member => ?_)).trans (List.append_nil _)
        split
        · next other =>
            refine if_neg fun same => distinct.1 ?_
            exact List.mem_filterMap.mpr ⟨_, member, congrArg some same⟩
        · rfl
      · rw [ih tail later]
        cases first with
        | glyphClass other =>
            rw [List.filterMap_cons_some (isName _), List.nodup_cons] at distinct
            have different : ¬ other.name = definition.name := fun same =>
              distinct.1 (same ▸ List.mem_filterMap.mpr ⟨_, later, rfl⟩)
            exact congrArg (· ++ definition.glyphs) (if_neg different)
        | _ => rfl

theorem classMembers_append (file : FeatureFile) (added : List Statement) (name : String) :
    (file.append added).classMembers name =
      file.classMembers name ++ (FeatureFile.mk added).classMembers name := by
  unfold classMembers
  rw [allStatements_append, List.flatMap_append]
  rfl

theorem classMembers_eq_nil (free : name ∉ file.classNames) : file.classMembers name = [] := by
  refine List.eq_nil_iff_forall_not_mem.mpr fun glyph found => ?_
  obtain ⟨definition, listed, rfl, -⟩ := mem_classMembers.mp found
  exact free (mem_classNames_of_glyphClass listed)

end FeatureFile

namespace Contribution

variable {contribution : Contribution} {file : FeatureFile}

/-- A statement of the new file was there, is a table that has grown, or was contributed. -/
theorem mem_allStatements {statement : Statement}
    (found : statement ∈ (contribution.applyTo file).allStatements) :
    statement ∈ file.allStatements ∨
      (∃ body, statement = .block .table FeatureFile.definitionBlock body) ∨
      statement ∈ visit contribution.definitions ∨ statement ∈ visit contribution.appended := by
  rw [applyTo, FeatureFile.allStatements_append, List.mem_append] at found
  rcases found with found | appended
  · unfold FeatureFile.allStatements FeatureFile.extendTable at found
    unfold FeatureFile.allStatements
    dsimp only at found
    generalize file.statements = statements at found ⊢
    induction statements with
    | nil => exact .inl found
    | cons first rest ih =>
        cases table : first.body? .table FeatureFile.definitionBlock with
        | none =>
            rw [FeatureFile.extendFirstTable_other table, visit_cons, visit_append, List.mem_cons,
              List.mem_append] at found
            rw [visit_cons, visit_append, List.mem_cons, List.mem_append]
            rcases found with rfl | inside | later
            · exact .inl (.inl rfl)
            · exact .inl (.inr (.inl inside))
            · exact (ih later).imp_left fun old => .inr (.inr old)
        | some body =>
            rw [Statement.eq_block_of_body? table] at found ⊢
            rw [FeatureFile.extendFirstTable_table, visit_cons, children, visit_append,
              visit_append] at found
            rw [visit_cons, children, visit_append]
            simp only [List.mem_cons, List.mem_append] at found ⊢
            rcases found with rfl | (inside | added) | later
            · exact .inr (.inl ⟨_, rfl⟩)
            · exact .inl (.inr (.inl inside))
            · exact .inr (.inr (.inl added))
            · exact .inl (.inr (.inr later))
  · exact .inr (.inr (.inr appended))

/-- Whether what a contribution defines is new to a file, and what it uses is
defined in the file or in the contribution. -/
structure Fits (contribution : Contribution) (file : FeatureFile) : Prop where
  plain : ∀ statement ∈ visit contribution.definitions, statement.DefinesNothing ∧
    statement.lookupUses = [] ∧ statement.classUses = []
  lookups : ∃ after, NewNames file.lookupNames after (definedLookups contribution.appended)
  classes : ∃ after, NewNames file.classNames after (definedGlyphClasses contribution.appended)
  marks : ∀ name ∈ definedMarkClasses contribution.appended,
    name ∉ definedGlyphClasses file.statements ∧ name ∉ definedGlyphClasses contribution.appended
  lookupUses : ∀ statement ∈ visit contribution.appended, ∀ name ∈ statement.lookupUses,
    name ∈ definedLookups contribution.appended
  classUses : ∀ statement ∈ visit contribution.appended, ∀ name ∈ statement.classUses,
    name ∈ file.classNames ∨ name ∈ definedGlyphClasses contribution.appended ∨
      name ∈ definedMarkClasses contribution.appended

theorem fits_empty (file : FeatureFile) : Fits {} file where
  plain := by simp
  lookups := ⟨_, by simpa [definedLookups] using .start _⟩
  classes := ⟨_, by simpa [definedGlyphClasses] using .start _⟩
  marks := by simp [definedMarkClasses]
  lookupUses := by simp
  classUses := by simp

section Names

variable (fits : contribution.Fits file)
include fits

theorem definedLookups_applyTo : definedLookups (contribution.applyTo file).statements =
    definedLookups file.statements ++ definedLookups contribution.appended :=
  filterMap_allStatements (fun _ _ => rfl)
    (defined_eq_nil fun statement listed => (fits.plain statement listed).1).1

theorem definedGlyphClasses_applyTo : definedGlyphClasses (contribution.applyTo file).statements =
    definedGlyphClasses file.statements ++ definedGlyphClasses contribution.appended :=
  filterMap_allStatements (fun _ _ => rfl)
    (defined_eq_nil fun statement listed => (fits.plain statement listed).1).2.1

theorem definedMarkClasses_applyTo : definedMarkClasses (contribution.applyTo file).statements =
    definedMarkClasses file.statements ++ definedMarkClasses contribution.appended :=
  filterMap_allStatements (fun _ _ => rfl)
    (defined_eq_nil fun statement listed => (fits.plain statement listed).1).2.2

/-- A contribution that fits keeps a file coherent. -/
theorem coherent_applyTo (coherent : file.Coherent) : (contribution.applyTo file).Coherent := by
  obtain ⟨_, newLookups⟩ := fits.lookups
  obtain ⟨_, newClasses⟩ := fits.classes
  have lookups := definedLookups_applyTo fits
  have classes := definedGlyphClasses_applyTo fits
  have marks := definedMarkClasses_applyTo fits
  refine ⟨?_, ?_, ?_, ?_, ?_⟩
  · rw [lookups]
    refine List.nodup_append'.mpr ⟨coherent.lookups, newLookups.distinct, fun name old new => ?_⟩
    exact newLookups.free name new (FeatureFile.mem_lookupNames.mpr old)
  · rw [classes]
    refine List.nodup_append'.mpr ⟨coherent.classes, newClasses.distinct, fun name old new => ?_⟩
    exact newClasses.free name new (FeatureFile.mem_classNames.mpr (.inl old))
  · rw [classes, marks]
    intro name glyphs
    rw [List.mem_append]
    rintro (oldMark | newMark)
    · rcases List.mem_append.mp glyphs with old | new
      · exact coherent.apart name old oldMark
      · exact newClasses.free name new (FeatureFile.mem_classNames.mpr (.inr oldMark))
    · exact (List.mem_append.mp glyphs).elim (fits.marks name newMark).1 (fits.marks name newMark).2
  · rw [lookups]
    intro statement listed name used
    rcases mem_allStatements listed with old | ⟨body, rfl⟩ | plain | new
    · exact List.mem_append_left _ (coherent.lookupUses statement old name used)
    · cases used
    · rw [(fits.plain statement plain).2.1] at used
      cases used
    · exact List.mem_append_right _ (fits.lookupUses statement new name used)
  · rw [classes, marks]
    intro statement listed name used
    rw [List.mem_append, List.mem_append]
    rcases mem_allStatements listed with old | ⟨body, rfl⟩ | plain | new
    · exact (coherent.classUses statement old name used).imp .inl .inl
    · cases used
    · rw [(fits.plain statement plain).2.2] at used
      cases used
    · rcases fits.classUses statement new name used with held | glyphs | mark
      · exact (FeatureFile.mem_classNames.mp held).imp .inl .inl
      · exact .inl (.inr glyphs)
      · exact .inr (.inr mark)

end Names

end Contribution

end FontCompiler
