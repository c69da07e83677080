import FontCompiler.Proofs.Font.GlyphOrder
import FontCompiler.Proofs.Kerning.SameMarks
import FontCompiler.Proofs.Layout.Contribution

/-!
# Files that writers see alike

Writers read substitutions, languages and layout classes from a feature file. No
built-in writer adds substitutions or languages, and the classes that the writer
of glyph definitions adds are those that the font's categories assign, as far as
glyphs of the font are concerned. So every writer sees the file after a run as it
saw the file before.
-/

namespace FontCompiler

open Statement

/-! ## Layout classes of a glyph -/

namespace GlyphClasses

/-- Whether a glyph is a base, a ligature and a mark, where layout classes are known. -/
def roles (classes : Option GlyphClasses) (glyph : GlyphName) : Option (Bool × Bool × Bool) :=
  classes.map fun known =>
    (decide (glyph ∈ known.base), decide (glyph ∈ known.ligature), decide (glyph ∈ known.mark))

variable {classes others : Option GlyphClasses} {glyph : GlyphName}

theorem mayAttach_congr (same : roles classes glyph = roles others glyph) :
    mayAttach classes glyph = mayAttach others glyph := by
  have read : ∀ classes : Option GlyphClasses, mayAttach classes glyph =
      (roles classes glyph).all fun role => role.1 || role.2.1 || role.2.2 := fun classes => by
    cases classes <;> rfl
  rw [read, read, same]

theorem mayBeMark_congr (same : roles classes glyph = roles others glyph) :
    mayBeMark classes glyph = mayBeMark others glyph := by
  have read : ∀ classes : Option GlyphClasses, mayBeMark classes glyph =
      (roles classes glyph).all fun role => role.2.2 := fun classes => by
    cases classes <;> rfl
  rw [read, read, same]

theorem mem_mark_congr (same : roles classes glyph = roles others glyph) :
    glyph ∈ (classes.map mark).getD ∅ ↔ glyph ∈ (others.map mark).getD ∅ := by
  have read : ∀ classes : Option GlyphClasses, glyph ∈ (classes.map mark).getD ∅ ↔
      (roles classes glyph).any (fun role => role.2.2) = true := fun classes => by
    cases classes <;> simp [roles]
  rw [read, read, same]

end GlyphClasses

section Alike

variable {α : Type} {context : LayoutContext α} {file other third : FeatureFile}

/-- Whether what writers read of a file is the same in another file. -/
structure Alike (context : LayoutContext α) (file other : FeatureFile) : Prop where
  substitutions : other.substitutions = file.substitutions
  languages : other.languageSystems = file.languageSystems
  roles : ∀ glyph, context.view.contains glyph = true →
    GlyphClasses.roles (context.glyphClasses? other) glyph =
      GlyphClasses.roles (context.glyphClasses? file) glyph

namespace Alike

theorem refl (context : LayoutContext α) (file : FeatureFile) : Alike context file file :=
  ⟨rfl, rfl, fun _ _ => rfl⟩

theorem trans (alike : Alike context file other) (further : Alike context other third) :
    Alike context file third :=
  ⟨further.substitutions.trans alike.substitutions, further.languages.trans alike.languages,
    fun glyph present => (further.roles glyph present).trans (alike.roles glyph present)⟩

variable (alike : Alike context file other)
include alike

theorem declaredLanguages : other.declaredLanguages = file.declaredLanguages := by
  rw [FeatureFile.declaredLanguages, alike.languages]
  rfl

theorem scriptsByGlyph : context.scriptsByGlyph other = context.scriptsByGlyph file := by
  unfold LayoutContext.scriptsByGlyph LayoutContext.classesBy
  rw [alike.substitutions]

theorem directionsByGlyph : context.directionsByGlyph other = context.directionsByGlyph file := by
  unfold LayoutContext.directionsByGlyph LayoutContext.classesBy
  rw [alike.substitutions]

theorem leftToRightGlyphs : context.leftToRightGlyphs other = context.leftToRightGlyphs file := by
  unfold LayoutContext.leftToRightGlyphs LayoutContext.classesBy
  rw [alike.substitutions]

theorem mem_marks [Coordinate α] (writer : KernWriter) {glyph : GlyphName}
    (present : context.view.contains glyph = true) :
    glyph ∈ writer.marks context other ↔ glyph ∈ writer.marks context file := by
  unfold KernWriter.marks
  split
  · exact GlyphClasses.mem_mark_congr (alike.roles glyph present)
  · exact Iff.rfl

/-- The glyphs that attach are the same. -/
theorem markGlyphs [Coordinate α] (writer : MarkWriter) :
    writer.glyphs context other = writer.glyphs context file := by
  unfold MarkWriter.glyphs
  refine List.filterMap_congr fun glyph listed => ?_
  have present : context.view.contains glyph.name = true := by
    obtain ⟨name, -, found⟩ := List.mem_filterMap.mp listed
    rw [FontView.glyph?] at found
    rw [KeyedList.key_of_find? found]
    exact Option.isSome_iff_exists.mpr ⟨glyph, found⟩
  have same := alike.roles glyph.name present
  unfold anchoredGlyph?
  rw [GlyphClasses.mayAttach_congr same, GlyphClasses.mayBeMark_congr same]

/-- Kerning is made from the same pairs and marks. -/
theorem kernSetting [Coordinate α] (writer : KernWriter) :
    writer.kernSetting context other = writer.kernSetting context file := by
  have sides : ∀ pair ∈ context.kernPairs, pair.first.glyphs ≠ [] ∧ pair.second.glyphs ≠ [] :=
    fun pair listed => (sides_of_mem_kernPairs listed).1
  have marks : ∀ pair ∈ context.kernPairs, ∀ glyph ∈ pair.first.glyphs ++ pair.second.glyphs,
      (glyph ∈ writer.marks context other ↔ glyph ∈ writer.marks context file) :=
    fun pair listed glyph held =>
      alike.mem_marks writer ((sides_of_mem_kernPairs listed).2 glyph held)
  have spacing : ((writer.marks context other).filter fun mark =>
        (context.view.glyph? mark).any fun glyph => !Coordinate.isZero glyph.width) =
      (writer.marks context file).filter fun mark =>
        (context.view.glyph? mark).any fun glyph => !Coordinate.isZero glyph.width := by
    refine SortedSet.ext fun mark => ?_
    rw [SortedSet.mem_filter, SortedSet.mem_filter]
    refine and_congr_left fun spacing => alike.mem_marks writer ?_
    cases found : context.view.glyph? mark with
    | none =>
        rw [found] at spacing
        cases spacing
    | some glyph => exact Option.isSome_iff_exists.mpr ⟨glyph, found⟩
  unfold KernWriter.kernSetting KernWriter.setting
  dsimp only
  rw [alike.scriptsByGlyph, alike.directionsByGlyph, basePairs_congr sides marks,
    markPairs_congr sides marks]
  exact congrArg (fun marks : SortedSet GlyphName => KernSetting.mk writer _ marks.toList _ _)
    spacing

end Alike

end Alike

/-! ## What contributions leave as it is -/

section Reading

variable {contribution : Contribution} {file : FeatureFile} {kind : BuiltinKind}

section

variable {β : Type} {pick : Statement → Option β}

theorem filterMap_visit_of_allMadeBy (silent : ∀ statement, statement.MadeBy kind →
    pick statement = none) {statements : List Statement} (made : AllMadeBy kind statements) :
    (visit statements).filterMap pick = [] :=
  List.filterMap_eq_nil_iff.mpr fun statement listed => silent statement (made statement listed)

theorem filterMap_allStatements_applyTo (blind : ∀ name body, pick (.block .table name body) = none)
    (silent : ∀ statement, statement.MadeBy kind → pick statement = none)
    (definitions : AllMadeBy kind contribution.definitions)
    (appended : AllMadeBy kind contribution.appended) :
    (contribution.applyTo file).allStatements.filterMap pick =
      file.allStatements.filterMap pick := by
  rw [Contribution.filterMap_allStatements blind (filterMap_visit_of_allMadeBy silent definitions),
    filterMap_visit_of_allMadeBy silent appended, List.append_nil]

theorem filterMap_statements_applyTo (blind : ∀ name body, pick (.block .table name body) = none)
    (silent : ∀ statement, statement.MadeBy kind → pick statement = none)
    (appended : AllMadeBy kind contribution.appended) :
    (contribution.applyTo file).statements.filterMap pick = file.statements.filterMap pick := by
  have none : contribution.appended.filterMap pick = [] :=
    List.filterMap_eq_nil_iff.mpr fun statement listed => silent statement (appended.madeBy listed)
  rw [Contribution.filterMap_statements blind, none, List.append_nil]

end

theorem substitutions_applyTo (definitions : AllMadeBy kind contribution.definitions)
    (appended : AllMadeBy kind contribution.appended) :
    (contribution.applyTo file).substitutions = file.substitutions :=
  filterMap_allStatements_applyTo (fun _ _ => rfl) (fun _ made => by cases made <;> rfl) definitions
    appended

theorem languageSystems_applyTo (appended : AllMadeBy kind contribution.appended) :
    (contribution.applyTo file).languageSystems = file.languageSystems :=
  filterMap_statements_applyTo (fun _ _ => rfl) (fun _ made => by cases made <;> rfl) appended

/-- Only the writer of glyph definitions adds to the table of glyph definitions. -/
theorem table?_applyTo_of_ne (other : kind ≠ .definitions)
    (definitions : contribution.definitions = [])
    (appended : AllMadeBy kind contribution.appended) :
    (contribution.applyTo file).table? FeatureFile.definitionBlock =
      file.table? FeatureFile.definitionBlock := by
  have none : contribution.appended.findSome?
      (Statement.body? .table FeatureFile.definitionBlock) = none := by
    refine List.findSome?_eq_none_iff.mpr fun statement listed => ?_
    cases appended.madeBy listed <;> first | rfl | exact absurd rfl other
  rw [Contribution.table?_applyTo, none, Option.or_none, definitions]
  simp

end Reading

/-! ## Glyph definitions -/

section Definitions

variable {α : Type} {context : LayoutContext α} {file : FeatureFile}

/-- The lists of layout classes in a table. -/
def listsIn (table : List Statement) : Option GlyphClassLists :=
  table.findSome? fun
    | .glyphClassLists lists => some lists
    | _ => none

theorem glyphClassLists?_eq :
    file.glyphClassLists? = (file.table? FeatureFile.definitionBlock).bind listsIn := rfl

theorem listsIn_append (table added : List Statement) :
    listsIn (table ++ added) = (listsIn table).or (listsIn added) :=
  List.findSome?_append

theorem listsIn_eq_none_iff {table : List Statement} :
    listsIn table = none ↔ declaresClasses table = false := by
  induction table with
  | nil => exact iff_of_true rfl rfl
  | cons first rest ih =>
      unfold listsIn declaresClasses at ih ⊢
      cases first with
      | glyphClassLists lists => simp
      | _ => exact ih

/-- A table that declares no classes lacks those of the font. -/
theorem listsIn_missing [Coordinate α] (view : FontView α) (table : List Statement) :
    listsIn (DefinitionWriter.missing view table) =
      if declaresClasses table then none else view.glyphClassLists? := by
  have carets : ∀ entries : List (GlyphName × List Int),
      listsIn (entries.map fun entry => .ligatureCarets entry.1 entry.2) = none := fun entries => by
    induction entries with
    | nil => rfl
    | cons entry rest ih => exact ih
  unfold DefinitionWriter.missing
  rw [listsIn_append, carets, Option.or_none]
  split
  · rfl
  · cases view.glyphClassLists? <;> rfl

theorem GlyphClasses.mem_ofCategory {categories : CategoryTable} {category : GlyphCategory}
    {glyph : GlyphName} :
    glyph ∈ ofCategory categories category ↔ categories.get? glyph = some category := by
  unfold ofCategory
  rw [SortedSet.mem_ofList, OrderedMap.get?_eq_some_iff, List.mem_map]
  constructor
  · rintro ⟨⟨name, assigned⟩, kept, rfl⟩
    obtain ⟨listed, same⟩ := List.mem_filter.mp kept
    cases of_decide_eq_true same
    exact listed
  · intro listed
    exact ⟨_, List.mem_filter.mpr ⟨listed, decide_eq_true rfl⟩, rfl⟩

theorem FontView.mem_glyphsOfCategory {view : FontView α} {category : GlyphCategory}
    {glyph : GlyphName} : glyph ∈ view.glyphsOfCategory category ↔
      view.contains glyph = true ∧ view.categories.get? glyph = some category := by
  unfold glyphsOfCategory
  rw [List.mem_filter, decide_eq_true_iff, mem_glyphOrder, ← contains_iff]

/-- The lists of layout classes that are written give the glyphs of the font the
roles that their categories assign. -/
theorem roles_ofLists (view : FontView α) {glyph : GlyphName}
    (present : view.contains glyph = true) :
    GlyphClasses.roles (view.glyphClassLists?.map GlyphClasses.ofLists) glyph =
      GlyphClasses.roles (if view.categories.isEmpty then none
        else some (.ofCategories view.categories)) glyph := by
  have member : ∀ category, glyph ∈ SortedSet.ofList (view.glyphsOfCategory category) ↔
      glyph ∈ GlyphClasses.ofCategory view.categories category := by
    intro category
    rw [SortedSet.mem_ofList, FontView.mem_glyphsOfCategory, GlyphClasses.mem_ofCategory,
      and_iff_right present]
  unfold FontView.glyphClassLists?
  split
  · rfl
  · simp only [GlyphClasses.roles, Option.map_some, GlyphClasses.ofLists,
      GlyphClasses.ofCategories, member]

variable [Coordinate α]

/-- The declared layout classes are those of the file before, or else those that the
font assigns. -/
theorem glyphClassLists?_applyTo (writer : DefinitionWriter) (context : LayoutContext α)
    (file : FeatureFile) :
    ((writer.contribution context file).applyTo file).glyphClassLists? = file.glyphClassLists? ∨
      file.glyphClassLists? = none ∧
        ((writer.contribution context file).applyTo file).glyphClassLists? =
          context.view.glyphClassLists? := by
  rw [glyphClassLists?_eq, glyphClassLists?_eq, Contribution.table?_applyTo]
  unfold DefinitionWriter.contribution
  cases file.table? FeatureFile.definitionBlock with
  | some table =>
      dsimp only [Option.map_some, Option.some_or, Option.bind_some]
      split
      · exact .inl (congrArg listsIn (List.append_nil table))
      · rw [listsIn_append, listsIn_missing]
        cases declared : declaresClasses table with
        | true => exact .inl (Option.or_none)
        | false =>
            rw [listsIn_eq_none_iff.mpr declared]
            exact .inr ⟨rfl, rfl⟩
  | none =>
      dsimp only [Option.map_none, Option.none_or, Option.bind_none]
      refine .inr ⟨rfl, ?_⟩
      have written := listsIn_missing context.view []
      split
      · next empty =>
          rw [List.isEmpty_iff.mp empty] at written
          exact written
      · rw [List.findSome?_cons, Statement.body?_block]
        exact written

/-- Glyphs of the font have the roles that they had. -/
theorem roles_applyTo_definitions (writer : DefinitionWriter) {glyph : GlyphName}
    (present : context.view.contains glyph = true) :
    GlyphClasses.roles
        (context.glyphClasses? ((writer.contribution context file).applyTo file)) glyph =
      GlyphClasses.roles (context.glyphClasses? file) glyph := by
  have written := roles_ofLists context.view present
  unfold LayoutContext.glyphClasses?
  rcases glyphClassLists?_applyTo writer context file with same | ⟨none, some⟩
  · rw [same]
  · rw [none, some]
    cases declared : context.view.glyphClassLists? with
    | none => rfl
    | some lists =>
        rw [declared] at written
        exact written

end Definitions

namespace BuiltinWriter

variable {α : Type} [Coordinate α] {context : LayoutContext α} {file : FeatureFile}

/-- Every writer sees the file with a contribution as it saw the file without. -/
theorem alike_applyTo (writer : BuiltinWriter) (context : LayoutContext α) (file : FeatureFile) :
    Alike context file ((writer.contribution context file).applyTo file) := by
  obtain ⟨definitions, appended⟩ := writer.allMadeBy_contribution context file
  refine ⟨substitutions_applyTo definitions appended, languageSystems_applyTo appended,
    fun glyph present => ?_⟩
  have untouched : writer.kind ≠ .definitions →
      (writer.contribution context file).definitions = [] →
      GlyphClasses.roles
          (context.glyphClasses? ((writer.contribution context file).applyTo file)) glyph =
        GlyphClasses.roles (context.glyphClasses? file) glyph := fun other none => by
    unfold LayoutContext.glyphClasses?
    rw [glyphClassLists?_eq, glyphClassLists?_eq, table?_applyTo_of_ne other none appended]
  cases writer with
  | kern writer => exact untouched (fun same => nomatch same) rfl
  | mark writer => exact untouched (fun same => nomatch same) rfl
  | cursive writer => exact untouched (fun same => nomatch same) rfl
  | definitions writer => exact roles_applyTo_definitions writer present

end BuiltinWriter

end FontCompiler
