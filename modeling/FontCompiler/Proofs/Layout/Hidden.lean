import FontCompiler.Font.ComponentCycle
import FontCompiler.Layout.Run
import FontCompiler.Proofs.Kerning.StaleNames
import FontCompiler.Proofs.Layout.Idempotence

/-!
# Hidden glyphs and deleted glyphs

A view takes hidden glyphs out of every table that it shows. When the glyphs are
deleted instead, the declared order, the groups and the kerning go on naming them.
Whatever reads the font passes over names without a glyph, so it makes no difference
whether a glyph is hidden or deleted.
-/

namespace FontCompiler

section Views

variable {α : Type}

namespace Font

/-- The font without the hidden glyphs and their categories. Its order, its groups and
its kerning may still name them. -/
def pruned (font : Font α) : Font α :=
  { font with
    glyphs := font.glyphs.filter fun glyph => font.shows glyph.name
    categories := font.categories.filter fun entry => font.shows entry.1 }

/-- Whether no hidden name begins like that of a kerning group. -/
def HidesNoGroup (font : Font α) : Prop :=
  ∀ name ∈ font.hidden, ∀ position : KernPosition, ¬ position.marker.toList <+: name.toList

end Font

variable [Coordinate α]

/-- Whether two views differ at most in names without a glyph and in the glyphs that
only references draw. -/
structure FontView.ReadsAs (view other : FontView α) : Prop where
  glyphs : view.glyphs = other.glyphs
  categories : view.categories = other.categories
  declaredGlyphs : view.declaredGlyphs = other.declaredGlyphs
  repeatedMembers : KerningGroups.repeatedMembers view.contains [] view.groups.entries =
    KerningGroups.repeatedMembers other.contains [] other.groups.entries
  kernPairs : resolvedPairs (.ofTable view.contains view.groups) view.contains view.kerning =
    resolvedPairs (.ofTable other.contains other.groups) other.contains other.kerning

namespace FontView.ReadsAs

variable {view other : FontView α} (same : view.ReadsAs other)
include same

theorem glyph?_eq : view.glyph? = other.glyph? := by
  unfold glyph?
  rw [same.glyphs]

theorem contains_eq : view.contains = other.contains := by
  unfold contains
  rw [same.glyphs]

theorem glyphOrder_eq : view.glyphOrder = other.glyphOrder := by
  unfold glyphOrder undeclaredGlyphs
  rw [same.contains_eq, same.declaredGlyphs, same.glyphs]

theorem glyphsInOrder_eq : view.glyphsInOrder = other.glyphsInOrder := by
  rw [glyphsInOrder, glyphsInOrder, same.glyphOrder_eq, same.glyph?_eq]

theorem characterMap_eq : view.characterMap = other.characterMap := by
  rw [characterMap, characterMap, same.glyphsInOrder_eq]

theorem references_eq : view.references = other.references := by
  unfold references
  rw [same.glyph?_eq, same.contains_eq]

/-- The walk along references settles the same, or it meets the same cycle. -/
theorem settle_eq (path settled names : List GlyphName) :
    view.settle path settled names = other.settle path settled names := by
  induction path, settled, names using settle.induct view with
  | case1 path settled => rw [settle, settle]
  | case2 path settled name rest returned =>
      rw [settle, settle, if_pos returned, if_pos returned]
  | case3 path settled name rest fresh old ih =>
      rw [settle, settle, if_neg fresh, if_neg fresh, if_pos old, if_pos old, ih]
  | case4 path settled name rest fresh unsettled present fault failed ih =>
      rw [settle, settle, if_neg fresh, if_neg fresh, if_neg unsettled, if_neg unsettled,
        ← same.glyphs, if_pos present, if_pos present, ← same.references_eq, ← ih, failed]
  | case5 path settled name rest fresh unsettled present inner entered ihInner ihRest =>
      rw [settle, settle, if_neg fresh, if_neg fresh, if_neg unsettled, if_neg unsettled,
        ← same.glyphs, if_pos present, if_pos present, ← same.references_eq, ← ihInner, entered]
      exact ihRest
  | case6 path settled name rest fresh unsettled absent ih =>
      rw [settle, settle, if_neg fresh, if_neg fresh, if_neg unsettled, if_neg unsettled,
        ← same.glyphs, if_neg absent, if_neg absent, ih]

theorem checkCycles_eq : view.checkCycles = other.checkCycles := by
  rw [checkCycles, checkCycles, same.glyphOrder_eq, same.settle_eq]

theorem missing_eq (table : List Statement) :
    DefinitionWriter.missing view table = DefinitionWriter.missing other table := by
  have lists : view.glyphsOfCategory = other.glyphsOfCategory := by
    unfold glyphsOfCategory
    rw [same.glyphOrder_eq, same.categories]
  unfold DefinitionWriter.missing glyphClassLists? caretStatements
  rw [same.categories, lists, same.glyphsInOrder_eq]

end FontView.ReadsAs

section Writers

variable {context : LayoutContext α} {other : FontView α} (same : context.view.ReadsAs other)
include same

theorem LayoutContext.glyphClasses?_eq_of_readsAs (file : FeatureFile) :
    context.glyphClasses? file = { context with view := other }.glyphClasses? file := by
  unfold glyphClasses?
  rw [same.categories]

theorem KernWriter.write_eq_of_readsAs (writer : KernWriter) (file : FeatureFile) :
    writer.write context file = writer.write { context with view := other } file := by
  have marks : writer.marks context file =
      writer.marks { context with view := other } file := by
    unfold marks
    rw [LayoutContext.glyphClasses?_eq_of_readsAs same]
  have setting : writer.setting context file =
      writer.setting { context with view := other } file := by
    unfold setting
    rw [marks, same.glyph?_eq]
    rfl
  have pairs : writer.writePairs context file =
      writer.writePairs { context with view := other } file := by
    unfold writePairs
    rw [marks, setting]
    rfl
  unfold write
  dsimp only
  rw [same.repeatedMembers, same.kernPairs, pairs]

theorem MarkWriter.write_eq_of_readsAs (writer : MarkWriter) (file : FeatureFile) :
    writer.write context file = writer.write { context with view := other } file := by
  unfold write
  rw [LayoutContext.glyphClasses?_eq_of_readsAs same, same.glyphsInOrder_eq]

theorem CursiveWriter.write_eq_of_readsAs (writer : CursiveWriter) (file : FeatureFile) :
    writer.write context file = writer.write { context with view := other } file := by
  unfold write
  rw [same.glyphsInOrder_eq]
  rfl

theorem DefinitionWriter.write_eq_of_readsAs (writer : DefinitionWriter) (file : FeatureFile) :
    writer.write context file = writer.write { context with view := other } file := by
  unfold write
  simp only [same.missing_eq]

/-- A writer does the same for views that read the same. -/
theorem BuiltinWriter.write_eq_of_readsAs (writer : BuiltinWriter) (file : FeatureFile) :
    writer.toWriter.write context file =
      writer.toWriter.write { context with view := other } file := by
  cases writer with
  | kern writer => exact writer.write_eq_of_readsAs same file
  | mark writer => exact writer.write_eq_of_readsAs same file
  | cursive writer => exact congrArg Except.ok (writer.write_eq_of_readsAs same file)
  | definitions writer => exact congrArg Except.ok (writer.write_eq_of_readsAs same file)

theorem runWriters_eq_of_readsAs (writers : List BuiltinWriter) (file : FeatureFile) :
    runWriters context file (writers.map BuiltinWriter.toWriter) =
      runWriters { context with view := other } file (writers.map BuiltinWriter.toWriter) := by
  induction writers generalizing file with
  | nil => rfl
  | cons writer rest ih =>
      rw [List.map_cons, runWriters, runWriters, writer.write_eq_of_readsAs same]
      cases writer.toWriter.write { context with view := other } file with
      | error error => rfl
      | ok written => simp only [ih]

end Writers

/-- Views that read the same have the same layout. -/
theorem FontView.ReadsAs.writeLayout_eq {view other : FontView α} (same : view.ReadsAs other)
    (characters : CharacterData) (file : FeatureFile) (writers : List BuiltinWriter) :
    view.writeLayout characters file (writers.map BuiltinWriter.toWriter) =
      other.writeLayout characters file (writers.map BuiltinWriter.toWriter) := by
  unfold writeLayout LayoutContext.ofView
  rw [same.characterMap_eq, BuiltinWriter.runOrder_map_toWriter]
  cases other.characterMap with
  | error fault => rfl
  | ok map =>
      have start : (⟨view, characters, map⟩ : LayoutContext α).view.ReadsAs other := same
      exact runWriters_eq_of_readsAs start writers file

namespace Font

variable {font : Font α}

/-- The view of the exported glyphs reads as the font without the other glyphs. -/
theorem HidesNoGroup.readsAs_pruned (unmarked : font.HidesNoGroup) :
    font.exported.ReadsAs font.pruned.whole := by
  have visible : ∀ name, font.exported.contains name = true → font.shows name = true := by
    intro name present
    obtain ⟨glyph, listed, rfl⟩ := List.mem_map.mp (KeyedList.contains_iff.mp present)
    exact (List.mem_filter.mp listed).2
  have absent : ∀ name, font.shows name = false → font.exported.contains name = false :=
    fun name stale => Bool.eq_false_iff.mpr fun present => by
      rw [visible name present] at stale
      cases stale
  have noGroup : ∀ name, font.shows name = false → ∀ position : KernPosition,
      ¬ position.marker.toList <+: name.toList := by
    intro name stale
    refine unmarked name ?_
    simpa [shows] using stale
  constructor
  case glyphs => rfl
  case categories => rfl
  case declaredGlyphs =>
    exact congrArg List.eraseDups
      (filter_filter_contains visible (fun name => name != notdef) font.declaredOrder)
  case repeatedMembers => exact KerningGroups.repeatedMembers_filter visible [] font.groups.entries
  case kernPairs =>
    have groups : KerningGroups.ofTable font.exported.contains font.exported.groups =
        KerningGroups.ofTable font.exported.contains font.groups :=
      KerningGroups.ofTable_filter visible font.groups
    rw [groups]
    exact resolvedPairs_filter absent noGroup _ font.kerning

/-- Hiding glyphs is the same as deleting them, also where the font goes on naming them:
the glyph order, the character map, the check for cycles and all layout agree. -/
theorem exported_eq_pruned (unmarked : font.HidesNoGroup) :
    font.exported.glyphOrder = font.pruned.whole.glyphOrder ∧
      font.exported.characterMap = font.pruned.whole.characterMap ∧
      font.exported.checkCycles = font.pruned.whole.checkCycles ∧
      ∀ (characters : CharacterData) (file : FeatureFile) (writers : List BuiltinWriter),
        font.exported.writeLayout characters file (writers.map BuiltinWriter.toWriter) =
          font.pruned.whole.writeLayout characters file (writers.map BuiltinWriter.toWriter) :=
  have same := unmarked.readsAs_pruned
  ⟨same.glyphOrder_eq, same.characterMap_eq, same.checkCycles_eq, same.writeLayout_eq⟩

end Font

end Views

/-- The letter and its accent, and an alternate letter that is hidden but named everywhere. -/
def staleFont : Font Rat where
  glyphs := accentFont.glyphs.put { name := "a.alt", width := 500, height := 0 }
  declaredOrder := ["a.alt", "a", "acute"]
  kerning := .ofList [(("public.kern1.a", "a"), -20), (("a.alt", "a"), -30)]
  groups := .ofList [("public.kern1.a", ["a.alt", "a"])]
  categories := .ofList [("a", .base), ("a.alt", .base), ("acute", .mark)]
  hidden := ["a.alt"]

theorem exported_eq_pruned_staleFont :
    staleFont.HidesNoGroup ∧ staleFont.pruned.declaredOrder = ["a.alt", "a", "acute"] ∧
      (staleFont.exported.writeLayout .builtin {}
        (skippingWriters.map BuiltinWriter.toWriter)).reports =
          .ok (skippingWriters.map fun writer => ⟨writer.kind.name, true⟩) ∧
      staleFont.exported.glyphOrder = staleFont.pruned.whole.glyphOrder ∧
      staleFont.exported.characterMap = staleFont.pruned.whole.characterMap ∧
      staleFont.exported.checkCycles = staleFont.pruned.whole.checkCycles ∧
      ∀ (characters : CharacterData) (file : FeatureFile) (writers : List BuiltinWriter),
        staleFont.exported.writeLayout characters file (writers.map BuiltinWriter.toWriter) =
          staleFont.pruned.whole.writeLayout characters file
            (writers.map BuiltinWriter.toWriter) := by
  have unmarked : staleFont.HidesNoGroup := by
    intro name listed position
    rw [List.mem_singleton.mp listed]
    cases position <;> decide
  exact ⟨unmarked, rfl, by decide +kernel, Font.exported_eq_pruned unmarked⟩

end FontCompiler
