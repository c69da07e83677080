import FontCompiler.Feature.Text
import FontCompiler.Proofs.Layout.Alike

/-!
# Glyph definitions complete a table

What is added to the table of glyph definitions is what the table lacks: the lists of the
layout classes, unless it declares classes, and the carets of each glyph that has none in it.
The classes that are listed are those that the categories of the font assign, so no glyph
changes its class when the file becomes the one to ask for them.
-/

namespace FontCompiler

def GlyphClasses.members (classes : GlyphClasses) : GlyphCategory → SortedSet GlyphName
  | .unassigned => ∅
  | .base => classes.base
  | .ligature => classes.ligature
  | .mark => classes.mark
  | .component => classes.component

def GlyphClassLists.members (lists : GlyphClassLists) : GlyphCategory → List GlyphName
  | .unassigned => []
  | .base => lists.base
  | .ligature => lists.ligature
  | .mark => lists.mark
  | .component => lists.component

/-- Whether two files give the same layout classes to the glyphs of a font, or both none. -/
def SameClasses {α : Type} (context : LayoutContext α) (file other : FeatureFile) : Prop :=
  Option.Rel (fun before after => ∀ glyph, context.view.contains glyph = true →
      ∀ category : GlyphCategory,
        glyph ∈ GlyphClasses.members after category ↔ glyph ∈ GlyphClasses.members before category)
    (context.glyphClasses? file) (context.glyphClasses? other)

def allListsIn (table : List Statement) : List GlyphClassLists :=
  table.filterMap fun
    | .glyphClassLists lists => some lists
    | _ => none

/-- The glyphs for which a table declares carets, each with the positions of these. -/
def allCaretsIn (table : List Statement) : List (GlyphName × List Int) :=
  table.filterMap fun
    | .ligatureCarets glyph positions => some (glyph, positions)
    | _ => none

/-- Whether some statements are what a table of glyph definitions lacks for the glyphs of a
font. -/
structure Completes {α : Type} [Coordinate α] (view : FontView α)
    (table added : List Statement) : Prop where
  plain : ∀ statement ∈ added, (∃ lists, statement = .glyphClassLists lists) ∨
    ∃ glyph positions, statement = .ligatureCarets glyph positions
  lists_once : (allListsIn added).length ≤ 1
  /-- Classes are listed where the table declares none and the font assigns categories. -/
  lists_lacking : allListsIn added ≠ [] ↔
    allListsIn table = [] ∧ view.categories.isEmpty = false
  lists_ordered : ∀ lists ∈ allListsIn added, ∀ category,
    (lists.members category).Sublist view.glyphOrder
  lists_disjoint : ∀ lists ∈ allListsIn added, ∀ glyph first second,
    glyph ∈ lists.members first → glyph ∈ lists.members second → first = second
  carets_once : ((allCaretsIn added).map Prod.fst).Nodup
  /-- Carets are those of the glyphs that have caret anchors and no carets in the table. -/
  carets_lacking : ∀ name, name ∈ (allCaretsIn added).map Prod.fst ↔
    name ∉ (allCaretsIn table).map Prod.fst ∧ ∃ glyph, view.glyph? name = some glyph ∧
      ∃ anchor ∈ glyph.anchors, ∃ vertical, anchor.role? = some (.caret vertical)
  /-- A vertical caret is measured by the height of its anchor, any other along the line, at the
  nearest whole number with a half going up. -/
  carets_exact : ∀ name positions, (name, positions) ∈ allCaretsIn added →
    positions.Pairwise (· < ·) ∧ ∃ glyph, view.glyph? name = some glyph ∧
      ∀ position, position ∈ positions ↔ ∃ anchor ∈ glyph.anchors,
        anchor.role? = some (.caret false) ∧
            position = Coordinate.toInt32 (Coordinate.floor (anchor.position.x + Coordinate.half)) ∨
          anchor.role? = some (.caret true) ∧
            position = Coordinate.toInt32 (Coordinate.floor (anchor.position.y + Coordinate.half))

/-! ## The classes of the font -/

section Classes

variable {α : Type} {view : FontView α} {context : LayoutContext α} {file : FeatureFile}

theorem members_of_glyphClassLists? {lists : GlyphClassLists}
    (declared : view.glyphClassLists? = some lists) (category : GlyphCategory) :
    lists.members category =
      if category = .unassigned then [] else view.glyphsOfCategory category := by
  unfold FontView.glyphClassLists? at declared
  split at declared
  · cases declared
  · cases declared
    cases category <;> rfl

theorem glyphClassLists?_eq_none_iff :
    view.glyphClassLists? = none ↔ view.categories.isEmpty = true := by
  unfold FontView.glyphClassLists?
  split
  · next none => exact iff_of_true rfl none
  · next some => exact iff_of_false nofun some

/-- The classes that are listed are those that the categories assign. -/
theorem mem_members_ofLists {lists : GlyphClassLists}
    (declared : view.glyphClassLists? = some lists) {glyph : GlyphName}
    (present : view.contains glyph = true) (category : GlyphCategory) :
    glyph ∈ (GlyphClasses.ofLists lists).members category ↔
      glyph ∈ (GlyphClasses.ofCategories view.categories).members category := by
  have listed : category ≠ .unassigned → (glyph ∈ lists.members category ↔
      glyph ∈ GlyphClasses.ofCategory view.categories category) := fun assigned => by
    rw [members_of_glyphClassLists? declared, if_neg assigned, FontView.mem_glyphsOfCategory,
      GlyphClasses.mem_ofCategory, and_iff_right present]
  cases category with
  | unassigned => exact Iff.rfl
  | _ => exact SortedSet.mem_ofList.trans (listed nofun)

/-- A file in which the classes of the font are declared gives the classes that the font gave. -/
theorem sameClasses_of_declared {other : FeatureFile} (undeclared : file.glyphClassLists? = none)
    (declared : other.glyphClassLists? = context.view.glyphClassLists?) :
    SameClasses context file other := by
  unfold SameClasses LayoutContext.glyphClasses?
  rw [undeclared, declared]
  cases lists : context.view.glyphClassLists? with
  | none =>
      dsimp only
      rw [if_pos (glyphClassLists?_eq_none_iff.mp lists)]
      exact .none
  | some lists' =>
      dsimp only
      rw [if_neg fun empty => by simp [glyphClassLists?_eq_none_iff.mpr empty] at lists]
      exact .some fun glyph present category => mem_members_ofLists lists present category

theorem sameClasses_of_eq {other : FeatureFile}
    (same : other.glyphClassLists? = file.glyphClassLists?) : SameClasses context file other := by
  unfold SameClasses LayoutContext.glyphClasses?
  rw [same]
  split
  · exact .some fun _ _ _ => Iff.rfl
  · split
    · exact .none
    · exact .some fun _ _ _ => Iff.rfl

end Classes

/-! ## What a table lacks -/

section Missing

variable {α : Type} [Coordinate α] {view : FontView α} {table : List Statement}

theorem allListsIn_append (first second : List Statement) :
    allListsIn (first ++ second) = allListsIn first ++ allListsIn second :=
  List.filterMap_append

theorem allCaretsIn_append (first second : List Statement) :
    allCaretsIn (first ++ second) = allCaretsIn first ++ allCaretsIn second :=
  List.filterMap_append

theorem allListsIn_carets (entries : List (GlyphName × List Int)) :
    allListsIn (entries.map fun entry => .ligatureCarets entry.1 entry.2) = [] := by
  unfold allListsIn
  rw [List.filterMap_map]
  exact List.filterMap_eq_nil_iff.mpr fun _ _ => rfl

theorem allCaretsIn_carets (entries : List (GlyphName × List Int)) :
    allCaretsIn (entries.map fun entry => .ligatureCarets entry.1 entry.2) = entries := by
  unfold allCaretsIn
  rw [List.filterMap_map]
  exact List.filterMap_some

theorem declaresClasses_eq_false_iff : declaresClasses table = false ↔ allListsIn table = [] := by
  rw [declaresClasses, allListsIn, List.any_eq_false, List.filterMap_eq_nil_iff]
  refine forall₂_congr fun statement _ => ?_
  cases statement <;> simp

theorem glyphsWithCarets_eq (table : List Statement) :
    glyphsWithCarets table = (allCaretsIn table).map Prod.fst := by
  unfold glyphsWithCarets allCaretsIn
  rw [List.map_filterMap]
  refine List.filterMap_congr fun statement _ => ?_
  cases statement <;> rfl

/-- The caret of an anchor is measured along the line or across it, as its role says. -/
theorem Anchor.caret?_eq_some_iff {anchor : Anchor α} {position : Int} :
    anchor.caret? = some position ↔
      anchor.role? = some (.caret false) ∧
          position = Coordinate.toInt32 (Coordinate.floor (anchor.position.x + Coordinate.half)) ∨
        anchor.role? = some (.caret true) ∧
          position = Coordinate.toInt32 (Coordinate.floor (anchor.position.y + Coordinate.half)) := by
  unfold caret?
  split
  · next vertical same =>
      rw [same, Option.some.injEq]
      cases vertical with
      | false => simp [Coordinate.roundHalfUp, eq_comm]
      | true => simp [Coordinate.roundHalfUp, eq_comm]
  · next other =>
      refine iff_of_false nofun ?_
      rintro (⟨same, -⟩ | ⟨same, -⟩) <;> exact other _ same

theorem Anchor.isSome_caret?_iff {anchor : Anchor α} :
    anchor.caret?.isSome = true ↔ ∃ vertical, anchor.role? = some (.caret vertical) := by
  unfold caret?
  split
  · next vertical same => exact iff_of_true rfl ⟨vertical, same⟩
  · next other => exact iff_of_false nofun fun ⟨vertical, same⟩ => other vertical same

def lackingLists (view : FontView α) (table : List Statement) : Option GlyphClassLists :=
  if declaresClasses table then none else view.glyphClassLists?

def lackingCarets (view : FontView α) (table : List Statement) : List (GlyphName × List Int) :=
  view.caretStatements.filter fun entry => !(glyphsWithCarets table).contains entry.1

theorem missing_eq (view : FontView α) (table : List Statement) :
    DefinitionWriter.missing view table =
      (lackingLists view table).toList.map .glyphClassLists ++
        (lackingCarets view table).map fun entry => .ligatureCarets entry.1 entry.2 := by
  unfold DefinitionWriter.missing lackingLists lackingCarets
  split <;> rfl

theorem allListsIn_missing (view : FontView α) (table : List Statement) :
    allListsIn (DefinitionWriter.missing view table) = (lackingLists view table).toList := by
  have lists : ∀ lists : Option GlyphClassLists,
      allListsIn (lists.toList.map .glyphClassLists) = lists.toList := by
    intro lists
    cases lists <;> rfl
  rw [missing_eq, allListsIn_append, allListsIn_carets, List.append_nil, lists]

theorem allCaretsIn_missing (view : FontView α) (table : List Statement) :
    allCaretsIn (DefinitionWriter.missing view table) = lackingCarets view table := by
  have none : ∀ lists : Option GlyphClassLists,
      allCaretsIn (lists.toList.map .glyphClassLists) = [] := by
    intro lists
    cases lists <;> rfl
  rw [missing_eq, allCaretsIn_append, allCaretsIn_carets, none, List.nil_append]

theorem mem_carets {glyph : Glyph α} {position : Int} :
    position ∈ glyph.carets ↔ ∃ anchor ∈ glyph.anchors, anchor.caret? = some position := by
  unfold Glyph.carets
  rw [← SortedSet.mem_def, SortedSet.mem_ofList, List.mem_filterMap]

theorem carets_increasing (glyph : Glyph α) : glyph.carets.Pairwise (· < ·) :=
  (SortedSet.increasing _).imp fun below => Int.compare_eq_lt.mp below

theorem mem_caretStatements {name : GlyphName} {positions : List Int} :
    (name, positions) ∈ view.caretStatements ↔
      ∃ glyph, view.glyph? name = some glyph ∧ positions = glyph.carets ∧ positions ≠ [] := by
  unfold FontView.caretStatements
  rw [List.mem_filter, List.mem_map, Bool.not_eq_true', List.isEmpty_eq_false_iff]
  constructor
  · rintro ⟨⟨glyph, listed, same⟩, some⟩
    cases same
    exact ⟨glyph, FontView.mem_glyphsInOrder.mp listed, rfl, some⟩
  · rintro ⟨glyph, found, rfl, some⟩
    obtain rfl : glyph.name = name := KeyedList.key_of_find? found
    exact ⟨⟨glyph, FontView.mem_glyphsInOrder.mpr found, rfl⟩, some⟩

theorem nodup_names_caretStatements (view : FontView α) :
    (view.caretStatements.map Prod.fst).Nodup := by
  refine (List.filter_sublist.map Prod.fst).nodup ?_
  rw [List.map_map]
  exact view.nodup_names_glyphsInOrder

omit [Coordinate α] in
theorem lackingLists_eq_some_iff {lists : GlyphClassLists} :
    lackingLists view table = some lists ↔
      allListsIn table = [] ∧ view.glyphClassLists? = some lists := by
  rw [← declaresClasses_eq_false_iff]
  unfold lackingLists
  cases declaresClasses table <;> simp

theorem mem_allListsIn_missing {lists : GlyphClassLists} :
    lists ∈ allListsIn (DefinitionWriter.missing view table) ↔
      allListsIn table = [] ∧ view.glyphClassLists? = some lists := by
  rw [allListsIn_missing, Option.mem_toList, lackingLists_eq_some_iff]

theorem mem_lackingCarets {name : GlyphName} {positions : List Int} :
    (name, positions) ∈ lackingCarets view table ↔ name ∉ (allCaretsIn table).map Prod.fst ∧
      ∃ glyph, view.glyph? name = some glyph ∧ positions = glyph.carets ∧ positions ≠ [] := by
  unfold lackingCarets
  rw [glyphsWithCarets_eq, List.mem_filter, mem_caretStatements, and_comm, Bool.not_eq_true', ← Bool.not_eq_true,
    List.contains_iff_mem]

/-- What the writer adds to a table is what the table lacks. -/
theorem missing_completes (view : FontView α) (table : List Statement) :
    Completes view table (DefinitionWriter.missing view table) where
  plain _ listed := DefinitionWriter.of_mem_missing listed
  lists_once := by
    rw [allListsIn_missing]
    cases lackingLists view table <;> simp
  lists_lacking := by
    rw [← Bool.not_eq_true view.categories.isEmpty, ← glyphClassLists?_eq_none_iff, ← ne_eq,
      Option.ne_none_iff_exists']
    constructor
    · intro some
      obtain ⟨lists, listed⟩ := List.exists_mem_of_ne_nil _ some
      obtain ⟨undeclared, declared⟩ := mem_allListsIn_missing.mp listed
      exact ⟨undeclared, lists, declared⟩
    · rintro ⟨undeclared, lists, declared⟩
      exact List.ne_nil_of_mem (mem_allListsIn_missing.mpr ⟨undeclared, declared⟩)
  lists_ordered lists listed category := by
    rw [members_of_glyphClassLists? (mem_allListsIn_missing.mp listed).2]
    split
    · exact List.nil_sublist _
    · exact List.filter_sublist
  lists_disjoint lists listed glyph first second inFirst inSecond := by
    have assigned : ∀ category, glyph ∈ lists.members category →
        view.categories.get? glyph = some category := by
      intro category found
      rw [members_of_glyphClassLists? (mem_allListsIn_missing.mp listed).2] at found
      split at found
      · cases found
      · exact (FontView.mem_glyphsOfCategory.mp found).2
    exact Option.some.inj ((assigned first inFirst).symm.trans (assigned second inSecond))
  carets_once := by
    rw [allCaretsIn_missing]
    exact (List.filter_sublist.map Prod.fst).nodup (nodup_names_caretStatements view)
  carets_lacking name := by
    rw [allCaretsIn_missing, List.mem_map]
    constructor
    · rintro ⟨⟨name, positions⟩, listed, rfl⟩
      obtain ⟨lacking, glyph, found, rfl, some⟩ := mem_lackingCarets.mp listed
      obtain ⟨position, held⟩ := List.exists_mem_of_ne_nil _ some
      obtain ⟨anchor, placed, same⟩ := mem_carets.mp held
      have isCaret := Anchor.isSome_caret?_iff.mp (Option.isSome_of_eq_some same)
      exact ⟨lacking, glyph, found, anchor, placed, isCaret⟩
    · rintro ⟨lacking, glyph, found, anchor, placed, isCaret⟩
      obtain ⟨position, same⟩ :=
        Option.isSome_iff_exists.mp (Anchor.isSome_caret?_iff.mpr isCaret)
      have some : glyph.carets ≠ [] := List.ne_nil_of_mem (mem_carets.mpr ⟨anchor, placed, same⟩)
      exact ⟨(name, glyph.carets), mem_lackingCarets.mpr ⟨lacking, glyph, found, rfl, some⟩, rfl⟩
  carets_exact name positions listed := by
    rw [allCaretsIn_missing] at listed
    obtain ⟨-, glyph, found, rfl, -⟩ := mem_lackingCarets.mp listed
    refine ⟨carets_increasing glyph, glyph, found, fun position => ?_⟩
    rw [mem_carets]
    simp only [Anchor.caret?_eq_some_iff]

end Missing

namespace DefinitionWriter

variable {α : Type} [Coordinate α]

/-- Whether some statements are what the writer adds to a file: nothing to a table that it is to
skip, else what the first table of glyph definitions lacks, in that table or in a new one. -/
def Adds (writer : DefinitionWriter) (view : FontView α) (file : FeatureFile)
    (added : List Statement) (result : FeatureFile) : Prop :=
  match file.table? FeatureFile.definitionBlock with
  | some table =>
      result = file.extendTable FeatureFile.definitionBlock added ∧
        if writer.overlap = .skip then added = [] else Completes view table added
  | none =>
      result = file.append
        (if added.isEmpty then [] else [.block .table FeatureFile.definitionBlock added]) ∧
        Completes view [] added

theorem exists_adds (writer : DefinitionWriter) (context : LayoutContext α)
    (file : FeatureFile) :
    ∃ added, (writer.write context file).wrote = !added.isEmpty ∧
      writer.Adds context.view file added (writer.write context file).file := by
  unfold Adds write
  cases file.table? FeatureFile.definitionBlock with
  | some table =>
      dsimp only
      split
      · exact ⟨[], rfl, (FeatureFile.extendTable_nil _ file).symm, rfl⟩
      · have completes := missing_completes context.view table
        split
        · next none =>
            rw [List.isEmpty_iff.mp none] at completes
            exact ⟨[], rfl, (FeatureFile.extendTable_nil _ file).symm, completes⟩
        · next some =>
            exact ⟨_, (Bool.eq_not.mpr (Ne.symm some)), rfl, completes⟩
  | none =>
      refine ⟨missing context.view [], ?_, Written.file_appending _ _ _,
        missing_completes context.view []⟩
      unfold Written.appending
      cases missing context.view [] <;> rfl

/-- Writing glyph definitions changes the layout class of no glyph, and adds what the table of
them lacks. -/
theorem definitions_keep_classes (writer : DefinitionWriter) (context : LayoutContext α)
    (file : FeatureFile) :
    SameClasses context file (writer.write context file).file ∧
      ∃ added, (writer.write context file).wrote = !added.isEmpty ∧
        writer.Adds context.view file added (writer.write context file).file := by
  refine ⟨?_, writer.exists_adds context file⟩
  obtain ⟨notices, wrote⟩ := writer.write_eq_contributing context file
  rw [wrote, Written.contributing]
  rcases glyphClassLists?_applyTo writer context file with same | ⟨undeclared, declared⟩
  · exact sameClasses_of_eq same
  · exact sameClasses_of_declared undeclared declared

end DefinitionWriter

/-- Two ligatures and a mark. The first ligature has carets of both kinds, two of them at one
place, and the categories name a glyph that the font lacks. -/
def caretFont : Font Rat where
  glyphs := .ofList [
    { name := "f_i", width := 600, height := 0,
      anchors := [⟨some "caret_2", ⟨901 / 2, 7⟩⟩, ⟨some "vcaret_1", ⟨7, -1 / 2⟩⟩,
        ⟨some "caret_1", ⟨300, 7⟩⟩, ⟨some "caret_3", ⟨1201 / 4, 7⟩⟩, ⟨some "top", ⟨9, 9⟩⟩] },
    { name := "f_l", width := 600, height := 0, anchors := [⟨some "caret_1", ⟨250, 0⟩⟩] },
    { name := "acute", width := 0, height := 0, anchors := [⟨some "_top", ⟨0, 600⟩⟩] }]
  categories := .ofList
    [("acute", .mark), ("f_l", .ligature), ("f_i", .ligature), ("gone", .base)]

def caretContext : LayoutContext Rat := ⟨caretFont.whole, .builtin, ∅⟩

/-- A file with the carets of one ligature and no classes. -/
def caretFile : FeatureFile where
  statements := [.block .table "GDEF" [.ligatureCarets "f_l" [200]]]

theorem definitions_keep_classes_caretContext :
    (DefinitionWriter.write ⟨.append⟩ caretContext caretFile).file.text = "\n".intercalate [
      "table GDEF \x7b",
      "    LigatureCaretByPos f_l 200;",
      "    GlyphClassDef , [f_i f_l], [acute], ;",
      "    LigatureCaretByPos f_i 0 300 451;",
      "\x7d GDEF;",
      ""] ∧
      SameClasses caretContext caretFile
          (DefinitionWriter.write ⟨.append⟩ caretContext caretFile).file ∧
        ∃ added,
          (DefinitionWriter.write ⟨.append⟩ caretContext caretFile).wrote = !added.isEmpty ∧
          DefinitionWriter.Adds ⟨.append⟩ caretContext.view caretFile added
            (DefinitionWriter.write ⟨.append⟩ caretContext caretFile).file :=
  ⟨by decide +kernel, DefinitionWriter.definitions_keep_classes ⟨.append⟩ caretContext caretFile⟩

end FontCompiler
