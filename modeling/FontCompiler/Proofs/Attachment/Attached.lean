import FontCompiler.Proofs.Attachment.MarkLookups

/-!
# Attachment is complete and exact

For each name that joins glyphs to marks, one lookup has a rule for each of the glyphs, at the
place where it carries the anchor of the name. All its rules refer to one class, and in the new
file this class places every mark where it carries the mark anchor of the name.
-/

namespace FontCompiler

open Statement

namespace MarkClasses

variable {file : FeatureFile} {glyphs : List AnchoredGlyph} {classes : MarkClasses}

/-- The name of the class in use for the marks that attach to the anchors of a name. -/
def nameFor (classes : MarkClasses) (name : String) : String :=
  ((classes.used.find? fun used => decide (used.anchor = "_" ++ name)).map
    UsedMarkClass.name).getD ""

theorem Exact.nameFor_eq (exact : classes.Exact file glyphs) {used : UsedMarkClass}
    (inUse : used ∈ classes.used) {name : String} (same : used.anchor = "_" ++ name) :
    classes.nameFor name = used.name := by
  unfold nameFor
  cases found : classes.used.find? fun used => decide (used.anchor = "_" ++ name) with
  | none => exact absurd same (by simpa using List.find?_eq_none.mp found used inUse)
  | some other =>
      have sameAnchor : other.anchor = used.anchor :=
        (by simpa using List.find?_some found : other.anchor = "_" ++ name).trans same.symm
      have sameClass := List.inj_on_of_nodup_map exact.distinct (List.mem_of_find?_eq_some found)
        inUse sameAnchor
      exact congrArg UsedMarkClass.name sameClass

end MarkClasses

namespace MarkWriter

open MarkDraft

variable {α : Type} [Coordinate α] {writer : MarkWriter} {context : LayoutContext α}
  {file : FeatureFile} {className : String → String} {name : String}

/-! ## What attachment must be -/

/-- Whether a name joins glyphs to marks in some way. -/
def Attaches (writer : MarkWriter) (context : LayoutContext α) (file : FeatureFile)
    (name : String) : Prop :=
  writer.Joins context file "mark" false name name ∨
    writer.Joins context file "mark" false (numberedName name 1) name ∨
      writer.Joins context file "mkmk" true name name

/-- Whether classes for the names that attach place the marks of each name in a file where
they carry its mark anchor, no class standing for two names. -/
structure PlacesMarks (writer : MarkWriter) (context : LayoutContext α) (file : FeatureFile)
    (className : String → String) (result : FeatureFile) : Prop where
  placed : ∀ name, writer.Attaches context file name →
    ∀ mark ∈ writer.carriers context file true ("_" ++ name),
      result.markPlace? (className name) mark.1 = some mark.2
  distinct : ∀ name, writer.Attaches context file name →
    ∀ other, writer.Attaches context file other → className name = className other → name = other

/-- Whether a statement is the lookup that attaches the marks of a name to the other glyphs
that carry its anchor, in glyph order. -/
def IsBaseLookup (writer : MarkWriter) (context : LayoutContext α) (file : FeatureFile)
    (className : String → String) (name : String) (lookup : Statement) : Prop :=
  ∃ lookupName, lookup = .block .lookup lookupName
    ((writer.carriers context file false name).map fun base =>
      .position (.markToBase base.1 [⟨base.2, className name⟩]))

/-- Whether a statement is the lookup that attaches the marks of a name to the marks that carry
its anchor, in glyph order, and sees just these marks through a class that it defines. -/
def IsMarkLookup (writer : MarkWriter) (context : LayoutContext α) (file : FeatureFile)
    (className : String → String) (result : FeatureFile) (name : String) (lookup : Statement) :
    Prop :=
  ∃ lookupName filterName members,
    lookup = .block .lookup lookupName
      (.glyphClass ⟨filterName, members⟩ :: .lookupFlag { filterClass := some filterName } ::
        (writer.carriers context file true name).map fun base =>
          .position (.markToMark base.1 [⟨base.2, className name⟩])) ∧
      result.classMembers filterName = members ∧
        ∀ glyph, glyph ∈ members ↔
          glyph ∈ (writer.carriers context file true ("_" ++ name)).map Prod.fst ∨
            glyph ∈ (writer.carriers context file true name).map Prod.fst

/-- Whether a statement is a lookup that attaches marks to ligatures only. -/
def IsLigatureLookup (lookup : Statement) : Prop :=
  ∃ lookupName, ∃ rules : List PositionRule, lookup = .block .lookup lookupName
    (rules.map .position) ∧ ∀ rule ∈ rules, ∃ ligature parts, rule = .markToLigature ligature parts

/-! ## What attachment is -/

namespace Drafted

variable {addition : MarkAddition} (drafted : writer.Drafted context file addition)
include drafted

/-- A name that attaches has a lookup, and a class in use for its mark anchor. -/
theorem exists_used (attaches : writer.Attaches context file name) : ∃ lookup,
    (lookup ∈ addition.bases ∨ lookup ∈ addition.ligatures ∨ lookup ∈ addition.marks) ∧
      ∃ used ∈ (writer.draft context file).classes.used, used.anchor = "_" ++ name := by
  rcases attaches with base | ligature | mark
  · obtain ⟨lookup, member, _, used, inUse, same, -⟩ := drafted.bases.exists_made base
    exact ⟨lookup, .inl member, used, inUse, same⟩
  · obtain ⟨lookup, member, _, used, inUse, same, -⟩ := drafted.ligatures.exists_made ligature
    exact ⟨lookup, .inr (.inl member), used, inUse, same⟩
  · obtain ⟨lookup, member, _, used, inUse, same, -⟩ := drafted.marks.exists_made mark
    exact ⟨lookup, .inr (.inr member), used, inUse, same⟩

theorem placesMarks : writer.PlacesMarks context file
    (writer.draft context file).classes.nameFor (file.append addition.statements) where
  placed := by
    intro name attaches mark carrier
    obtain ⟨lookup, member, used, inUse, same⟩ := drafted.exists_used attaches
    rw [(writer.exact_draft context file).nameFor_eq inUse same]
    exact drafted.markPlace?_append member inUse (same ▸ carrier)
  distinct := by
    intro name attaches other otherAttaches sameName
    obtain ⟨-, -, used, inUse, same⟩ := drafted.exists_used attaches
    obtain ⟨-, -, second, secondInUse, secondSame⟩ := drafted.exists_used otherAttaches
    have exact := writer.exact_draft context file
    have sound := writer.sound_draft context file
    rw [exact.nameFor_eq inUse same, exact.nameFor_eq secondInUse secondSame] at sameName
    have sameClass := exact.eq_of_name_eq sound.classes inUse secondInUse sameName
    rw [← sameClass, same] at secondSame
    exact (String.append_right_inj _).mp secondSame

/-- In a file with the addition the class that a lookup sees has the glyphs that it is defined
with. -/
theorem classMembers_eq {lookupName filterName : String} {seen : SortedSet GlyphName}
    {rules : List Statement}
    (member : .block .lookup lookupName (filterStatements filterName seen ++ rules) ∈
      addition.marks) :
    (file.append addition.statements).classMembers filterName = seen.toList := by
  have sound := writer.sound_draft context file
  have names := (defined_additions file (wantedFeatures writer.overlap file features)
    (writer.glyphs context file)).2.1
  rw [← drafted.blocks_eq, ← draft, ← drafted.statements_eq (.inr (.inr member))] at names
  have new : NewNames file.classNames (writer.draft context file).classes.taken
      (definedGlyphClasses addition.statements) := by
    rw [names]
    exact sound.classes.new.subperm (List.sublist_append_left _ _).subperm
  have defined : .glyphClass ⟨filterName, seen.toList⟩ ∈ visit addition.statements := by
    have inside : .glyphClass ⟨filterName, seen.toList⟩ ∈ visit addition.marks := by
      refine mem_visit.mpr ⟨_, member, .inr ?_⟩
      exact mem_visit.mpr ⟨_, List.mem_cons_self, .inl rfl⟩
    rw [drafted.statements_eq (.inr (.inr member)), visit_append, List.mem_append,
      MarkAddition.blocks, visit_append, List.mem_append]
    refine .inr (.inr ?_)
    unfold featureBlock
    rw [if_neg fun none => List.ne_nil_of_mem member (List.isEmpty_iff.mp none)]
    exact mem_visit.mpr ⟨_, List.mem_cons_self, .inr inside⟩
  -- Without a class of this name in the file, the members are those of the one definition.
  have free : filterName ∉ file.classNames :=
    new.free filterName (List.mem_filterMap.mpr ⟨_, defined, rfl⟩)
  rw [FeatureFile.classMembers_append, FeatureFile.classMembers_eq_nil free, List.nil_append]
  exact FeatureFile.classMembers_eq new.distinct defined

end Drafted

/-- What the writer adds attaches each name by one lookup that is complete and exact. -/
theorem attaches_exactly (step : writer.quantization ≠ 0) :
    ∃ written addition className, writer.write context file = .ok written ∧
      written.file = file.append (MarkAddition.statements addition) ∧
      writer.PlacesMarks context file className written.file ∧
      OneForEach (fun name => writer.Joins context file "mark" false name name)
        (writer.IsBaseLookup context file className) addition.bases ∧
      (∀ lookup ∈ addition.ligatures, IsLigatureLookup lookup) ∧
      OneForEach (fun name => writer.Joins context file "mkmk" true name name)
        (writer.IsMarkLookup context file className written.file) addition.marks := by
  obtain ⟨written, addition, wrote, appended, drafted⟩ := exists_drafted context file step
  have exact := writer.exact_draft context file
  refine ⟨written, addition, (writer.draft context file).classes.nameFor, wrote, appended, ?_,
    drafted.bases.imp fun name joins lookup member made => ?_, fun lookup member => ?_,
    drafted.marks.imp fun name joins lookup member made => ?_⟩
  · rw [appended]
    exact drafted.placesMarks
  · obtain ⟨index, isLookup⟩ := made
    obtain ⟨used, inUse, same, lookupName, rfl⟩ := exists_of_isLookup_pairPlan isLookup
    refine ⟨lookupName, ?_⟩
    rw [exact.nameFor_eq inUse same]
  · obtain ⟨name, index, isLookup⟩ := drafted.ligatures.exists_name member
    obtain ⟨used, -, -, lookupName, rfl⟩ := exists_of_isLookup_chainPlan isLookup
    refine ⟨lookupName, _, congrArg (Statement.block .lookup lookupName) List.map_map.symm,
      fun rule listed => ?_⟩
    obtain ⟨ligature, -, rfl⟩ := List.mem_map.mp listed
    exact ⟨_, _, rfl⟩
  · obtain ⟨index, isLookup⟩ := made
    obtain ⟨used, inUse, same, lookupName, filterName, rfl⟩ :=
      exists_of_isLookup_markPlan isLookup
    refine ⟨lookupName, filterName, _, ?_, (appended ▸ drafted.classMembers_eq member),
      fun glyph => ?_⟩
    · rw [exact.nameFor_eq inUse same]
      rfl
    · rw [← SortedSet.mem_def, SortedSet.mem_ofList, List.mem_append]

end MarkWriter

/-- A letter and two accents, one of which takes the other above it. -/
def accentedFont : Font Rat where
  glyphs := .ofList [
    { name := "a", width := 500, height := 0, anchors := [⟨some "top", ⟨250, 700⟩⟩] },
    { name := "acute", width := 0, height := 0,
      anchors := [⟨some "_top", ⟨0, 600⟩⟩, ⟨some "top", ⟨0, 800⟩⟩, ⟨some "top", ⟨9, 9⟩⟩] },
    { name := "grave", width := 0, height := 0, anchors := [⟨some "_top", ⟨5, 600⟩⟩] }]

def accentedContext : LayoutContext Rat := ⟨accentedFont.whole, .builtin, ∅⟩

/-- A file that places one of the accents elsewhere. -/
def placedAccent : FeatureFile where
  statements := [.markClass ⟨"acute", ⟨40, 600⟩, "MC_top"⟩]

theorem attaches_exactly_accentedContext :
    MarkWriter.carriers {} accentedContext placedAccent false "top" = [("a", ⟨250, 700⟩)] ∧
      MarkWriter.carriers {} accentedContext placedAccent true "top" = [("acute", ⟨0, 800⟩)] ∧
      MarkWriter.carriers {} accentedContext placedAccent true "_top" =
        [("acute", ⟨0, 600⟩), ("grave", ⟨5, 600⟩)] ∧
      ∃ written addition className,
        MarkWriter.write {} accentedContext placedAccent = .ok written ∧
        written.file = placedAccent.append (MarkAddition.statements addition) ∧
        MarkWriter.PlacesMarks {} accentedContext placedAccent className written.file ∧
        OneForEach (fun name =>
            MarkWriter.Joins {} accentedContext placedAccent "mark" false name name)
          (MarkWriter.IsBaseLookup {} accentedContext placedAccent className) addition.bases ∧
        (∀ lookup ∈ addition.ligatures, MarkWriter.IsLigatureLookup lookup) ∧
        OneForEach (fun name =>
            MarkWriter.Joins {} accentedContext placedAccent "mkmk" true name name)
          (MarkWriter.IsMarkLookup {} accentedContext placedAccent className written.file)
          addition.marks :=
  ⟨by decide +kernel, by decide +kernel, by decide +kernel,
    MarkWriter.attaches_exactly (by decide)⟩

end FontCompiler
