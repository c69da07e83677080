import FontCompiler.Proofs.Feature.Coherence
import FontCompiler.Proofs.Layout.Maker

/-!
# Plans of mark lookups

Lookups for bases, for ligatures and for marks are made in the same way. Each has
a name that it would like, a mark anchor, and the rules it gets once the marks
with the anchor have a class. Whether the lookup is made depends on its rules and
on the marks, whatever names the feature file has taken.
-/

namespace FontCompiler

/-- What a mark lookup is made from. -/
structure MarkPlan where
  wanted : String
  anchor : String
  /-- The rules for a class of marks, by its name. -/
  rules : List (String → PositionRule)
  /-- The only marks that the lookup sees, if it does not see all. -/
  seen : Option (SortedSet GlyphName) := none
  /-- The lookup has a name of the kind that mark lookups have. -/
  named : lookupMaker? wanted = some .mark
  /-- The rules refer to no other class. -/
  uses : ∀ rule ∈ rules, ∀ className, ∀ name ∈ (rule className).classUses, name = className

namespace MarkPlan

/-- Whether the lookup has rules and marks that they attach. -/
def Applies (glyphs : List AnchoredGlyph) (plan : MarkPlan) : Prop :=
  plan.rules ≠ [] ∧ marksWithAnchor glyphs plan.anchor ≠ []

/-- The plan of the lookup that attaches marks to bases by a pair of anchors. -/
def ofBasePair (glyphs : List AnchoredGlyph) (numbered : AnchorPair × Nat) : MarkPlan where
  wanted := "mark" ++ toString (numbered.2 + 1)
  anchor := numbered.1.mark
  rules := (MarkDraft.attachable glyphs false numbered.1.base).map fun (base, place) className =>
    .markToBase base [⟨place, className⟩]
  named := lookupMaker?_append rfl _
  uses := by
    intro rule listed className name used
    obtain ⟨_, -, rfl⟩ := List.mem_map.mp listed
    exact List.mem_singleton.mp used

/-- The plan of the lookup that attaches marks to ligatures by a chain of anchors. -/
def ofChain (glyphs : List AnchoredGlyph) (numbered : AnchorChain × Nat) : MarkPlan where
  wanted := "mark2liga" ++ toString (numbered.2 + 1)
  anchor := numbered.1.mark
  rules := (MarkDraft.ligatures glyphs numbered.1.parts).map fun (ligature, places) className =>
    .markToLigature ligature (places.map fun place => [⟨place, className⟩])
  named := lookupMaker?_append rfl _
  uses := by
    intro rule listed className name used
    obtain ⟨_, -, rfl⟩ := List.mem_map.mp listed
    obtain ⟨point, held, rfl⟩ := List.mem_map.mp used
    obtain ⟨part, partListed, inside⟩ := List.mem_flatten.mp held
    obtain ⟨place, -, rfl⟩ := List.mem_map.mp partListed
    rw [List.mem_singleton.mp inside]

/-- The plan of the lookup that attaches marks to marks by a pair of anchors. -/
def ofMarkPair (glyphs : List AnchoredGlyph) (numbered : AnchorPair × Nat) : MarkPlan where
  wanted := "mkmk" ++ toString (numbered.2 + 1)
  anchor := numbered.1.mark
  rules := (MarkDraft.attachable glyphs true numbered.1.base).map fun (base, place) className =>
    .markToMark base [⟨place, className⟩]
  seen := some (.ofList ((MarkDraft.attachable glyphs true numbered.1.mark).map Prod.fst ++
    (MarkDraft.attachable glyphs true numbered.1.base).map Prod.fst))
  named := lookupMaker?_append rfl _
  uses := by
    intro rule listed className name used
    obtain ⟨_, -, rfl⟩ := List.mem_map.mp listed
    exact List.mem_singleton.mp used

end MarkPlan

namespace MarkDraft

variable {file : FeatureFile} {glyphs : List AnchoredGlyph}

/-- The statements that make a lookup see some marks only, by a class with a name. -/
def filterStatements (filterName : String) (seen : SortedSet GlyphName) : List Statement :=
  [.glyphClass ⟨filterName, seen.toList⟩, .lookupFlag { filterClass := some filterName }]

def ruleStatements (plan : MarkPlan) (className : String) : List Statement :=
  plan.rules.map fun rule => .position (rule className)

/-- The draft with the lookup of a plan, once the marks have their class. -/
def addPlanned (plan : MarkPlan) (className : String) (classes : MarkClasses)
    (draft : MarkDraft) : MarkDraft :=
  let name := freshName plan.wanted draft.lookupNames
  match plan.seen with
  | none => addLookup name (ruleStatements plan className) { draft with classes := classes }
  | some seen =>
      let filterName := freshClassName (name ++ "MkAttach") classes.taken
      addLookup name (filterStatements filterName seen ++ ruleStatements plan className)
        { draft with classes := { classes with taken := classes.taken.insert filterName } }

/-- Add the lookup of a plan, unless it has no rules or attaches no marks. -/
def addPlan (file : FeatureFile) (glyphs : List AnchoredGlyph) (draft : MarkDraft)
    (plan : MarkPlan) : MarkDraft :=
  if plan.rules.isEmpty then draft
  else
    match draft.classes.use? file glyphs plan.anchor with
    | none => draft
    | some (className, classes) => addPlanned plan className classes draft

theorem addBasePair_eq_addPlan (draft : MarkDraft) (numbered : AnchorPair × Nat) :
    addBasePair file glyphs draft numbered =
      addPlan file glyphs draft (.ofBasePair glyphs numbered) := by
  simp only [addBasePair, addPlan, addPlanned, ruleStatements, MarkPlan.ofBasePair,
    List.isEmpty_map, List.map_map]
  rfl

theorem addChain_eq_addPlan (draft : MarkDraft) (numbered : AnchorChain × Nat) :
    addChain file glyphs draft numbered =
      addPlan file glyphs draft (.ofChain glyphs numbered) := by
  simp only [addChain, addPlan, addPlanned, ruleStatements, MarkPlan.ofChain,
    List.isEmpty_map, List.map_map]
  rfl

theorem addMarkPair_eq_addPlan (draft : MarkDraft) (numbered : AnchorPair × Nat) :
    addMarkPair file glyphs draft numbered =
      addPlan file glyphs draft (.ofMarkPair glyphs numbered) := by
  simp only [addMarkPair, addPlan, addPlanned, ruleStatements, filterStatements,
    MarkPlan.ofMarkPair, List.isEmpty_map, List.map_map]
  rfl

def anchorNames (glyphs : List AnchoredGlyph) : SortedSet String :=
  .ofList (glyphs.flatMap fun anchored => anchored.anchors.map Prod.fst)

def basePlans (glyphs : List AnchoredGlyph) : List MarkPlan :=
  (anchorPairs (anchorNames glyphs)).zipIdx.map (.ofBasePair glyphs) ++
    (anchorChains (anchorNames glyphs)).zipIdx.map (.ofChain glyphs)

def markPlans (glyphs : List AnchoredGlyph) : List MarkPlan :=
  (anchorPairs (anchorNames glyphs)).zipIdx.map (.ofMarkPair glyphs)

theorem addMarks_eq_foldl (draft : MarkDraft) :
    draft.addMarks file glyphs (anchorNames glyphs) =
      (basePlans glyphs).foldl (addPlan file glyphs) draft := by
  have bases : addBasePair file glyphs = _ :=
    funext fun draft => funext (addBasePair_eq_addPlan draft)
  have chains : addChain file glyphs = _ :=
    funext fun draft => funext (addChain_eq_addPlan draft)
  rw [basePlans, List.foldl_append, List.foldl_map, List.foldl_map, addMarks, bases, chains]

theorem addMarksToMarks_eq_foldl (draft : MarkDraft) :
    draft.addMarksToMarks file glyphs (anchorNames glyphs) =
      (markPlans glyphs).foldl (addPlan file glyphs) draft := by
  have marks : addMarkPair file glyphs = _ :=
    funext fun draft => funext (addMarkPair_eq_addPlan draft)
  rw [markPlans, List.foldl_map, addMarksToMarks, marks]

/-- The draft of a file before any lookup is made. -/
def start (file : FeatureFile) : MarkDraft where
  classes := { taken := file.classNames }
  lookupNames := file.lookupNames

def wantedPlans (wanted : List String) (feature : String) (plans : List MarkPlan) :
    List MarkPlan :=
  if wanted.contains feature then plans else []

/-- The draft with the lookups of the feature for bases and ligatures. -/
def ofBases (file : FeatureFile) (wanted : List String) (glyphs : List AnchoredGlyph) :
    MarkDraft :=
  (wantedPlans wanted "mark" (basePlans glyphs)).foldl (addPlan file glyphs) (start file)

/-- The draft with the lookups of the feature for marks, made after the others. -/
def ofMarks (file : FeatureFile) (wanted : List String) (glyphs : List AnchoredGlyph) :
    MarkDraft :=
  (wantedPlans wanted "mkmk" (markPlans glyphs)).foldl (addPlan file glyphs)
    { ofBases file wanted glyphs with lookups := [] }

def blocks (file : FeatureFile) (wanted : List String) (glyphs : List AnchoredGlyph) :
    List Statement :=
  (ofBases file wanted glyphs).block "mark" ++ (ofMarks file wanted glyphs).block "mkmk"

theorem statements_eq (wanted : List String) :
    MarkWriter.statements file wanted glyphs =
      if (blocks file wanted glyphs).isEmpty then []
      else (ofMarks file wanted glyphs).classes.definitions ++ blocks file wanted glyphs := by
  have bases : (if wanted.contains "mark" then
      (start file).addMarks file glyphs (anchorNames glyphs) else start file) =
        ofBases file wanted glyphs := by
    unfold ofBases wantedPlans
    rw [addMarks_eq_foldl]
    split
    · rfl
    · rfl
  have marks : ∀ draft : MarkDraft, (if wanted.contains "mkmk" then
      draft.addMarksToMarks file glyphs (anchorNames glyphs) else draft) =
        (wantedPlans wanted "mkmk" (markPlans glyphs)).foldl (addPlan file glyphs) draft := by
    intro draft
    unfold wantedPlans
    rw [addMarksToMarks_eq_foldl]
    split
    · rfl
    · rfl
  unfold MarkWriter.statements
  dsimp only
  unfold blocks ofMarks
  rw [← bases, ← marks]
  rfl

end MarkDraft

namespace MarkWriter

variable {α : Type} [Coordinate α] {writer : MarkWriter} {context : LayoutContext α}
  {file : FeatureFile}

def glyphs (writer : MarkWriter) (context : LayoutContext α) (file : FeatureFile) :
    List AnchoredGlyph :=
  context.view.glyphsInOrder.filterMap
    (anchoredGlyph? writer.quantization (context.glyphClasses? file))

def additions (writer : MarkWriter) (context : LayoutContext α) (file : FeatureFile) :
    List Statement :=
  statements file (wantedFeatures writer.overlap file features) (writer.glyphs context file)

/-- On a grid with a step the writer adds its statements to the file. -/
theorem write_eq_appending (step : writer.quantization ≠ 0) :
    ∃ notices, writer.write context file =
      .ok (.appending (writer.additions context file) file notices) := by
  unfold write additions
  rw [if_neg step]
  dsimp only
  split
  · next none =>
      rw [List.isEmpty_iff.mp none]
      exact ⟨_, rfl⟩
  · exact ⟨_, rfl⟩

end MarkWriter

end FontCompiler
