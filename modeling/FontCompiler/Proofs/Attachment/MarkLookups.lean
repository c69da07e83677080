import Mathlib.Data.List.Forall2
import FontCompiler.Proofs.Attachment.Carriers
import FontCompiler.Proofs.Attachment.MarkPlaces
import FontCompiler.Proofs.Layout.Contribution

/-!
# Lookups for names

Each plan that applies adds its lookup, and no other plan adds any. The plans of a feature are
one for each name with a pair or a chain of anchors, so the lookups are one for each name
that joins some glyphs to some marks.
-/

namespace FontCompiler

open Statement

theorem exists_append_of_forall₂ {α β : Type} {related : α → β → Prop} {first second : List α}
    {values : List β} (all : List.Forall₂ related (first ++ second) values) :
    ∃ before after, values = before ++ after ∧ List.Forall₂ related first before ∧
      List.Forall₂ related second after := by
  refine ⟨values.take first.length, values.drop first.length,
    (List.take_append_drop _ _).symm, ?_, ?_⟩
  · simpa using List.forall₂_take first.length all
  · simpa using List.forall₂_drop first.length all

/-- Whether some statements are made one for each name with a property. -/
def OneForEach (holds : String → Prop) (made : String → Statement → Prop)
    (statements : List Statement) : Prop :=
  ∃ names : List String, names.Nodup ∧ (∀ name, name ∈ names ↔ holds name) ∧
    List.Forall₂ made names statements

namespace OneForEach

variable {holds other : String → Prop} {made becomes : String → Statement → Prop}
  {statements : List Statement}

theorem imp (each : OneForEach holds made statements)
    (weaken : ∀ name, holds name → ∀ statement ∈ statements,
      made name statement → becomes name statement) :
    OneForEach holds becomes statements := by
  obtain ⟨names, distinct, listed, related⟩ := each
  refine ⟨names, distinct, listed, ?_⟩
  have weakened : ∀ name ∈ names, ∀ statement ∈ statements, made name statement →
      becomes name statement := fun name found => weaken name ((listed name).mp found)
  clear listed distinct
  induction related with
  | nil => exact .nil
  | cons first _ ih =>
      refine .cons (weakened _ List.mem_cons_self _ List.mem_cons_self first) (ih ?_ ?_)
      · exact fun name held statement member =>
          weaken name held statement (List.mem_cons_of_mem _ member)
      · exact fun name found statement member =>
          weakened name (List.mem_cons_of_mem _ found) statement (List.mem_cons_of_mem _ member)

theorem congr (each : OneForEach holds made statements)
    (same : ∀ name, holds name ↔ other name) : OneForEach other made statements := by
  obtain ⟨names, distinct, listed, related⟩ := each
  exact ⟨names, distinct, fun name => (listed name).trans (same name), related⟩

theorem exists_made (each : OneForEach holds made statements) {name : String}
    (held : holds name) : ∃ statement ∈ statements, made name statement := by
  obtain ⟨names, -, listed, related⟩ := each
  have found := (listed name).mpr held
  clear listed
  induction related with
  | nil => cases found
  | cons first _ ih =>
      rcases List.mem_cons.mp found with rfl | later
      · exact ⟨_, List.mem_cons_self, first⟩
      · obtain ⟨statement, member, isMade⟩ := ih later
        exact ⟨statement, List.mem_cons_of_mem _ member, isMade⟩

theorem exists_name (each : OneForEach holds made statements) {statement : Statement}
    (member : statement ∈ statements) : ∃ name, made name statement := by
  obtain ⟨names, -, -, related⟩ := each
  induction related with
  | nil => cases member
  | cons first _ ih =>
      rcases List.mem_cons.mp member with rfl | later
      · exact ⟨_, first⟩
      · exact ih later

end OneForEach

namespace MarkPlan

variable {classes further : MarkClasses} {plan : MarkPlan} {lookup : Statement}

/-- Whether the lookup has rules and marks that they attach, as a test. -/
def applies (glyphs : List AnchoredGlyph) (plan : MarkPlan) : Bool :=
  !plan.rules.isEmpty && !(marksWithAnchor glyphs plan.anchor).isEmpty

theorem applies_iff {glyphs : List AnchoredGlyph} : plan.applies glyphs = true ↔
    plan.Applies glyphs := by
  unfold applies Applies
  simp

/-- Whether a statement is the lookup of a plan with the class that is in use for its anchor. -/
def IsLookup (classes : MarkClasses) (plan : MarkPlan) (lookup : Statement) : Prop :=
  ∃ used ∈ classes.used, used.anchor = plan.anchor ∧
    ∃ name filterName, lookup = .block .lookup name (plan.body used.name filterName)

theorem IsLookup.mono (kept : ∀ used ∈ classes.used, used ∈ further.used)
    (isLookup : plan.IsLookup classes lookup) : plan.IsLookup further lookup := by
  obtain ⟨used, inUse, same⟩ := isLookup
  exact ⟨used, kept used inUse, same⟩

end MarkPlan

namespace MarkDraft

variable {file : FeatureFile} {glyphs : List AnchoredGlyph} {earlier : List Statement}
  {draft : MarkDraft} {wanted : List String}

/-! ## Lookups of plans -/

/-- A plan that applies adds its lookup, and another plan adds none. -/
theorem lookups_addPlan (exact : draft.classes.Exact file glyphs)
    (sound : Sound file glyphs earlier draft) (plan : MarkPlan) :
    plan.applies glyphs = false ∧ (addPlan file glyphs draft plan).lookups = draft.lookups ∨
      plan.applies glyphs = true ∧ ∃ lookup,
        (addPlan file glyphs draft plan).lookups = draft.lookups ++ [lookup] ∧
          plan.IsLookup (addPlan file glyphs draft plan).classes lookup := by
  unfold MarkPlan.applies
  rcases addPlan_cases plan with ⟨idle, same⟩ | ⟨className, classes, rules, found, same⟩
  · rw [sound.classes.use?_eq_none_iff] at idle
    rw [same]
    refine .inl ⟨?_, rfl⟩
    rcases idle with none | none <;> simp [none]
  · have marks : marksWithAnchor glyphs plan.anchor ≠ [] := by
      rw [ne_eq, ← sound.classes.use?_eq_none_iff, found]
      exact fun none => nomatch none
    obtain ⟨-, -, used, inUse, isAnchor, rfl⟩ := exact.use? sound.classes found
    rw [same, addPlanned_eq]
    refine .inr ⟨by simp [rules, marks], _, rfl, used, ?_, isAnchor, _, _, rfl⟩
    dsimp only
    split
    · exact inUse
    · exact inUse

theorem exists_lookups_foldl (exact : draft.classes.Exact file glyphs)
    (sound : Sound file glyphs earlier draft) (plans : List MarkPlan) :
    ∃ lookups, (plans.foldl (addPlan file glyphs) draft).lookups = draft.lookups ++ lookups ∧
      List.Forall₂ (MarkPlan.IsLookup (plans.foldl (addPlan file glyphs) draft).classes)
        (plans.filter (MarkPlan.applies glyphs)) lookups := by
  induction plans generalizing draft with
  | nil => exact ⟨[], (List.append_nil _).symm, .nil⟩
  | cons plan rest ih =>
      obtain ⟨further, -⟩ := exact_addPlan exact sound plan
      obtain ⟨lookups, same, made⟩ := ih further (sound.addPlan plan)
      -- The class that this plan uses is still in use when the later plans are done.
      have kept := (exact_foldl further (sound.addPlan plan) rest).2
      rw [List.foldl_cons, same]
      rcases lookups_addPlan exact sound plan with
        ⟨idle, unchanged⟩ | ⟨applies, lookup, added, isLookup⟩
      · rw [unchanged, List.filter_cons_of_neg (by simp [idle])]
        exact ⟨lookups, rfl, made⟩
      · rw [added, List.filter_cons_of_pos applies, List.append_assoc]
        exact ⟨lookup :: lookups, rfl, .cons (isLookup.mono kept) made⟩

theorem exact_start (file : FeatureFile) (glyphs : List AnchoredGlyph) :
    (start file).classes.Exact file glyphs :=
  ⟨List.nodup_nil, fun _ inUse => nomatch inUse⟩

theorem exact_ofBases (file : FeatureFile) (wanted : List String)
    (glyphs : List AnchoredGlyph) : (ofBases file wanted glyphs).classes.Exact file glyphs :=
  (exact_foldl (exact_start file glyphs) (start_sound file glyphs) _).1

/-- The draft of the second feature starts with the classes of the first one. -/
theorem exact_between (file : FeatureFile) (wanted : List String) (glyphs : List AnchoredGlyph) :
    MarkClasses.Exact file glyphs
      { ofBases file wanted glyphs with lookups := [] : MarkDraft }.classes :=
  exact_ofBases file wanted glyphs

theorem exact_ofMarks (file : FeatureFile) (wanted : List String)
    (glyphs : List AnchoredGlyph) : (ofMarks file wanted glyphs).classes.Exact file glyphs :=
  (exact_foldl (exact_between file wanted glyphs) (between_sound file wanted glyphs) _).1

/-! ## Plans of names -/

/-- The plan of the lookup that attaches marks to bases by the anchors of a name. -/
def pairPlan (glyphs : List AnchoredGlyph) (name : String) (index : Nat) : MarkPlan :=
  .ofBasePair glyphs (.ofName name, index)

/-- The plan of the lookup that attaches marks to ligatures by the anchors of a name. -/
def chainPlan (glyphs : List AnchoredGlyph) (name : String) (index : Nat) : MarkPlan :=
  .ofChain glyphs (.ofName (anchorNames glyphs) name, index)

/-- The plan of the lookup that attaches marks to marks by the anchors of a name. -/
def markPlan (glyphs : List AnchoredGlyph) (name : String) (index : Nat) : MarkPlan :=
  .ofMarkPair glyphs (.ofName name, index)

/-- The plans of the names that have a mark anchor and an anchor to which it attaches. -/
def namedPlans (glyphs : List AnchoredGlyph) (anchor : String → String)
    (plan : String → Nat → MarkPlan) : List MarkPlan :=
  (joinedNames (anchorNames glyphs) anchor).zipIdx.map fun numbered => plan numbered.1 numbered.2

theorem basePlans_eq (glyphs : List AnchoredGlyph) : basePlans glyphs =
    namedPlans glyphs (fun name => name) (pairPlan glyphs) ++
      namedPlans glyphs (fun name => numberedName name 1) (chainPlan glyphs) := by
  rw [basePlans, anchorPairs_eq, anchorChains_eq, List.zipIdx_map, List.zipIdx_map, List.map_map,
    List.map_map]
  rfl

theorem markPlans_eq (glyphs : List AnchoredGlyph) : markPlans glyphs =
    namedPlans glyphs (fun name => name) (markPlan glyphs) := by
  rw [markPlans, anchorPairs_eq, List.zipIdx_map, List.map_map]
  rfl

theorem applies_pairPlan {name : String} {index : Nat} :
    (pairPlan glyphs name index).Applies glyphs ↔
      attachable glyphs false name ≠ [] ∧ marksWithAnchor glyphs ("_" ++ name) ≠ [] := by
  simp [MarkPlan.Applies, pairPlan, MarkPlan.ofBasePair, AnchorPair.ofName]

theorem applies_chainPlan {name : String} {index : Nat} :
    (chainPlan glyphs name index).Applies glyphs ↔
      ligatures glyphs (numberedChain (anchorNames glyphs) name) ≠ [] ∧
        marksWithAnchor glyphs ("_" ++ name) ≠ [] := by
  simp [MarkPlan.Applies, chainPlan, MarkPlan.ofChain, AnchorChain.ofName]

theorem applies_markPlan {name : String} {index : Nat} :
    (markPlan glyphs name index).Applies glyphs ↔
      attachable glyphs true name ≠ [] ∧ marksWithAnchor glyphs ("_" ++ name) ≠ [] := by
  simp [MarkPlan.Applies, markPlan, MarkPlan.ofMarkPair, AnchorPair.ofName]

/-- Whether some lookups are those of the plans of names in a feature, as far as the feature is
wanted and the plans apply. -/
def AreLookups (classes : MarkClasses) (glyphs : List AnchoredGlyph) (wanted : List String)
    (feature : String) (plans : List MarkPlan) (lookups : List Statement) : Prop :=
  List.Forall₂ (MarkPlan.IsLookup classes)
    ((wantedPlans wanted feature plans).filter (MarkPlan.applies glyphs)) lookups

/-- The lookups of both features are those of the plans that apply, with the classes that are
in use in the end. -/
theorem exists_lookups (file : FeatureFile) (wanted : List String)
    (glyphs : List AnchoredGlyph) :
    let areLookups := AreLookups (ofMarks file wanted glyphs).classes glyphs wanted
    ∃ bases ligatures, (ofBases file wanted glyphs).lookups = bases ++ ligatures ∧
      areLookups "mark" (namedPlans glyphs (fun name => name) (pairPlan glyphs)) bases ∧
      areLookups "mark" (namedPlans glyphs (fun name => numberedName name 1) (chainPlan glyphs))
        ligatures ∧
      areLookups "mkmk" (namedPlans glyphs (fun name => name) (markPlan glyphs))
        (ofMarks file wanted glyphs).lookups := by
  have between := exact_between file wanted glyphs
  have betweenSound := between_sound file wanted glyphs
  obtain ⟨lookups, same, made⟩ := exists_lookups_foldl (exact_start file glyphs)
    (start_sound file glyphs) (wantedPlans wanted "mark" (basePlans glyphs))
  obtain ⟨marks, sameMarks, madeMarks⟩ := exists_lookups_foldl between betweenSound
    (wantedPlans wanted "mkmk" (markPlans glyphs))
  have kept := (exact_foldl between betweenSound (wantedPlans wanted "mkmk" (markPlans glyphs))).2
  rw [← ofBases] at same made
  rw [← ofMarks] at sameMarks madeMarks kept
  have split : wantedPlans wanted "mark" (basePlans glyphs) =
      wantedPlans wanted "mark" (namedPlans glyphs (fun name => name) (pairPlan glyphs)) ++
        wantedPlans wanted "mark"
          (namedPlans glyphs (fun name => numberedName name 1) (chainPlan glyphs)) := by
    rw [basePlans_eq]
    unfold wantedPlans
    split
    · rfl
    · rfl
  rw [split, List.filter_append] at made
  obtain ⟨bases, ligatures, rfl, madeBases, madeLigatures⟩ := exists_append_of_forall₂ made
  refine ⟨bases, ligatures, same, madeBases.imp fun plan lookup isLookup => isLookup.mono kept,
    madeLigatures.imp fun plan lookup isLookup => isLookup.mono kept, ?_⟩
  rw [sameMarks, ← markPlans_eq]
  exact madeMarks

/-- The lookups of plans of names are one for each wanted name whose plan applies. -/
theorem AreLookups.oneForEach {classes : MarkClasses} {feature : String}
    {anchor : String → String} {plan : String → Nat → MarkPlan} {lookups : List Statement}
    (made : AreLookups classes glyphs wanted feature (namedPlans glyphs anchor plan) lookups)
    {joins : String → Prop}
    (applies : ∀ name index, (plan name index).Applies glyphs ↔ joins name) :
    OneForEach (fun name =>
        feature ∈ wanted ∧ name ∈ joinedNames (anchorNames glyphs) anchor ∧ joins name)
      (fun name lookup => ∃ index, (plan name index).IsLookup classes lookup) lookups := by
  unfold AreLookups wantedPlans at made
  split at made
  · next listed =>
      -- Whether a plan applies does not depend on its number, so it is a test of the name.
      let test := fun name => (plan name 0).applies glyphs
      have sameTest : (MarkPlan.applies glyphs ∘ fun numbered : String × Nat =>
          plan numbered.1 numbered.2) = test ∘ Prod.fst := by
        funext numbered
        rw [Bool.eq_iff_iff, Function.comp_apply, MarkPlan.applies_iff, applies]
        exact (MarkPlan.applies_iff.trans (applies _ 0)).symm
      rw [namedPlans, List.filter_map, sameTest, List.forall₂_map_left_iff] at made
      refine ⟨_, (nodup_joinedNames (anchorNames glyphs) anchor).filter test, fun name => ?_, ?_⟩
      · rw [List.mem_filter, MarkPlan.applies_iff, applies]
        exact (and_iff_right (List.contains_iff_mem.mp listed)).symm
      · have kept : ∀ names : List String,
            names.filter test = (names.zipIdx.filter (test ∘ Prod.fst)).map Prod.fst := by
          intro names
          rw [← List.filter_map, List.zipIdx_map_fst]
        rw [kept, List.forall₂_map_left_iff]
        exact made.imp fun numbered lookup isLookup => ⟨numbered.2, isLookup⟩
  · next missing =>
      rw [List.filter_nil, List.forall₂_nil_left_iff] at made
      subst made
      refine ⟨[], List.nodup_nil, fun name => iff_of_false List.not_mem_nil fun held => ?_, .nil⟩
      exact missing (List.contains_iff_mem.mpr held.1)

end MarkDraft

/-! ## What the writer adds -/

/-- The block of a feature with some lookups, if there are any. -/
def featureBlock (feature : String) (lookups : List Statement) : List Statement :=
  if lookups.isEmpty then [] else [.block .feature feature lookups]

/-- What the mark writer adds to a feature file: entries of mark classes, and the lookups that
attach marks to bases, to ligatures and to other marks. -/
structure MarkAddition where
  entries : List MarkClassEntry
  bases : List Statement
  ligatures : List Statement
  marks : List Statement

namespace MarkAddition

def blocks (addition : MarkAddition) : List Statement :=
  featureBlock "mark" (addition.bases ++ addition.ligatures) ++ featureBlock "mkmk" addition.marks

/-- The statements in the order in which they are added. -/
def statements (addition : MarkAddition) : List Statement :=
  addition.entries.map .markClass ++ addition.blocks

end MarkAddition

namespace MarkWriter

open MarkDraft

variable {α : Type} [Coordinate α] {writer : MarkWriter} {context : LayoutContext α}
  {file : FeatureFile} {name anchor : String} {marks : Bool}

def draft (writer : MarkWriter) (context : LayoutContext α) (file : FeatureFile) : MarkDraft :=
  ofMarks file (wantedFeatures writer.overlap file features) (writer.glyphs context file)

theorem exact_draft (writer : MarkWriter) (context : LayoutContext α) (file : FeatureFile) :
    (writer.draft context file).classes.Exact file (writer.glyphs context file) :=
  exact_ofMarks _ _ _

theorem sound_draft (writer : MarkWriter) (context : LayoutContext α) (file : FeatureFile) :
    (writer.draft context file).Sound file (writer.glyphs context file)
      (ofBases file (wantedFeatures writer.overlap file features)
        (writer.glyphs context file)).lookups :=
  ofMarks_sound _ _ _

/-- Whether a name joins glyphs to marks in a feature that is to be written: some glyph, as a
mark or as another, carries an anchor, and some mark carries the mark anchor of the name. -/
def Joins (writer : MarkWriter) (context : LayoutContext α) (file : FeatureFile)
    (feature : String) (marks : Bool) (anchor name : String) : Prop :=
  feature ∈ wantedFeatures writer.overlap file features ∧ name ≠ "" ∧
    writer.carriers context file marks anchor ≠ [] ∧
      writer.carriers context file true ("_" ++ name) ≠ []

theorem mem_anchorNames_of_carriers (carried : writer.carriers context file marks anchor ≠ []) :
    anchor ∈ anchorNames (writer.glyphs context file) := by
  obtain ⟨carrier, listed⟩ := List.exists_mem_of_ne_nil _ carried
  obtain ⟨glyph, takesPart, found⟩ := List.mem_filterMap.mp listed
  obtain ⟨place, isPlace, -⟩ := Option.map_eq_some_iff.mp found
  exact mem_anchorNames_of_place? takesPart (Option.isSome_iff_exists.mpr ⟨place, isPlace⟩)

theorem marksWithAnchor_ne_nil_iff : marksWithAnchor (writer.glyphs context file) anchor ≠ [] ↔
    writer.carriers context file true anchor ≠ [] := by
  rw [ne_eq, ne_eq, not_iff_not, List.eq_nil_iff_forall_not_mem, List.eq_nil_iff_forall_not_mem]
  exact forall_congr' fun mark => not_congr mem_marksWithAnchor

/-- The names of the plans that apply are those that join glyphs to marks. -/
theorem joins_iff {feature : String} {anchor : String → String} :
    (feature ∈ wantedFeatures writer.overlap file features ∧
      name ∈ joinedNames (anchorNames (writer.glyphs context file)) anchor ∧
      writer.carriers context file marks (anchor name) ≠ [] ∧
        marksWithAnchor (writer.glyphs context file) ("_" ++ name) ≠ []) ↔
    writer.Joins context file feature marks (anchor name) name := by
  rw [mem_joinedNames, marksWithAnchor_ne_nil_iff]
  refine and_congr_right fun _ => ⟨?_, ?_⟩
  · rintro ⟨⟨nonempty, -, -⟩, carried, marked⟩
    exact ⟨nonempty, carried, marked⟩
  · rintro ⟨nonempty, carried, marked⟩
    exact ⟨⟨nonempty, mem_anchorNames_of_carriers marked, mem_anchorNames_of_carriers carried⟩,
      carried, marked⟩

/-- A chain has ligatures exactly when some glyph that is no mark carries its first anchor. -/
theorem ligatures_ne_nil_iff :
    ligatures (writer.glyphs context file)
        (numberedChain (anchorNames (writer.glyphs context file)) name) ≠ [] ↔
      writer.carriers context file false (numberedName name 1) ≠ [] := by
  obtain ⟨count, ends, same⟩ := exists_numberedChain_eq (anchorNames (writer.glyphs context file))
    name
  have related := (ligatures_glyphs ends).length_eq
  rw [← List.length_pos_iff_ne_nil, ← List.length_pos_iff_ne_nil, same, ← related]
  unfold carriers
  rw [List.length_filter_pos_iff, List.length_filterMap_pos_iff]
  simp [Option.isSome_iff_exists]

/-- Whether an addition has a lookup for each name that joins glyphs to marks and no others,
each made with a class that the draft has in use. -/
structure Drafted (writer : MarkWriter) (context : LayoutContext α) (file : FeatureFile)
    (addition : MarkAddition) : Prop where
  blocks_eq : addition.blocks = MarkDraft.blocks file
    (wantedFeatures writer.overlap file features) (writer.glyphs context file)
  entries : addition.blocks ≠ [] →
    addition.entries = (writer.draft context file).classes.used.flatMap UsedMarkClass.entries
  bases : OneForEach (fun name => writer.Joins context file "mark" false name name)
    (fun name lookup => ∃ index, (pairPlan (writer.glyphs context file) name index).IsLookup
      (writer.draft context file).classes lookup) addition.bases
  ligatures : OneForEach
    (fun name => writer.Joins context file "mark" false (numberedName name 1) name)
    (fun name lookup => ∃ index, (chainPlan (writer.glyphs context file) name index).IsLookup
      (writer.draft context file).classes lookup) addition.ligatures
  marks : OneForEach (fun name => writer.Joins context file "mkmk" true name name)
    (fun name lookup => ∃ index, (markPlan (writer.glyphs context file) name index).IsLookup
      (writer.draft context file).classes lookup) addition.marks

section Plans

variable {classes : MarkClasses} {lookups : List Statement}

/-- The lookups of plans of names are one for each name that joins glyphs to marks. -/
theorem oneForEach_joins {feature : String} {anchor : String → String}
    {plan : String → Nat → MarkPlan}
    (made : AreLookups classes (writer.glyphs context file)
      (wantedFeatures writer.overlap file features) feature
      (namedPlans (writer.glyphs context file) anchor plan) lookups)
    (applies : ∀ name index, (plan name index).Applies (writer.glyphs context file) ↔
      writer.carriers context file marks (anchor name) ≠ [] ∧
        marksWithAnchor (writer.glyphs context file) ("_" ++ name) ≠ []) :
    OneForEach (fun name => writer.Joins context file feature marks (anchor name) name)
      (fun name lookup => ∃ index, (plan name index).IsLookup classes lookup) lookups :=
  (made.oneForEach applies).congr fun _ => joins_iff

/-! The rules of the lookups are for the carriers of the anchor, in their order. -/

variable {lookup : Statement} {index : Nat}

theorem exists_of_isLookup_pairPlan
    (made : (pairPlan (writer.glyphs context file) name index).IsLookup classes lookup) :
    ∃ used ∈ classes.used, used.anchor = "_" ++ name ∧ ∃ lookupName,
      lookup = .block .lookup lookupName ((writer.carriers context file false name).map
        fun base => .position (.markToBase base.1 [⟨base.2, used.name⟩])) := by
  obtain ⟨used, inUse, isAnchor, lookupName, _, rfl⟩ := made
  refine ⟨used, inUse, isAnchor, lookupName, congrArg (Statement.block .lookup lookupName) ?_⟩
  rw [← attachable_glyphs]
  exact List.map_map

theorem exists_of_isLookup_chainPlan
    (made : (chainPlan (writer.glyphs context file) name index).IsLookup classes lookup) :
    ∃ used ∈ classes.used, used.anchor = "_" ++ name ∧ ∃ lookupName,
      lookup = .block .lookup lookupName ((ligatures (writer.glyphs context file)
        (numberedChain (anchorNames (writer.glyphs context file)) name)).map
          fun ligature => .position (.markToLigature ligature.1
            (ligature.2.map fun place => [⟨place, used.name⟩]))) := by
  obtain ⟨used, inUse, isAnchor, lookupName, _, rfl⟩ := made
  refine ⟨used, inUse, isAnchor, lookupName, congrArg (Statement.block .lookup lookupName) ?_⟩
  exact List.map_map

theorem exists_of_isLookup_markPlan
    (made : (markPlan (writer.glyphs context file) name index).IsLookup classes lookup) :
    ∃ used ∈ classes.used, used.anchor = "_" ++ name ∧ ∃ lookupName filterName,
      lookup = .block .lookup lookupName (filterStatements filterName
        (.ofList ((writer.carriers context file true ("_" ++ name)).map Prod.fst ++
          (writer.carriers context file true name).map Prod.fst)) ++
        (writer.carriers context file true name).map fun base =>
          .position (.markToMark base.1 [⟨base.2, used.name⟩])) := by
  obtain ⟨used, inUse, isAnchor, lookupName, filterName, rfl⟩ := made
  refine ⟨used, inUse, isAnchor, lookupName, filterName,
    congrArg (Statement.block .lookup lookupName) ?_⟩
  rw [← attachable_glyphs, ← attachable_glyphs]
  exact congrArg (filterStatements filterName _ ++ ·) List.map_map

end Plans

theorem exists_drafted (context : LayoutContext α) (file : FeatureFile)
    (step : writer.quantization ≠ 0) :
    ∃ written addition, writer.write context file = .ok written ∧
      written.file = file.append addition.statements ∧ writer.Drafted context file addition := by
  obtain ⟨notices, wrote⟩ : ∃ notices, writer.write context file =
      .ok (.appending (writer.additions context file) file notices) := write_eq_appending step
  obtain ⟨bases, ligatures, parts, madeBases, madeLigatures, madeMarks⟩ := exists_lookups file
    (wantedFeatures writer.overlap file features) (writer.glyphs context file)
  have blocks : blocks file (wantedFeatures writer.overlap file features)
      (writer.glyphs context file) = featureBlock "mark" (bases ++ ligatures) ++
        featureBlock "mkmk" (writer.draft context file).lookups := by
    unfold MarkDraft.blocks MarkDraft.block
    rw [parts]
    rfl
  let entries := if (featureBlock "mark" (bases ++ ligatures) ++
      featureBlock "mkmk" (writer.draft context file).lookups).isEmpty then [] else
    (writer.draft context file).classes.used.flatMap UsedMarkClass.entries
  let addition : MarkAddition :=
    ⟨entries, bases, ligatures, (writer.draft context file).lookups⟩
  have added : writer.additions context file = addition.statements := by
    unfold additions MarkAddition.statements MarkAddition.blocks
    rw [statements_eq, blocks]
    dsimp only [addition, entries]
    split
    · next none =>
        rw [List.isEmpty_iff.mp none]
        rfl
    · rfl
  refine ⟨_, addition, wrote, ?_, blocks.symm,
    fun some => if_neg fun none => some (List.isEmpty_iff.mp none),
    oneForEach_joins madeBases fun name index => ?_,
    oneForEach_joins madeLigatures fun name index => ?_,
    oneForEach_joins madeMarks fun name index => ?_⟩
  · rw [Written.file_appending, added]
  · rw [applies_pairPlan, attachable_glyphs]
  · rw [applies_chainPlan, ligatures_ne_nil_iff]
  · rw [applies_markPlan, attachable_glyphs]

theorem featureBlock_ne_nil {feature : String} {lookups : List Statement} {lookup : Statement}
    (member : lookup ∈ lookups) : featureBlock feature lookups ≠ [] := by
  unfold featureBlock
  rw [if_neg fun none => List.ne_nil_of_mem member (List.isEmpty_iff.mp none)]
  exact List.cons_ne_nil _ _

namespace Drafted

variable {addition : MarkAddition} (drafted : writer.Drafted context file addition)
include drafted

/-- With a lookup the addition has the entries of the classes in use. -/
theorem statements_eq {lookup : Statement}
    (member : lookup ∈ addition.bases ∨ lookup ∈ addition.ligatures ∨ lookup ∈ addition.marks) :
    addition.statements = (writer.draft context file).classes.definitions ++ addition.blocks := by
  have some : addition.blocks ≠ [] := by
    unfold MarkAddition.blocks
    rw [ne_eq, List.append_eq_nil_iff, not_and_or]
    rcases member with base | ligature | mark
    · exact .inl (featureBlock_ne_nil (List.mem_append_left _ base))
    · exact .inl (featureBlock_ne_nil (List.mem_append_right _ ligature))
    · exact .inr (featureBlock_ne_nil mark)
  rw [MarkAddition.statements, drafted.entries some]
  rfl

/-- In a file with the addition the class in use for a mark anchor places its carriers. -/
theorem markPlace?_append {lookup : Statement}
    (member : lookup ∈ addition.bases ∨ lookup ∈ addition.ligatures ∨ lookup ∈ addition.marks)
    {used : UsedMarkClass} (inUse : used ∈ (writer.draft context file).classes.used)
    {mark : GlyphName × Place} (carrier : mark ∈ writer.carriers context file true used.anchor) :
    (file.append addition.statements).markPlace? used.name mark.1 = some mark.2 := by
  have sound := writer.sound_draft context file
  have noMark : definedMarkClasses addition.blocks = [] := by
    rw [drafted.blocks_eq, definedMarkClasses, filterMap_visit_blocks fun _ _ => rfl]
    exact sound.marks
  rw [drafted.statements_eq member]
  exact (writer.exact_draft context file).markPlace? sound.classes inUse
    (writer.nodup_marksWithAnchor context file _) noMark (mem_marksWithAnchor.mpr carrier)

end Drafted

end MarkWriter

end FontCompiler
