import FontCompiler.Proofs.Attachment.MarkDrafting

/-!
# What the mark writer adds

The mark writer adds the classes in use and a feature block for each wanted
feature with a plan that applies. Which features these are depends on the glyphs
that attach, not on the names in the file.
-/

namespace FontCompiler

open Statement

namespace MarkDraft

variable {file : FeatureFile} {glyphs : List AnchoredGlyph} {wanted : List String}

theorem start_sound (file : FeatureFile) (glyphs : List AnchoredGlyph) :
    Sound file glyphs [] (start file) where
  classes :=
    { marked := fun _ listed => nomatch listed
      entries := fun _ listed => nomatch listed
      made := fun _ listed => nomatch listed
      defined := fun _ listed => nomatch listed
      new := by
        have none : definedGlyphClasses ([] ++ (start file).lookups) = [] := by
          simp [definedGlyphClasses, start]
        rw [none]
        exact .start _ }
  new := by
    have none : definedLookups ([] ++ (start file).lookups) = [] := by
      simp [definedLookups, start]
    rw [none]
    exact .start _
  made := .nil
  marks := by simp [definedMarkClasses, start]
  lookupUses := by simp [start]
  classUses := by simp [start]

theorem ofBases_sound (file : FeatureFile) (wanted : List String) (glyphs : List AnchoredGlyph) :
    Sound file glyphs [] (ofBases file wanted glyphs) :=
  (start_sound file glyphs).foldl _

/-- The draft of the second feature starts after the lookups of the first one. -/
theorem between_sound (file : FeatureFile) (wanted : List String) (glyphs : List AnchoredGlyph) :
    Sound file glyphs (ofBases file wanted glyphs).lookups
      { ofBases file wanted glyphs with lookups := [] } := by
  have bases := ofBases_sound file wanted glyphs
  have same : (ofBases file wanted glyphs).lookups ++ [] =
      [] ++ (ofBases file wanted glyphs).lookups := by
    rw [List.append_nil, List.nil_append]
  constructor <;> rw [same]
  · exact bases.classes
  · exact bases.new
  · exact bases.made
  · exact bases.marks
  · exact bases.lookupUses
  · exact bases.classUses

theorem ofMarks_sound (file : FeatureFile) (wanted : List String) (glyphs : List AnchoredGlyph) :
    Sound file glyphs (ofBases file wanted glyphs).lookups (ofMarks file wanted glyphs) :=
  (between_sound file wanted glyphs).foldl _

def provided (glyphs : List AnchoredGlyph) (feature : String) : Prop :=
  feature = "mark" ∧ (∃ plan ∈ basePlans glyphs, plan.Applies glyphs) ∨
    feature = "mkmk" ∧ ∃ plan ∈ markPlans glyphs, plan.Applies glyphs

theorem exists_mem_wantedPlans {feature : String} {plans : List MarkPlan} :
    (∃ plan ∈ wantedPlans wanted feature plans, plan.Applies glyphs) ↔
      feature ∈ wanted ∧ ∃ plan ∈ plans, plan.Applies glyphs := by
  unfold wantedPlans
  split
  · next listed => simp [List.contains_iff_mem.mp listed]
  · next missing =>
      have absent : feature ∉ wanted := fun listed => missing (List.contains_iff_mem.mpr listed)
      simp [absent]

theorem lookups_ofBases_ne_nil_iff :
    (ofBases file wanted glyphs).lookups ≠ [] ↔
      "mark" ∈ wanted ∧ ∃ plan ∈ basePlans glyphs, plan.Applies glyphs := by
  rw [← exists_mem_wantedPlans]
  exact ((start_sound file glyphs).lookups_foldl_ne_nil_iff _).trans (by simp [start])

theorem lookups_ofMarks_ne_nil_iff :
    (ofMarks file wanted glyphs).lookups ≠ [] ↔
      "mkmk" ∈ wanted ∧ ∃ plan ∈ markPlans glyphs, plan.Applies glyphs := by
  rw [← exists_mem_wantedPlans]
  exact ((between_sound file wanted glyphs).lookups_foldl_ne_nil_iff _).trans (by simp)

theorem exists_mem_block {draft : MarkDraft} {feature name : String} :
    (∃ body, .block .feature name body ∈ draft.block feature) ↔
      name = feature ∧ draft.lookups ≠ [] := by
  unfold block
  split
  · next none => simp [List.isEmpty_iff.mp none]
  · next some =>
      have nonempty : draft.lookups ≠ [] := fun none => some (List.isEmpty_iff.mpr none)
      simp [nonempty]

theorem eq_block_of_mem_blocks {statement : Statement}
    (listed : statement ∈ blocks file wanted glyphs) :
    ∃ feature body, statement = .block .feature feature body := by
  have ofBlock : ∀ {draft : MarkDraft} {feature : String}, statement ∈ draft.block feature →
      ∃ feature body, statement = .block .feature feature body := by
    intro draft feature found
    unfold block at found
    split at found
    · cases found
    · exact ⟨_, _, List.mem_singleton.mp found⟩
  exact (List.mem_append.mp listed).elim ofBlock ofBlock

/-- A wanted feature has a block exactly when one of its plans applies. -/
theorem exists_mem_blocks {feature : String} :
    (∃ body, .block .feature feature body ∈ blocks file wanted glyphs) ↔
      feature ∈ wanted ∧ provided glyphs feature := by
  unfold blocks provided
  simp only [List.mem_append, exists_or, exists_mem_block, lookups_ofBases_ne_nil_iff,
    lookups_ofMarks_ne_nil_iff]
  grind

/-- The lookups of both features. -/
def allLookups (file : FeatureFile) (wanted : List String) (glyphs : List AnchoredGlyph) :
    List Statement :=
  (ofBases file wanted glyphs).lookups ++ (ofMarks file wanted glyphs).lookups

/-- A feature block holds the lookups of its draft, and none is left out. -/
theorem visit_block {draft : MarkDraft} {feature : String} :
    visit (draft.block feature) =
      if draft.lookups.isEmpty then []
      else .block .feature feature draft.lookups :: visit draft.lookups := by
  unfold block
  split
  · exact visit_nil
  · rw [visit_cons, children, List.append_nil]

theorem filterMap_visit_block {β : Type} {pick : Statement → Option β}
    (blind : ∀ name body, pick (.block .feature name body) = none) {draft : MarkDraft}
    {feature : String} :
    (visit (draft.block feature)).filterMap pick = (visit draft.lookups).filterMap pick := by
  rw [visit_block]
  split
  · next none => rw [List.isEmpty_iff.mp none, visit_nil]
  · exact List.filterMap_cons_none (blind _ _)

theorem filterMap_visit_blocks {β : Type} {pick : Statement → Option β}
    (blind : ∀ name body, pick (.block .feature name body) = none) :
    (visit (blocks file wanted glyphs)).filterMap pick =
      (visit (allLookups file wanted glyphs)).filterMap pick := by
  unfold blocks allLookups
  rw [visit_append, visit_append, List.filterMap_append, List.filterMap_append,
    filterMap_visit_block blind, filterMap_visit_block blind]

theorem of_mem_visit_blocks {statement : Statement}
    (listed : statement ∈ visit (blocks file wanted glyphs)) :
    (∃ name body, statement = .block .feature name body ∧ name ∈ MarkWriter.features) ∨
      statement ∈ visit (allLookups file wanted glyphs) := by
  have ofBlock : ∀ {draft : MarkDraft} {feature : String}, feature ∈ MarkWriter.features →
      statement ∈ visit (draft.block feature) →
      (∃ name body, statement = .block .feature name body ∧ name ∈ MarkWriter.features) ∨
        statement ∈ visit draft.lookups := by
    intro draft feature known found
    rw [visit_block] at found
    split at found
    · cases found
    · rcases List.mem_cons.mp found with rfl | inside
      · exact .inl ⟨_, _, rfl, known⟩
      · exact .inr inside
  unfold blocks at listed
  unfold allLookups
  rw [visit_append, List.mem_append] at listed ⊢
  rcases listed with bases | marks
  · exact (ofBlock (by decide) bases).imp_right .inl
  · exact (ofBlock (by decide) marks).imp_right .inr

end MarkDraft

namespace MarkWriter

open MarkDraft

variable {file : FeatureFile} {glyphs : List AnchoredGlyph} {wanted : List String}

theorem visit_definitions (classes : MarkClasses) :
    visit classes.definitions = classes.definitions := by
  refine visit_of_flat fun statement listed => ?_
  obtain ⟨entry, -, rfl⟩ := List.mem_map.mp listed
  rfl

/-- The writer adds its definitions and blocks, or nothing if there are no lookups. -/
theorem statements_cases (file : FeatureFile) (wanted : List String)
    (glyphs : List AnchoredGlyph) :
    MarkWriter.statements file wanted glyphs = [] ∨
      MarkWriter.statements file wanted glyphs =
        (ofMarks file wanted glyphs).classes.definitions ++ blocks file wanted glyphs := by
  rw [statements_eq]
  split
  · exact .inl rfl
  · exact .inr rfl

theorem statements_eq_nil_iff :
    MarkWriter.statements file wanted glyphs = [] ↔
      ∀ feature, provided glyphs feature → feature ∉ wanted := by
  have none : blocks file wanted glyphs = [] ↔
      ∀ feature, provided glyphs feature → feature ∉ wanted := by
    constructor
    · intro none feature offered listed
      obtain ⟨body, found⟩ := exists_mem_blocks.mpr ⟨listed, offered⟩
      rw [none] at found
      cases found
    · intro unwanted
      refine List.eq_nil_iff_forall_not_mem.mpr fun statement found => ?_
      obtain ⟨feature, body, rfl⟩ := eq_block_of_mem_blocks found
      obtain ⟨listed, offered⟩ := exists_mem_blocks.mp ⟨body, found⟩
      exact unwanted feature offered listed
  rw [← none, statements_eq]
  split
  · next empty => exact iff_of_true rfl (List.isEmpty_iff.mp empty)
  · next some =>
      have blocks : blocks file wanted glyphs ≠ [] := fun none => some (List.isEmpty_iff.mpr none)
      simp [blocks]

theorem mem_statements_of_mem_blocks {statement : Statement}
    (listed : statement ∈ blocks file wanted glyphs) :
    statement ∈ MarkWriter.statements file wanted glyphs := by
  have some : ¬ (blocks file wanted glyphs).isEmpty = true := fun none => by
    rw [List.isEmpty_iff.mp none] at listed
    cases listed
  rw [statements_eq, if_neg some]
  exact List.mem_append_right _ listed

/-- The names that the statements define are those of the drafted lookups and classes. -/
theorem defined_additions (file : FeatureFile) (wanted : List String)
    (glyphs : List AnchoredGlyph) :
    let added := (ofMarks file wanted glyphs).classes.definitions ++ blocks file wanted glyphs
    definedLookups added = definedLookups (allLookups file wanted glyphs) ∧
      definedGlyphClasses added = definedGlyphClasses (allLookups file wanted glyphs) ∧
      ∀ name ∈ definedMarkClasses added, ∃ used ∈ (ofMarks file wanted glyphs).classes.used,
        used.name = name := by
  have sound := ofMarks_sound file wanted glyphs
  dsimp only
  unfold definedLookups definedGlyphClasses definedMarkClasses
  rw [visit_append, visit_definitions, List.filterMap_append, List.filterMap_append,
    List.filterMap_append, filterMap_visit_blocks fun _ _ => rfl,
    filterMap_visit_blocks fun _ _ => rfl, filterMap_visit_blocks fun _ _ => rfl]
  have noName : ∀ {pick : Statement → Option String}, (∀ entry, pick (.markClass entry) = none) →
      (ofMarks file wanted glyphs).classes.definitions.filterMap pick = [] := by
    intro pick blind
    refine List.filterMap_eq_nil_iff.mpr fun statement listed => ?_
    obtain ⟨entry, -, rfl⟩ := List.mem_map.mp listed
    exact blind entry
  refine ⟨?_, ?_, fun name listed => ?_⟩
  · rw [noName fun _ => rfl, List.nil_append]
  · rw [noName fun _ => rfl, List.nil_append]
  · have noMark : (visit (allLookups file wanted glyphs)).filterMap markClassName? = [] :=
      sound.marks
    rw [noMark, List.append_nil] at listed
    obtain ⟨statement, member, same⟩ := List.mem_filterMap.mp listed
    obtain ⟨entry, held, rfl⟩ := List.mem_map.mp member
    obtain ⟨used, inUse, ofUsed⟩ := List.mem_flatMap.mp held
    cases same
    exact ⟨used, inUse, (sound.classes.entries used inUse entry ofUsed).symm⟩

/-- A new class in use is defined. -/
theorem mem_definedMarkClasses {added : List Statement}
    (same : added = (ofMarks file wanted glyphs).classes.definitions ++ blocks file wanted glyphs)
    {used : UsedMarkClass} (inUse : used ∈ (ofMarks file wanted glyphs).classes.used)
    (inhabited : used.entries ≠ []) : used.name ∈ definedMarkClasses added := by
  obtain ⟨entry, listed⟩ := List.exists_mem_of_ne_nil _ inhabited
  rw [same, definedMarkClasses_append, List.mem_append]
  refine .inl (List.mem_filterMap.mpr ⟨.markClass entry, ?_, ?_⟩)
  · rw [visit_definitions]
    exact List.mem_map_of_mem (List.mem_flatMap.mpr ⟨used, inUse, listed⟩)
  · exact congrArg some ((ofMarks_sound file wanted glyphs).classes.entries used inUse entry listed)

theorem allMadeBy_statements : AllMadeBy .mark (MarkWriter.statements file wanted glyphs) := by
  have sound := ofMarks_sound file wanted glyphs
  rcases statements_cases file wanted glyphs with none | same
  · rw [none]
    exact .nil
  · rw [same]
    refine AllMadeBy.append (.of_flat (fun statement listed => ?_) fun statement listed => ?_)
      fun statement listed => ?_
    · obtain ⟨entry, -, rfl⟩ := List.mem_map.mp listed
      rfl
    · obtain ⟨entry, held, rfl⟩ := List.mem_map.mp listed
      obtain ⟨used, inUse, ofUsed⟩ := List.mem_flatMap.mp held
      refine .markClass ?_
      rw [sound.classes.entries used inUse entry ofUsed]
      exact sound.classes.made used inUse
    · rcases of_mem_visit_blocks listed with ⟨name, body, rfl, known⟩ | inside
      · exact .feature body known
      · exact sound.made statement inside

/-- A mark class in use has the name of no glyph class, old or new. -/
theorem not_mem_definedGlyphClasses_of_used (coherent : file.Coherent) {used : UsedMarkClass}
    (inUse : used ∈ (ofMarks file wanted glyphs).classes.used) :
    used.name ∉ definedGlyphClasses file.statements ∧
      used.name ∉ definedGlyphClasses (allLookups file wanted glyphs) := by
  have sound := ofMarks_sound file wanted glyphs
  have new := sound.classes.new
  rcases sound.classes.defined used inUse with known | ⟨free, -⟩
  · refine ⟨fun old => coherent.apart used.name old known, fun filter => ?_⟩
    exact new.free used.name (List.mem_append_left _ filter)
      (FeatureFile.mem_classNames.mpr (.inr known))
  · refine ⟨fun old => free (FeatureFile.mem_classNames.mpr (.inl old)), fun filter => ?_⟩
    refine (List.nodup_append'.mp new.distinct).2.2 filter (List.mem_filter.mpr ⟨?_, ?_⟩)
    · exact List.mem_map_of_mem inUse
    · exact decide_eq_true free

/-- The statements refer to no lookup, and to classes of the file or of their own. -/
theorem uses_additions {statement : Statement} {added : List Statement}
    (same : added = (ofMarks file wanted glyphs).classes.definitions ++ blocks file wanted glyphs)
    (listed : statement ∈ visit added) :
    statement.lookupUses = [] ∧ ∀ name ∈ statement.classUses, name ∈ file.classNames ∨
      name ∈ definedGlyphClasses (allLookups file wanted glyphs) ∨
        name ∈ definedMarkClasses added := by
  have sound := ofMarks_sound file wanted glyphs
  rw [same, visit_append, visit_definitions] at listed
  rcases List.mem_append.mp listed with defined | inside
  · obtain ⟨entry, -, rfl⟩ := List.mem_map.mp defined
    exact ⟨rfl, fun _ used => nomatch used⟩
  · rcases of_mem_visit_blocks inside with ⟨feature, body, rfl, -⟩ | inside
    · exact ⟨rfl, fun _ used => nomatch used⟩
    · refine ⟨sound.lookupUses statement inside, fun name used => ?_⟩
      rcases sound.classUses statement inside name used with inUse | filter
      · obtain ⟨known, member, rfl⟩ := List.mem_map.mp inUse
        rcases sound.classes.defined known member with marks | ⟨-, inhabited⟩
        · exact .inl (FeatureFile.mem_classNames.mpr (.inr marks))
        · exact .inr (.inr (mem_definedMarkClasses same member inhabited))
      · exact .inr (.inl filter)

/-- What the writer adds to a coherent file fits it. -/
theorem fits_statements (coherent : file.Coherent) :
    Contribution.Fits { appended := MarkWriter.statements file wanted glyphs } file := by
  have sound := ofMarks_sound file wanted glyphs
  rcases statements_cases file wanted glyphs with none | same
  · rw [none]
    exact Contribution.fits_empty file
  · obtain ⟨lookups, glyphClasses, markClasses⟩ := defined_additions file wanted glyphs
    rw [← same] at lookups glyphClasses markClasses
    refine ⟨by simp, ⟨(ofMarks file wanted glyphs).lookupNames, ?_⟩,
      ⟨(ofMarks file wanted glyphs).classes.taken, ?_⟩, fun name listed => ?_,
      fun statement listed name used => ?_, fun statement listed name used => ?_⟩
    · dsimp only
      rw [lookups]
      exact sound.new
    · dsimp only
      rw [glyphClasses]
      exact sound.classes.new.subperm (List.sublist_append_left _ _).subperm
    · dsimp only
      rw [glyphClasses]
      obtain ⟨used, inUse, rfl⟩ := markClasses name listed
      exact not_mem_definedGlyphClasses_of_used coherent inUse
    · rw [(uses_additions same listed).1] at used
      cases used
    · dsimp only
      rw [glyphClasses]
      exact (uses_additions same listed).2 name used

end MarkWriter

end FontCompiler
