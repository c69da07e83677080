import FontCompiler.Proofs.Feature.Contribution
import FontCompiler.Proofs.Kerning.Registration

/-!
# What the kerning writer contributes

The kerning writer adds classes, lookups and features, or nothing at all. It has
something to add exactly when one of the wanted features has a tag to register,
and the tags depend on the scripts of the lookups but not on their names.
-/

namespace FontCompiler

/-! ## Registered tags -/

section Tags

variable {lookups others : List KernLookup} {registration other : Registration}

theorem Registration.keys_add (tag : Tag) (names : List String) (registration : Registration) :
    (registration.add tag names).keys =
      if tag ∈ registration.keys then registration.keys else registration.keys ++ [tag] :=
  KeyedList.keys_putInto _ registration.entries

theorem Registration.keys_foldl_add_congr (same : registration.keys = other.keys) (tags : List Tag)
    (names otherNames : List String) :
    (tags.foldl (fun current tag => current.add tag names) registration).keys =
      (tags.foldl (fun current tag => current.add tag otherNames) other).keys := by
  induction tags generalizing registration other with
  | nil => exact same
  | cons tag rest ih =>
      refine ih ?_
      rw [Registration.keys_add, Registration.keys_add, same]

theorem lookupsOfScript_eq_nil_iff {script : Script} :
    lookupsOfScript lookups script = [] ↔ script ∉ lookups.map KernLookup.script := by
  simp [lookupsOfScript]

theorem defaultLookups_eq_nil_iff :
    defaultLookups lookups = [] ↔
      ∀ script ∈ Script.defaults, script ∉ lookups.map KernLookup.script := by
  unfold defaultLookups
  rw [List.flatMap_eq_nil_iff]
  simp only [lookupsOfScript_eq_nil_iff]

/-- Which tags a script registers depends on the scripts that have lookups. -/
theorem keys_registerScript_congr (scripts : lookups.map KernLookup.script =
      others.map KernLookup.script) (same : registration.keys = other.keys) (script : Script) :
    (registerScript lookups registration script).keys =
      (registerScript others other script).keys := by
  have empty : (defaultLookups lookups ++ lookupsOfScript lookups script).isEmpty = true ↔
      (defaultLookups others ++ lookupsOfScript others script).isEmpty = true := by
    simp only [List.isEmpty_iff, List.append_eq_nil_iff, defaultLookups_eq_nil_iff,
      lookupsOfScript_eq_nil_iff, scripts]
  unfold registerScript
  dsimp only
  by_cases none : (defaultLookups lookups ++ lookupsOfScript lookups script).isEmpty = true
  · rw [if_pos none, if_pos (empty.mp none)]
    exact same
  · rw [if_neg none, if_neg fun other => none (empty.mpr other)]
    exact Registration.keys_foldl_add_congr same _ _ _

theorem keys_foldl_registerScript_congr (scripts : lookups.map KernLookup.script =
      others.map KernLookup.script) (same : registration.keys = other.keys) (known : List Script) :
    (known.foldl (registerScript lookups) registration).keys =
      (known.foldl (registerScript others) other).keys := by
  induction known generalizing registration other with
  | nil => exact same
  | cons script rest ih => exact ih (keys_registerScript_congr scripts same script)

theorem keys_kernRegistration_congr
    (scripts : lookups.map KernLookup.script = others.map KernLookup.script)
    (known : SortedSet Script) :
    (kernRegistration lookups known).keys = (kernRegistration others known).keys := by
  have empty : (defaultLookups lookups).isEmpty = true ↔
      (defaultLookups others).isEmpty = true := by
    simp only [List.isEmpty_iff, defaultLookups_eq_nil_iff, scripts]
  unfold kernRegistration
  refine keys_foldl_registerScript_congr scripts ?_ _
  by_cases none : (defaultLookups lookups).isEmpty = true
  · rw [if_pos none, if_pos (empty.mp none)]
  · rw [if_neg none, if_neg fun other => none (empty.mpr other), Registration.keys_add,
      Registration.keys_add]

theorem keys_distanceRegistration_congr
    (scripts : lookups.map KernLookup.script = others.map KernLookup.script)
    (known : SortedSet Script) :
    (distanceRegistration lookups known).keys = (distanceRegistration others known).keys :=
  keys_foldl_registerScript_congr scripts rfl _

end Tags

def registeredFeatures (lookups : List KernLookup) (known : SortedSet Script) : List String :=
  (if (kernRegistration lookups known).isEmpty then [] else ["kern"]) ++
    if (distanceRegistration lookups known).isEmpty then [] else ["dist"]

theorem registeredFeatures_congr {lookups others : List KernLookup}
    (scripts : lookups.map KernLookup.script = others.map KernLookup.script)
    (known : SortedSet Script) :
    registeredFeatures lookups known = registeredFeatures others known := by
  have isEmpty_keys : ∀ registration : Registration,
      registration.isEmpty = registration.keys.isEmpty := fun registration => by
    rw [KeyedList.isEmpty, KeyedList.keys, List.isEmpty_map]
  unfold registeredFeatures
  rw [isEmpty_keys, isEmpty_keys, isEmpty_keys (kernRegistration others known),
    isEmpty_keys (distanceRegistration others known), keys_kernRegistration_congr scripts,
    keys_distanceRegistration_congr scripts]

/-- Without lookups no feature has a tag to register. -/
theorem registeredFeatures_nil (known : SortedSet Script) : registeredFeatures [] known = [] := by
  have idle : ∀ scripts : List Script,
      scripts.foldl (registerScript []) (∅ : Registration) = ∅ := fun scripts => by
    induction scripts with
    | nil => rfl
    | cons script rest ih => exact ih
  unfold registeredFeatures kernRegistration distanceRegistration
  rw [idle]
  exact congrArg (fun registration : Registration =>
    (if registration.isEmpty then [] else ["kern"]) ++ []) (idle _)

/-! ## The statements of the writer -/

section Statements

variable {α : Type} [Coordinate α] {writer : KernWriter} {context : LayoutContext α}
  {file : FeatureFile}

namespace KernWriter

def registeredScripts (writer : KernWriter) (context : LayoutContext α) (file : FeatureFile) :
    SortedSet Script :=
  knownScripts (context.scriptsByGlyph file) file.declaredLanguages
    (writer.kernSetting context file).scripts

def lookups (writer : KernWriter) (context : LayoutContext α) (file : FeatureFile) :
    List KernLookup :=
  ((writer.kernSetting context file).draft file).lookups

def provided (writer : KernWriter) (context : LayoutContext α) (file : FeatureFile) :
    List String :=
  registeredFeatures (writer.lookups context file) (writer.registeredScripts context file)

def featureBlocks (writer : KernWriter) (context : LayoutContext α) (file : FeatureFile)
    (wanted : List String) : List Statement :=
  blocks context file wanted (writer.kernSetting context file) (writer.lookups context file)

def statements (writer : KernWriter) (context : LayoutContext α) (file : FeatureFile) :
    List Statement :=
  let wanted := wantedFeatures writer.overlap file features
  if (writer.featureBlocks context file wanted).isEmpty then []
  else (writer.kernSetting context file).additions context file wanted

/-- A wanted feature gets a block exactly when there is something to register in it. -/
theorem exists_featureBlock_iff {wanted : List String} {feature : String} :
    (∃ body, .block .feature feature body ∈ writer.featureBlocks context file wanted) ↔
      feature ∈ wanted ∧ feature ∈ writer.provided context file := by
  unfold featureBlocks blocks registrationBlock provided registeredFeatures registeredScripts
  simp only [List.mem_append, exists_or]
  grind

theorem featureBlocks_eq_nil_iff {wanted : List String} :
    writer.featureBlocks context file wanted = [] ↔
      ∀ feature ∈ writer.provided context file, feature ∉ wanted := by
  constructor
  · intro none feature offered listed
    obtain ⟨body, found⟩ := exists_featureBlock_iff.mpr ⟨listed, offered⟩
    rw [none] at found
    cases found
  · intro unwanted
    refine List.eq_nil_iff_forall_not_mem.mpr fun statement found => ?_
    obtain ⟨name, registration, rfl, -⟩ := KernSetting.of_mem_blocks found
    obtain ⟨listed, offered⟩ := exists_featureBlock_iff.mp ⟨_, found⟩
    exact unwanted name offered listed

/-- The writer has something to add exactly when a wanted feature has something to register. -/
theorem statements_eq_nil_iff :
    writer.statements context file = [] ↔
      ∀ feature ∈ writer.provided context file,
        feature ∉ wantedFeatures writer.overlap file features := by
  unfold statements
  rw [← featureBlocks_eq_nil_iff]
  dsimp only
  split
  · next none => exact iff_of_true rfl (List.isEmpty_iff.mp none)
  · next some =>
      refine iff_of_false (fun none => ?_) fun none => some (List.isEmpty_iff.mpr none)
      have listed : .comment "" ∈ (writer.kernSetting context file).additions context file
          (wantedFeatures writer.overlap file features) :=
        KernSetting.mem_additions.mpr (.inr (.inl rfl))
      rw [none] at listed
      cases listed

theorem mem_statements_of_mem_featureBlocks {statement : Statement}
    (listed : statement ∈ writer.featureBlocks context file
      (wantedFeatures writer.overlap file features)) :
    statement ∈ writer.statements context file := by
  have some : ¬ (writer.featureBlocks context file
      (wantedFeatures writer.overlap file features)).isEmpty = true := fun none => by
    rw [List.isEmpty_iff.mp none] at listed
    cases listed
  unfold statements
  dsimp only
  rw [if_neg some]
  exact KernSetting.mem_additions.mpr (.inr (.inr (.inr listed)))

/-- The drafted lookups belong to the scripts whose pairs are left. -/
theorem map_script_lookups :
    (writer.lookups context file).map KernLookup.script =
      (writer.kernSetting context file).halves.map Prod.fst := by
  have matched := ((writer.kernSetting context file).draft_draftFor file).lookups
  unfold lookups
  generalize ((writer.kernSetting context file).draft file).lookups = drafted at matched ⊢
  generalize (writer.kernSetting context file).halves = halves at matched ⊢
  induction matched with
  | nil => rfl
  | cons stands _ ih => rw [List.map_cons, List.map_cons, stands.script_eq, ih]

theorem lookups_eq_nil_of_kernPairs (none : context.kernPairs = []) :
    writer.lookups context file = [] := by
  have noHalf : (writer.kernSetting context file).halves = [] := by
    refine List.eq_nil_iff_forall_not_mem.mpr fun half listed => ?_
    obtain ⟨first, second, pair, kept, covered⟩ := exists_kerns_of_mem_halves listed
    have member := (List.mem_filter.mp kept).1
    rw [bucket_kernSetting] at member
    obtain ⟨⟨whole, wholeListed, -⟩, -⟩ :=
      (kerns_halfBucket (labelsAgree_resolvedPairs context.view.kerning)).mp
        ⟨pair, member, covered, rfl, rfl⟩
    have impossible : whole ∈ context.kernPairs := wholeListed
    rw [none] at impossible
    cases impossible
  have noScript := @map_script_lookups α _ writer context file
  rw [noHalf] at noScript
  exact List.map_eq_nil_iff.mp noScript

theorem statements_eq_nil_of_lookups (none : writer.lookups context file = []) :
    writer.statements context file = [] := by
  rw [statements_eq_nil_iff, provided, none, registeredFeatures_nil]
  exact fun _ listed => nomatch listed

/-- On a grid with a step the writer adds its statements to the file. -/
theorem write_eq_appending (step : writer.quantization ≠ 0) :
    ∃ notices, writer.write context file =
      .ok (.appending (writer.statements context file) file notices) := by
  have unchanged : ∀ {notices : List (Notice α)}, writer.statements context file = [] →
      (.ok (.unchanged file notices) : Except WriterError (Written α)) =
        .ok (.appending (writer.statements context file) file notices) := fun none => by
    rw [none]
    rfl
  unfold write
  rw [if_neg step]
  dsimp only
  split
  · next none =>
      refine ⟨_, unchanged (statements_eq_nil_iff.mpr fun feature _ => ?_)⟩
      rw [List.isEmpty_iff.mp none]
      exact List.not_mem_nil
  · split
    · next none =>
        have noPair : context.kernPairs = [] := List.isEmpty_iff.mp none
        exact ⟨_, unchanged (statements_eq_nil_of_lookups (lookups_eq_nil_of_kernPairs noPair))⟩
    · unfold writePairs
      dsimp only
      split
      · next none =>
          have noLookup : writer.lookups context file = [] := List.isEmpty_iff.mp none
          exact ⟨_, unchanged (statements_eq_nil_of_lookups noLookup)⟩
      · split
        · next none =>
            have noBlock : writer.statements context file = [] := if_pos none
            exact ⟨_, unchanged noBlock⟩
        · next some =>
            have additions : writer.statements context file = _ := if_neg some
            exact ⟨_, by rw [additions]; rfl⟩

end KernWriter

end Statements

end FontCompiler
