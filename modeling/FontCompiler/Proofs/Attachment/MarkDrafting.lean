import FontCompiler.Proofs.Attachment.MarkPlan

/-!
# Drafting the mark lookups

Each mark anchor in use has one class, which the feature file had before or which
gets a new name. Each plan that applies adds one lookup, whose rules use the class
of its anchor. What holds of a draft thus holds after every further plan.
-/

namespace FontCompiler

open Statement

section Classes

variable {file : FeatureFile} {glyphs : List AnchoredGlyph} {anchor name : String}

/-! ## Mark classes -/

/-- The mark classes of a file are those that it defines. -/
theorem mem_definedMarkClasses_of_get? {places : OrderedMap GlyphName Place}
    (found : file.markClasses.get? name = some places) :
    name ∈ definedMarkClasses file.statements := by
  have search : ∀ (entries : List MarkClassEntry)
      (table : OrderedMap String (OrderedMap GlyphName Place)) (places),
      (entries.foldl (fun table entry => table.alter entry.className ∅ fun glyphs =>
        glyphs.put (entry.glyph, entry.place)) table).get? name = some places →
      (∃ places, table.get? name = some places) ∨ ∃ entry ∈ entries, entry.className = name := by
    intro entries
    induction entries with
    | nil => exact fun table places found => .inl ⟨places, found⟩
    | cons entry rest ih =>
        intro table places found
        rcases ih _ places found with ⟨earlier, before⟩ | ⟨later, listed, same⟩
        · rw [OrderedMap.get?_alter] at before
          split at before
          · next same => exact .inr ⟨entry, List.mem_cons_self, same⟩
          · exact .inl ⟨earlier, before⟩
        · exact .inr ⟨later, List.mem_cons_of_mem _ listed, same⟩
  rcases search _ ∅ places found with ⟨_, impossible⟩ | ⟨entry, listed, rfl⟩
  · cases impossible
  · obtain ⟨statement, member, same⟩ := List.mem_filterMap.mp listed
    refine List.mem_filterMap.mpr ⟨statement, member, ?_⟩
    cases statement with
    | markClass other =>
        cases same
        rfl
    | _ => cases same

namespace MarkClasses

/-- What a class must be to be chosen for some marks with an anchor: it is one of
the file, or a new one that has entries if there are marks. -/
structure Chosen (file : FeatureFile) (taken : SortedSet String) (anchor : String)
    (marks : List (GlyphName × Place)) (used : UsedMarkClass) : Prop where
  anchor_eq : used.anchor = anchor
  entries : ∀ entry ∈ used.entries, entry.className = used.name
  made : classMaker? used.name = some .mark
  origin : used.name ∈ definedMarkClasses file.statements ∨
    used.name ∉ taken ∧ (marks ≠ [] → used.entries ≠ [])

theorem choose_chosen (file : FeatureFile) (taken : SortedSet String) (anchor : String)
    (marks : List (GlyphName × Place)) :
    Chosen file taken anchor marks (choose file taken anchor marks) := by
  have begins : classMaker? "MC" = some .mark := rfl
  unfold choose
  dsimp only
  split
  · next existing found =>
      refine ⟨rfl, fun entry listed => ?_, classMaker?_append begins anchor, .inl ?_⟩
      · obtain ⟨mark, -, rfl⟩ := List.mem_map.mp listed
        rfl
      · exact mem_definedMarkClasses_of_get? (Option.filter_eq_some_iff.mp found).1
  · refine ⟨rfl, fun entry listed => ?_,
      classMaker?_freshClassName (classMaker?_append begins anchor) _,
      .inr ⟨freshClassName_not_mem _ _, fun some none => some (List.map_eq_nil_iff.mp none)⟩⟩
    obtain ⟨mark, -, rfl⟩ := List.mem_map.mp listed
    rfl

def names (classes : MarkClasses) : List String := classes.used.map UsedMarkClass.name

/-- The names of the classes in use that the file lacks. -/
def newNames (file : FeatureFile) (classes : MarkClasses) : List String :=
  classes.names.filter fun name => decide (name ∉ file.classNames)

/-- Whether the classes in use have marks and names of the kind that marks take,
and are mark classes of the file or new, also beside other new classes. -/
structure Sound (file : FeatureFile) (glyphs : List AnchoredGlyph) (others : List String)
    (classes : MarkClasses) : Prop where
  marked : ∀ used ∈ classes.used, marksWithAnchor glyphs used.anchor ≠ []
  entries : ∀ used ∈ classes.used, ∀ entry ∈ used.entries, entry.className = used.name
  made : ∀ used ∈ classes.used, classMaker? used.name = some .mark
  defined : ∀ used ∈ classes.used, used.name ∈ definedMarkClasses file.statements ∨
    used.name ∉ file.classNames ∧ used.entries ≠ []
  new : NewNames file.classNames classes.taken (others ++ newNames file classes)

variable {classes further : MarkClasses} {others : List String} {className : String}

/-- An anchor has a class exactly when some mark has the anchor. -/
theorem Sound.use?_eq_none_iff (sound : classes.Sound file glyphs others) :
    classes.use? file glyphs anchor = none ↔ marksWithAnchor glyphs anchor = [] := by
  unfold use?
  split
  · next used found =>
      have same : used.anchor = anchor := by simpa using List.find?_some found
      have marked := sound.marked used (List.mem_of_find?_eq_some found)
      rw [same] at marked
      exact iff_of_false (Option.some_ne_none _) marked
  · dsimp only
    split
    · next none => exact iff_of_true rfl (List.isEmpty_iff.mp none)
    · next some =>
        exact iff_of_false (Option.some_ne_none _) fun none => some (List.isEmpty_iff.mpr none)

theorem names_append (taken : SortedSet String) (used : UsedMarkClass) :
    names ⟨taken, classes.used ++ [used]⟩ = classes.names ++ [used.name] :=
  List.map_append

/-- A further class that was chosen for the marks with an anchor. -/
theorem Sound.append (sound : classes.Sound file glyphs others) {used : UsedMarkClass}
    (chosen : Chosen file classes.taken anchor (marksWithAnchor glyphs anchor) used)
    (marked : marksWithAnchor glyphs anchor ≠ []) :
    Sound file glyphs others ⟨classes.taken.insert used.name, classes.used ++ [used]⟩ := by
  have ofUsed : ∀ {holds : UsedMarkClass → Prop}, (∀ old ∈ classes.used, holds old) →
      holds used → ∀ other ∈ classes.used ++ [used], holds other := fun old last other listed =>
    (List.mem_append.mp listed).elim (old other) fun same => List.mem_singleton.mp same ▸ last
  refine ⟨ofUsed sound.marked (chosen.anchor_eq ▸ marked), ofUsed sound.entries chosen.entries,
    ofUsed sound.made chosen.made, ofUsed sound.defined ?_, ?_⟩
  · exact chosen.origin.imp_right fun new =>
      ⟨fun held => new.1 (sound.new.kept _ held), new.2 marked⟩
  · rw [newNames, names_append, List.filter_append, List.filter_singleton]
    rcases chosen.origin with known | ⟨free, -⟩
    · have held : used.name ∈ file.classNames := FeatureFile.mem_classNames.mpr (.inr known)
      rw [decide_eq_false (not_not_intro held), cond_false, List.append_nil]
      exact sound.new.take used.name
    · have new : used.name ∉ file.classNames := fun held => free (sound.new.kept _ held)
      rw [decide_eq_true new, cond_true, ← List.append_assoc]
      exact sound.new.trans (.single free)

/-- The class of an anchor is in use afterwards, and the others still are. -/
theorem Sound.use? (sound : classes.Sound file glyphs others)
    (found : classes.use? file glyphs anchor = some (className, further)) :
    further.Sound file glyphs others ∧ className ∈ further.names ∧
      ∀ name ∈ classes.names, name ∈ further.names := by
  unfold MarkClasses.use? at found
  split at found
  · next used known =>
      cases found
      exact ⟨sound, List.mem_map_of_mem (List.mem_of_find?_eq_some known), fun _ listed => listed⟩
  · dsimp only at found
    split at found
    · cases found
    · next marked =>
        cases found
        refine ⟨sound.append (choose_chosen file classes.taken anchor _) fun none =>
          marked (List.isEmpty_iff.mpr none), ?_, fun name old => ?_⟩
        · rw [names_append]
          exact List.mem_append_right _ (List.mem_singleton_self _)
        · rw [names_append]
          exact List.mem_append_left _ old

/-- A further class that is not for a mark anchor takes a free name. -/
theorem Sound.take (sound : classes.Sound file glyphs others) {name : String}
    (free : name ∉ classes.taken) :
    Sound file glyphs (others ++ [name]) { classes with taken := classes.taken.insert name } :=
  { sound with
    new := (sound.new.trans (.single free)).subperm <| List.subperm_ext_iff.mpr fun other _ => by
      simp only [newNames, names, List.count_append]
      omega }

end MarkClasses

end Classes

/-! ## Lookups -/

namespace MarkPlan

/-- The statements of the lookup of a plan, by the names of its class of marks and
of the class of marks that it sees. -/
def body (plan : MarkPlan) (className filterName : String) : List Statement :=
  match plan.seen with
  | none => MarkDraft.ruleStatements plan className
  | some seen =>
      MarkDraft.filterStatements filterName seen ++ MarkDraft.ruleStatements plan className

variable {plan : MarkPlan} {className filterName : String}

theorem of_mem_body {statement : Statement} (listed : statement ∈ plan.body className filterName) :
    (plan.seen.isSome = true ∧ ((∃ glyphs, statement = .glyphClass ⟨filterName, glyphs⟩) ∨
      statement = .lookupFlag { filterClass := some filterName })) ∨
      ∃ rule ∈ plan.rules, statement = .position (rule className) := by
  have ruled : statement ∈ MarkDraft.ruleStatements plan className →
      ∃ rule ∈ plan.rules, statement = .position (rule className) := fun listed => by
    obtain ⟨rule, member, rfl⟩ := List.mem_map.mp listed
    exact ⟨rule, member, rfl⟩
  unfold body at listed
  split at listed
  · exact .inr (ruled listed)
  · next seen known =>
      rw [known]
      simp only [MarkDraft.filterStatements, List.cons_append, List.nil_append,
        List.mem_cons] at listed
      rcases listed with first | second | later
      · exact .inl ⟨rfl, .inl ⟨_, first⟩⟩
      · exact .inl ⟨rfl, .inr second⟩
      · exact .inr (ruled later)

theorem body_flat : ∀ statement ∈ plan.body className filterName, statement.children = [] := by
  intro statement listed
  rcases of_mem_body listed with ⟨-, ⟨glyphs, rfl⟩ | rfl⟩ | ⟨rule, -, rfl⟩ <;> rfl

theorem glyphClasses_body : (plan.body className filterName).filterMap glyphClassName? =
    if plan.seen.isSome then [filterName] else [] := by
  have ruled : (MarkDraft.ruleStatements plan className).filterMap glyphClassName? = [] := by
    refine List.filterMap_eq_nil_iff.mpr fun statement listed => ?_
    obtain ⟨rule, -, rfl⟩ := List.mem_map.mp listed
    rfl
  unfold body
  split
  · next none =>
      rw [ruled, none]
      rfl
  · next seen known =>
      rw [List.filterMap_append, ruled, known]
      rfl

end MarkPlan

namespace MarkDraft

variable {file : FeatureFile} {glyphs : List AnchoredGlyph} {earlier : List Statement}
  {draft : MarkDraft}

theorem addPlanned_eq (plan : MarkPlan) (className : String) (classes : MarkClasses)
    (draft : MarkDraft) :
    let name := freshName plan.wanted draft.lookupNames
    let filterName := freshClassName (name ++ "MkAttach") classes.taken
    addPlanned plan className classes draft =
      { classes := if plan.seen.isSome then
          { classes with taken := classes.taken.insert filterName } else classes
        lookupNames := draft.lookupNames.insert name
        lookups := draft.lookups ++ [.block .lookup name (plan.body className filterName)] } := by
  unfold addPlanned MarkPlan.body addLookup
  cases plan.seen <;> rfl

/-- A plan adds one lookup or changes nothing. -/
theorem addPlan_cases (plan : MarkPlan) :
    (plan.rules = [] ∨ draft.classes.use? file glyphs plan.anchor = none) ∧
        addPlan file glyphs draft plan = draft ∨
      ∃ className classes, plan.rules ≠ [] ∧
        draft.classes.use? file glyphs plan.anchor = some (className, classes) ∧
        addPlan file glyphs draft plan = addPlanned plan className classes draft := by
  unfold addPlan
  split
  · next none => exact .inl ⟨.inl (List.isEmpty_iff.mp none), rfl⟩
  · next some =>
      split
      · next unused => exact .inl ⟨.inr unused, rfl⟩
      · next className classes used =>
          exact .inr ⟨className, classes, fun none => some (List.isEmpty_iff.mpr none), used, rfl⟩

/-- Whether the lookups of a draft, after some earlier ones, have new names and use
the classes of the draft, or a class of their own under a new name. -/
structure Sound (file : FeatureFile) (glyphs : List AnchoredGlyph) (earlier : List Statement)
    (draft : MarkDraft) : Prop where
  classes : draft.classes.Sound file glyphs (definedGlyphClasses (earlier ++ draft.lookups))
  new : NewNames file.lookupNames draft.lookupNames (definedLookups (earlier ++ draft.lookups))
  made : AllMadeBy .mark (earlier ++ draft.lookups)
  marks : definedMarkClasses (earlier ++ draft.lookups) = []
  lookupUses : ∀ statement ∈ visit (earlier ++ draft.lookups), statement.lookupUses = []
  classUses : ∀ statement ∈ visit (earlier ++ draft.lookups), ∀ name ∈ statement.classUses,
    name ∈ draft.classes.names ∨ name ∈ definedGlyphClasses (earlier ++ draft.lookups)

section Lookup

variable (name className filterName : String) (plan : MarkPlan)

theorem visit_lookup : visit [.block .lookup name (plan.body className filterName)] =
    .block .lookup name (plan.body className filterName) :: plan.body className filterName := by
  rw [visit_cons, List.append_nil, children, visit_of_flat MarkPlan.body_flat]

theorem defined_lookup :
    definedLookups [.block .lookup name (plan.body className filterName)] = [name] ∧
      definedGlyphClasses [.block .lookup name (plan.body className filterName)] =
        (if plan.seen.isSome then [filterName] else []) ∧
      definedMarkClasses [.block .lookup name (plan.body className filterName)] = [] := by
  have isName : lookupName? (.block .lookup name (plan.body className filterName)) = some name :=
    rfl
  have noClass : glyphClassName? (.block .lookup name (plan.body className filterName)) = none :=
    rfl
  have noMark : markClassName? (.block .lookup name (plan.body className filterName)) = none :=
    rfl
  unfold definedLookups definedGlyphClasses definedMarkClasses
  rw [visit_lookup, List.filterMap_cons_some isName, List.filterMap_cons_none noClass,
    List.filterMap_cons_none noMark, MarkPlan.glyphClasses_body]
  refine ⟨congrArg (name :: ·) (List.filterMap_eq_nil_iff.mpr fun statement listed => ?_), rfl,
    List.filterMap_eq_nil_iff.mpr fun statement listed => ?_⟩
  · rcases MarkPlan.of_mem_body listed with ⟨-, ⟨glyphs, rfl⟩ | rfl⟩ | ⟨rule, -, rfl⟩ <;> rfl
  · rcases MarkPlan.of_mem_body listed with ⟨-, ⟨glyphs, rfl⟩ | rfl⟩ | ⟨rule, -, rfl⟩ <;> rfl

variable {name className filterName} {plan}

theorem allMadeBy_lookup (named : lookupMaker? name = some .mark)
    (filterNamed : classMaker? filterName = some .mark) :
    AllMadeBy .mark [.block .lookup name (plan.body className filterName)] := by
  intro statement listed
  rw [visit_lookup] at listed
  rcases List.mem_cons.mp listed with rfl | inside
  · exact .lookup _ named
  · rcases MarkPlan.of_mem_body inside with ⟨-, ⟨glyphs, rfl⟩ | rfl⟩ | ⟨rule, -, rfl⟩
    · exact .glyphClass filterNamed
    · exact .lookupFlag _
    · exact .position _

/-- The lookup refers to its class of marks, and to its own class if it has one. -/
theorem uses_lookup {statement : Statement}
    (listed : statement ∈ visit [.block .lookup name (plan.body className filterName)]) :
    statement.lookupUses = [] ∧ ∀ other ∈ statement.classUses,
      other = className ∨ plan.seen.isSome = true ∧ other = filterName := by
  rw [visit_lookup] at listed
  rcases List.mem_cons.mp listed with rfl | inside
  · exact ⟨rfl, fun other refers => nomatch refers⟩
  · rcases MarkPlan.of_mem_body inside with ⟨sees, ⟨glyphs, rfl⟩ | rfl⟩ | ⟨rule, member, rfl⟩
    · exact ⟨rfl, fun other refers => nomatch refers⟩
    · exact ⟨rfl, fun other refers => .inr ⟨sees, List.mem_singleton.mp refers⟩⟩
    · exact ⟨rfl, fun other refers => .inl (plan.uses rule member className other refers)⟩

end Lookup

/-- A further lookup with a new name that uses a class of the draft, or a class of
its own under a new name. -/
theorem Sound.addLookup (sound : Sound file glyphs earlier draft) {plan : MarkPlan}
    {className name filterName : String} {classes : MarkClasses}
    (classesSound : classes.Sound file glyphs (definedGlyphClasses (earlier ++ draft.lookups)))
    (inUse : className ∈ classes.names) (stillUsed : ∀ other ∈ draft.classes.names,
      other ∈ classes.names) (named : lookupMaker? name = some .mark)
    (free : name ∉ draft.lookupNames) (filterNamed : classMaker? filterName = some .mark)
    (filterFree : filterName ∉ classes.taken) :
    Sound file glyphs earlier
      { classes := if plan.seen.isSome then
          { classes with taken := classes.taken.insert filterName } else classes
        lookupNames := draft.lookupNames.insert name
        lookups := draft.lookups ++ [.block .lookup name (plan.body className filterName)] } := by
  obtain ⟨lookups, glyphClasses, markClasses⟩ := defined_lookup name className filterName plan
  have names : MarkClasses.names (if plan.seen.isSome then
      { classes with taken := classes.taken.insert filterName } else classes) = classes.names := by
    split <;> rfl
  constructor <;> dsimp only <;> rw [← List.append_assoc]
  · rw [definedGlyphClasses_append, glyphClasses]
    split
    · exact classesSound.take filterFree
    · rw [List.append_nil]
      exact classesSound
  · rw [definedLookups_append, lookups]
    exact sound.new.trans (.single free)
  · exact sound.made.append (allMadeBy_lookup named filterNamed)
  · rw [definedMarkClasses_append, markClasses, sound.marks, List.append_nil]
  · intro statement listed
    rw [visit_append] at listed
    exact (List.mem_append.mp listed).elim (sound.lookupUses statement) fun new =>
      (uses_lookup new).1
  · intro statement listed other refers
    rw [names, definedGlyphClasses_append, glyphClasses, List.mem_append]
    rw [visit_append] at listed
    rcases List.mem_append.mp listed with old | new
    · exact (sound.classUses statement old other refers).imp (stillUsed other) .inl
    · rcases (uses_lookup new).2 other refers with rfl | ⟨sees, rfl⟩
      · exact .inl inUse
      · rw [sees]
        exact .inr (.inr (List.mem_singleton_self _))

/-- A draft that is sound is so after every further plan. -/
theorem Sound.addPlan (sound : Sound file glyphs earlier draft) (plan : MarkPlan) :
    Sound file glyphs earlier (addPlan file glyphs draft plan) := by
  rcases addPlan_cases plan with ⟨-, same⟩ | ⟨className, classes, -, used, same⟩
  · rw [same]
    exact sound
  · rw [same, addPlanned_eq]
    obtain ⟨classesSound, inUse, stillUsed⟩ := sound.classes.use? used
    have named := lookupMaker?_freshName plan.named draft.lookupNames
    have filterNamed := classMaker?_freshClassName
      (classMaker?_append (classMaker?_of_lookupMaker?_mark named) "MkAttach") classes.taken
    exact sound.addLookup classesSound inUse stillUsed named (freshName_not_mem _ _) filterNamed
      (freshClassName_not_mem _ _)

theorem Sound.foldl (sound : Sound file glyphs earlier draft) (plans : List MarkPlan) :
    Sound file glyphs earlier (plans.foldl (MarkDraft.addPlan file glyphs) draft) := by
  induction plans generalizing draft with
  | nil => exact sound
  | cons plan rest ih => exact ih (sound.addPlan plan)

/-- Whether the plans add a lookup depends on their rules and marks only. -/
theorem Sound.lookups_foldl_ne_nil_iff (sound : Sound file glyphs earlier draft)
    (plans : List MarkPlan) :
    (plans.foldl (MarkDraft.addPlan file glyphs) draft).lookups ≠ [] ↔
      draft.lookups ≠ [] ∨ ∃ plan ∈ plans, plan.Applies glyphs := by
  induction plans generalizing draft with
  | nil => simp
  | cons plan rest ih =>
      have step : (MarkDraft.addPlan file glyphs draft plan).lookups ≠ [] ↔
          draft.lookups ≠ [] ∨ plan.Applies glyphs := by
        unfold MarkPlan.Applies
        rcases addPlan_cases plan with ⟨idle, same⟩ | ⟨className, classes, rules, used, same⟩
        · rw [same, sound.classes.use?_eq_none_iff] at *
          tauto
        · have marks : marksWithAnchor glyphs plan.anchor ≠ [] := by
            rw [ne_eq, ← sound.classes.use?_eq_none_iff, used]
            exact fun none => nomatch none
          rw [same, addPlanned_eq]
          simp [rules, marks]
      rw [List.foldl_cons, ih (sound.addPlan plan), step, List.exists_mem_cons_iff, or_assoc]

end MarkDraft

end FontCompiler
