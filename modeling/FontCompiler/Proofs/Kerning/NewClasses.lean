import FontCompiler.Proofs.Feature.Coherence
import FontCompiler.Proofs.Kerning.Drafting
import FontCompiler.Proofs.Layout.Maker

/-!
# The classes that kerning defines

A draft of kerning defines a class for each group in its rules, and a class of
marks at the beginning of some lookups. All of them get new names of the kind
that kerning takes.
-/

namespace FontCompiler

namespace KernClassNames

theorem Grows.newNames {earlier later : KernClassNames} (grows : Grows earlier later) :
    ∃ added, later.named = earlier.named ++ added ∧
      NewNames earlier.taken later.taken (added.map Prod.snd) := by
  obtain ⟨added, named, distinct, fresh⟩ := grows.named
  refine ⟨added, named, grows.taken, fun name listed => ?_, fun name listed => ?_, distinct⟩
  · obtain ⟨row, member, rfl⟩ := List.mem_map.mp listed
    exact (fresh row member).1
  · obtain ⟨row, member, rfl⟩ := List.mem_map.mp listed
    exact (fresh row member).2

/-- Whether all classes have names of the kind that kerning takes. -/
def AllMade (names : KernClassNames) : Prop :=
  ∀ row ∈ names.named, classMaker? row.2 = some .kern

theorem AllMade.select {names : KernClassNames} (made : names.AllMade) (position : KernPosition)
    (script : Script) (side : KernSide) : (names.select position script side).2.AllMade := by
  cases side with
  | glyph name => exact made
  | group group members =>
      unfold KernClassNames.select
      dsimp only
      split
      · exact made
      · intro row listed
        rcases List.mem_append.mp listed with old | new
        · exact made row old
        · cases List.mem_singleton.mp new
          have begins : classMaker? "kern" = some .kern := rfl
          exact classMaker?_freshClassName (classMaker?_append (classMaker?_append
            (classMaker?_append (classMaker?_append (classMaker?_append begins _) _) _) _) _) _

end KernClassNames

namespace KernSetting

variable {α : Type} [Coordinate α] {setting : KernSetting α} {file : FeatureFile}

theorem allMade_rules {names : KernClassNames} (made : names.AllMade) (script : Script)
    (pairs : List (KerningPair α)) : (setting.rules script names pairs).2.AllMade := by
  induction pairs generalizing names with
  | nil => exact made
  | cons pair rest ih =>
      exact ih ((made.select .first script pair.first).select .second script pair.second)

/-- The rules of pairs are pair rules and nothing else. -/
theorem of_mem_rules {script : Script} {names : KernClassNames} {pairs : List (KerningPair α)}
    {statement : Statement} (listed : statement ∈ (setting.rules script names pairs).1) :
    ∃ rule, statement = .position rule := by
  obtain ⟨pair, matched⟩ :=
    (exists_mem_zip_of_forall₂ (setting.rules_ruleFor script names pairs).2).1 statement listed
  obtain ⟨first, second, enumerated, same, -⟩ :=
    List.forall₂_zip (setting.rules_ruleFor script names pairs).2 matched
  exact ⟨_, same⟩

/-- The names of the glyph classes in some statements that hold no others. -/
def classesIn (statements : List Statement) : List String :=
  statements.filterMap Statement.glyphClassName?

theorem classesIn_rules (script : Script) (names : KernClassNames) (pairs : List (KerningPair α)) :
    classesIn (setting.rules script names pairs).1 = [] := by
  refine List.filterMap_eq_nil_iff.mpr fun statement listed => ?_
  obtain ⟨rule, rfl⟩ := of_mem_rules listed
  rfl

/-- Whether the classes by which flags filter marks are defined beside them. -/
def FiltersDefined (statements : List Statement) : Prop :=
  ∀ flag, .lookupFlag flag ∈ statements → ∀ name, flag.filterClass = some name →
    name ∈ classesIn statements

theorem FiltersDefined.append_rules {opening : List Statement} (defined : FiltersDefined opening)
    (script : Script) (names : KernClassNames) (pairs : List (KerningPair α)) :
    FiltersDefined (opening ++ (setting.rules script names pairs).1) := by
  intro flag listed name filtered
  unfold classesIn
  rw [List.filterMap_append]
  rcases List.mem_append.mp listed with opened | ruled
  · exact List.mem_append_left _ (defined flag opened name filtered)
  · obtain ⟨rule, wrong⟩ := of_mem_rules ruled
    cases wrong

omit [Coordinate α] in
/-- The beginning of a lookup defines at most one class, under a new name. -/
theorem opening_newNames (setting : KernSetting α) (name : String) (names : KernClassNames) :
    (setting.opening name names).2.named = names.named ∧
      NewNames names.taken (setting.opening name names).2.taken
        (classesIn (setting.opening name names).1) ∧
      (∀ defined ∈ classesIn (setting.opening name names).1, classMaker? defined = some .kern) ∧
      FiltersDefined (setting.opening name names).1 := by
  unfold opening
  split
  · exact ⟨rfl, .start _, fun _ listed => (nomatch listed), fun _ listed => nomatch listed⟩
  · split
    · refine ⟨rfl, .start _, fun _ listed => (nomatch listed), fun flag listed filter same => ?_⟩
      cases List.mem_singleton.mp listed
      cases same
    · refine ⟨rfl, .single (freshClassName_not_mem _ _), fun defined listed => ?_,
        fun flag listed filter same => ?_⟩
      · rw [List.mem_singleton.mp listed]
        have begins : classMaker? "MFS_" = some .kern := rfl
        exact classMaker?_freshClassName (classMaker?_append begins _) _
      · rcases List.mem_cons.mp listed with wrong | last
        · cases wrong
        · cases List.mem_singleton.mp last
          cases same
          exact List.mem_singleton_self _

def definedClasses (names : KernClassNames) (lookups : List KernLookup) : List String :=
  names.named.map Prod.snd ++ lookups.flatMap fun lookup => classesIn lookup.body

/-- Whether the classes of a draft have new names, also beside some further
classes that are to come. -/
structure ClassesNew (file : FeatureFile) (further : List String) (draft : KernDraft α) : Prop where
  new : NewNames file.classNames draft.classNames.taken
    (definedClasses draft.classNames draft.lookups ++ further)
  made : ∀ name ∈ definedClasses draft.classNames draft.lookups ++ further,
    classMaker? name = some .kern
  filters : ∀ lookup ∈ draft.lookups, FiltersDefined lookup.body

variable {draft : KernDraft α}

omit [Coordinate α] in
theorem ClassesNew.allMade {further : List String} (classes : ClassesNew file further draft) :
    draft.classNames.AllMade := by
  intro row listed
  refine classes.made row.2 (List.mem_append_left _ (List.mem_append_left _ ?_))
  exact List.mem_map_of_mem listed

omit [Coordinate α] in
/-- The class of a beginning is to come until its lookup is added. -/
theorem ClassesNew.opening (classes : ClassesNew file [] draft) (name : String) :
    ClassesNew file (classesIn (setting.opening name draft.classNames).1)
      { draft with classNames := (setting.opening name draft.classNames).2 } := by
  obtain ⟨named, new, made, -⟩ := setting.opening_newNames name draft.classNames
  have same : definedClasses (setting.opening name draft.classNames).2 draft.lookups =
      definedClasses draft.classNames draft.lookups := by
    unfold definedClasses
    rw [named]
  have old := List.append_nil (definedClasses draft.classNames draft.lookups)
  refine ⟨?_, fun defined listed => ?_, classes.filters⟩
  · dsimp only
    rw [same]
    exact (old ▸ classes.new).trans new
  · dsimp only at listed
    rw [same] at listed
    exact (List.mem_append.mp listed).elim
      (fun before => classes.made defined (List.mem_append_left _ before)) (made defined)

theorem classesIn_append_rules (opening : List Statement) (script : Script)
    (names : KernClassNames) (pairs : List (KerningPair α)) :
    classesIn (opening ++ (setting.rules script names pairs).1) = classesIn opening := by
  have rules := @classesIn_rules α _ setting script names pairs
  unfold classesIn at rules ⊢
  rw [List.filterMap_append, rules, List.append_nil]

/-- Further classes and lookups define what was added, in some order. -/
theorem definedClasses_subperm {names later : KernClassNames}
    {added : List (KernClassKey × String)} (named : later.named = names.named ++ added)
    (lookups : List KernLookup) {more : List KernLookup} {opened : List String}
    (fewer : (more.flatMap fun lookup => classesIn lookup.body).Subperm opened) :
    (definedClasses later (lookups ++ more) ++ []).Subperm
      (definedClasses names lookups ++ opened ++ added.map Prod.snd) := by
  unfold definedClasses
  rw [named, List.map_append, List.flatMap_append]
  refine List.subperm_ext_iff.mpr fun defined _ => ?_
  have bounded := List.Subperm.count_le fewer defined
  simp only [List.count_append, List.count_nil]
  omega

theorem ClassesNew.addLookup {opening : List Statement}
    (classes : ClassesNew file (classesIn opening) draft) (filters : FiltersDefined opening)
    (script : Script) (name : String) (pairs : List (KerningPair α)) :
    ClassesNew file [] (setting.addLookup script name opening pairs draft) := by
  unfold KernSetting.addLookup
  dsimp only
  generalize (pairs.filter fun pair => !pair.mixesDirections setting.directions) = kept
  obtain ⟨added, named, new⟩ :=
    (setting.rules_ruleFor script draft.classNames kept).1.newNames
  have made := setting.allMade_rules classes.allMade script kept
  -- All classes with the new ones, in the order in which their names were taken.
  have all := classes.new.trans new
  have allMade : ∀ defined ∈ definedClasses draft.classNames draft.lookups ++ classesIn opening ++
      added.map Prod.snd, classMaker? defined = some .kern := by
    intro defined listed
    rcases List.mem_append.mp listed with old | later
    · exact classes.made defined old
    · obtain ⟨row, member, rfl⟩ := List.mem_map.mp later
      exact made row (named ▸ List.mem_append_right _ member)
  split
  · have none : (([] : List KernLookup).flatMap fun lookup => classesIn lookup.body).Subperm
        (classesIn opening) := List.nil_subperm
    have fewer := definedClasses_subperm named draft.lookups none
    rw [List.append_nil draft.lookups] at fewer
    exact ⟨all.subperm fewer, fun defined listed => allMade defined (fewer.subset listed),
      classes.filters⟩
  · have opened : ([KernLookup.mk script name
          (opening ++ (setting.rules script draft.classNames kept).1)].flatMap
        fun lookup => classesIn lookup.body).Subperm (classesIn opening) := by
      rw [List.flatMap_singleton, classesIn_append_rules]
    have fewer := definedClasses_subperm named draft.lookups opened
    refine ⟨all.subperm fewer, fun defined listed => allMade defined (fewer.subset listed),
      fun lookup listed => ?_⟩
    rcases List.mem_append.mp listed with old | last
    · exact classes.filters lookup old
    · cases List.mem_singleton.mp last
      exact filters.append_rules script draft.classNames kept

theorem ClassesNew.addScript (classes : ClassesNew file [] draft) (script : Script) :
    ClassesNew file [] (setting.addScript draft script) := by
  have bases : ClassesNew file [] (setting.addBases draft script) := by
    unfold addBases
    split
    · exact (classes.opening _).addLookup (setting.opening_newNames _ _).2.2.2 _ _ _
    · exact classes
  rw [addScript_eq_addMarks]
  unfold addMarks
  split
  · have none : ClassesNew file (classesIn []) (setting.addBases draft script) := bases
    exact none.addLookup (fun _ listed => nomatch listed) _ _ _
  · exact bases

theorem ClassesNew.foldl (classes : ClassesNew file [] draft) (scripts : List Script) :
    ClassesNew file [] (scripts.foldl setting.addScript draft) := by
  induction scripts generalizing draft with
  | nil => exact classes
  | cons script rest ih => exact ih (classes.addScript script)

/-- The classes of a draft have new names of the kind that kerning takes. -/
theorem draft_classesNew (setting : KernSetting α) (file : FeatureFile) :
    ClassesNew file [] (setting.draft file) := by
  have start : ClassesNew file []
      { lookupNames := file.lookupNames
        classNames := { taken := file.classNames } : KernDraft α } :=
    ⟨.start _, fun _ listed => (nomatch listed), fun _ listed => nomatch listed⟩
  exact start.foldl setting.scripts.toList

end KernSetting

end FontCompiler
