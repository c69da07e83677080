import Mathlib.Data.List.Forall2
import FontCompiler.Kerning.Lookup
import FontCompiler.Proofs.Kerning.ClassNames

/-!
# Drafting the kerning lookups

Each half of a script's pairs that does not mix directions throughout becomes
one lookup, with one rule for each pair that is left. Adding a lookup keeps what
is known of the earlier ones, so the draft of all scripts is described half by
half.
-/

namespace FontCompiler

/-- In lists that match, each member stands beside one of the other list. -/
theorem exists_mem_zip_of_forall₂ {β γ : Type} {relation : β → γ → Prop} {firsts : List β}
    {seconds : List γ} (matched : List.Forall₂ relation firsts seconds) :
    (∀ first ∈ firsts, ∃ second, (first, second) ∈ firsts.zip seconds) ∧
      ∀ second ∈ seconds, ∃ first, (first, second) ∈ firsts.zip seconds := by
  constructor
  · intro first listed
    rw [← List.map_fst_zip (Nat.le_of_eq matched.length_eq)] at listed
    obtain ⟨⟨_, second⟩, found, rfl⟩ := List.mem_map.mp listed
    exact ⟨second, found⟩
  · intro second listed
    rw [← List.map_snd_zip (Nat.le_of_eq matched.length_eq.symm)] at listed
    obtain ⟨⟨first, _⟩, found, rfl⟩ := List.mem_map.mp listed
    exact ⟨first, found⟩

/-- The pairs of a script without marks, or those with marks. -/
abbrev KernHalf := Script × Bool

def KernHalf.freshName : KernHalf → SortedSet String → String
  | (script, false), taken => FontCompiler.freshName ("kern_" ++ script.tag.text) taken
  | (script, true), taken => FontCompiler.freshName ("kern_" ++ script.tag.text ++ "_marks") taken

theorem KernHalf.freshName_not_mem (half : KernHalf) (taken : SortedSet String) :
    half.freshName taken ∉ taken := by
  obtain ⟨script, marked⟩ := half
  cases marked with
  | false => exact FontCompiler.freshName_not_mem _ taken
  | true => exact FontCompiler.freshName_not_mem _ taken

namespace KernSetting

variable {α : Type}

def bucket (setting : KernSetting α) : KernHalf → List (KerningPair α)
  | (script, false) => setting.basePairs.findD script []
  | (script, true) => setting.markPairs.findD script []

/-- The pairs of a half that do not mix directions. -/
def keptPairs (setting : KernSetting α) (half : KernHalf) : List (KerningPair α) :=
  (setting.bucket half).filter fun pair => !pair.mixesDirections setting.directions

theorem keptPairs_of_bucket_nil {setting : KernSetting α} {half : KernHalf}
    (empty : setting.bucket half = []) : setting.keptPairs half = [] := by
  rw [keptPairs, empty, List.filter_nil]

/-- The halves of a script that become lookups. -/
def halvesOf (setting : KernSetting α) (script : Script) : List KernHalf :=
  [(script, false), (script, true)].filter fun half => !(setting.keptPairs half).isEmpty

def halves (setting : KernSetting α) : List KernHalf :=
  setting.scripts.toList.flatMap setting.halvesOf

theorem script_of_mem_halvesOf {setting : KernSetting α} {script : Script} {half : KernHalf}
    (listed : half ∈ setting.halvesOf script) : half.1 = script := by
  rcases List.mem_cons.mp (List.mem_filter.mp listed).1 with rfl | later
  · rfl
  · rw [List.mem_singleton.mp later]

/-- A half becomes a lookup exactly when some of its pairs is left. -/
theorem mem_halves {setting : KernSetting α} {half : KernHalf} :
    half ∈ setting.halves ↔ setting.keptPairs half ≠ [] := by
  have left : half ∈ setting.halvesOf half.1 ↔ setting.keptPairs half ≠ [] := by
    obtain ⟨script, marked⟩ := half
    unfold halvesOf
    rw [List.mem_filter, Bool.not_eq_true', List.isEmpty_eq_false_iff]
    cases marked <;> simp
  unfold halves
  rw [List.mem_flatMap]
  constructor
  · rintro ⟨script, -, listed⟩
    rw [← script_of_mem_halvesOf listed] at listed
    exact left.mp listed
  · intro kept
    refine ⟨half.1, ?_, left.mpr kept⟩
    have found : setting.bucket half ≠ [] := fun empty => kept (keptPairs_of_bucket_nil empty)
    unfold scripts
    rw [← SortedSet.mem_def, SortedSet.mem_union]
    obtain ⟨script, marked⟩ := half
    cases marked with
    | false => exact .inl (SortedMap.mem_keys_of_findD_ne found)
    | true => exact .inr (SortedMap.mem_keys_of_findD_ne found)

theorem nodup_halves (setting : KernSetting α) : setting.halves.Nodup := by
  unfold halves
  refine List.nodup_flatMap.mpr ⟨fun script _ => ?_, ?_⟩
  · exact List.Nodup.filter _ (by simp)
  · refine setting.scripts.nodup.imp fun apart half listed again => apart ?_
    exact (script_of_mem_halvesOf listed).symm.trans (script_of_mem_halvesOf again)

variable [Coordinate α]

/-- What a rule must be to stand for a pair in a script. -/
def RuleFor (setting : KernSetting α) (names : KernClassNames) (script : Script) (rule : Statement)
    (pair : KerningPair α) : Prop :=
  ∃ first second enumerated,
    rule = .position (.pair first second (setting.valueRecord script pair) enumerated) ∧
      names.StandsFor .first script pair.first first ∧
      names.StandsFor .second script pair.second second

theorem RuleFor.grows {setting : KernSetting α} {earlier later : KernClassNames} {script : Script}
    {rule : Statement} {pair : KerningPair α} (stands : setting.RuleFor earlier script rule pair)
    (grows : earlier.Grows later) : setting.RuleFor later script rule pair := by
  obtain ⟨first, second, enumerated, same, firstStands, secondStands⟩ := stands
  exact ⟨first, second, enumerated, same, firstStands.grows grows, secondStands.grows grows⟩

theorem rules_ruleFor (setting : KernSetting α) (script : Script) (names : KernClassNames)
    (pairs : List (KerningPair α)) :
    names.Grows (setting.rules script names pairs).2 ∧
      List.Forall₂ (setting.RuleFor (setting.rules script names pairs).2 script)
        (setting.rules script names pairs).1 pairs := by
  induction pairs generalizing names with
  | nil => exact ⟨.refl names, .nil⟩
  | cons pair rest ih =>
      obtain ⟨firstGrows, firstStands⟩ :=
        KernClassNames.select_standsFor .first script names pair.first
      obtain ⟨secondGrows, secondStands⟩ := KernClassNames.select_standsFor .second script
        (names.select .first script pair.first).2 pair.second
      obtain ⟨restGrows, restStands⟩ :=
        ih ((names.select .first script pair.first).2.select .second script pair.second).2
      refine ⟨firstGrows.trans (secondGrows.trans restGrows), .cons ?_ restStands⟩
      exact ⟨_, _, _, rfl, firstStands.grows (secondGrows.trans restGrows),
        secondStands.grows restGrows⟩

/-- A statement that a lookup may have before its rules: its flag, or a class
whose name no kerning class has. -/
def Opens (names : KernClassNames) (statement : Statement) : Prop :=
  (∃ flag, statement = .lookupFlag flag) ∨
    ∃ definition, statement = .glyphClass definition ∧ definition.name ∈ names.taken ∧
      ∀ row ∈ names.named, row.2 ≠ definition.name

omit [Coordinate α] in
theorem Opens.grows {earlier later : KernClassNames} {statement : Statement}
    (opens : Opens earlier statement) (grows : earlier.Grows later) : Opens later statement := by
  rcases opens with flag | ⟨definition, same, held, other⟩
  · exact .inl flag
  · exact .inr ⟨definition, same, grows.taken _ held, grows.ne_of_taken held other⟩

omit [Coordinate α] in
theorem opening_opens (setting : KernSetting α) (name : String) {taken : SortedSet String}
    {names : KernClassNames} (grown : KernClassNames.Grows { taken } names) :
    names.Grows (setting.opening name names).2 ∧
      ∀ statement ∈ (setting.opening name names).1,
        Opens (setting.opening name names).2 statement := by
  unfold opening
  split
  · exact ⟨.refl names, fun _ listed => nomatch listed⟩
  · split
    · refine ⟨.refl names, fun statement listed => .inl ?_⟩
      exact ⟨_, List.mem_singleton.mp listed⟩
    · refine ⟨names.take_grows _, fun statement listed => ?_⟩
      rcases List.mem_cons.mp listed with rfl | later
      · refine .inr ⟨_, rfl, SortedSet.mem_insert.mpr (.inl rfl), fun row named same => ?_⟩
        have held := (grown.of_unnamed.2 row named).1
        rw [same] at held
        exact freshClassName_not_mem _ _ held
      · exact .inl ⟨_, List.mem_singleton.mp later⟩

/-- What a lookup must be to stand for a half. -/
structure LookupFor (setting : KernSetting α) (names : KernClassNames) (half : KernHalf)
    (lookup : KernLookup) : Prop where
  script_eq : lookup.script = half.1
  name_eq : ∃ taken, lookup.name = half.freshName taken
  body_eq : ∃ opening rules, lookup.body = opening ++ rules ∧
    (∀ statement ∈ opening, Opens names statement) ∧
    List.Forall₂ (setting.RuleFor names half.1) rules (setting.keptPairs half)

theorem LookupFor.grows {setting : KernSetting α} {earlier later : KernClassNames}
    {half : KernHalf} {lookup : KernLookup} (stands : setting.LookupFor earlier half lookup)
    (grows : earlier.Grows later) : setting.LookupFor later half lookup := by
  obtain ⟨opening, rules, same, opens, rulesStand⟩ := stands.body_eq
  exact ⟨stands.script_eq, stands.name_eq, opening, rules, same,
    fun statement listed => (opens statement listed).grows grows,
    rulesStand.imp fun _ _ ruleStands => ruleStands.grows grows⟩

/-- What a draft must be to hold one lookup for each of several halves, under
distinct names that the feature file has for nothing else. -/
structure DraftFor (setting : KernSetting α) (file : FeatureFile) (halves : List KernHalf)
    (draft : KernDraft α) : Prop where
  names : KernClassNames.Grows { taken := file.classNames } draft.classNames
  lookups : List.Forall₂ (setting.LookupFor draft.classNames) halves draft.lookups
  kept : ∀ name ∈ file.lookupNames, name ∈ draft.lookupNames
  fresh : ∀ lookup ∈ draft.lookups,
    lookup.name ∈ draft.lookupNames ∧ lookup.name ∉ file.lookupNames
  distinct : (draft.lookups.map KernLookup.name).Nodup

variable {setting : KernSetting α} {file : FeatureFile} {halves : List KernHalf}
  {draft : KernDraft α}

theorem DraftFor.grows (stands : setting.DraftFor file halves draft) {names : KernClassNames}
    (grows : draft.classNames.Grows names) :
    setting.DraftFor file halves { draft with classNames := names } :=
  { stands with
    names := stands.names.trans grows
    lookups := stands.lookups.imp fun _ _ lookupStands => lookupStands.grows grows }

omit [Coordinate α] in
/-- The half itself if it becomes a lookup. -/
theorem filter_kept_eq (half : KernHalf) :
    ([half].filter fun half => !(setting.keptPairs half).isEmpty) =
      if setting.keptPairs half = [] then [] else [half] := by
  rw [List.filter_singleton]
  cases setting.keptPairs half <;> rfl

/-- Adding the pairs of a half adds its lookup if some pair is left. -/
theorem addLookup_draftFor (stands : setting.DraftFor file halves draft) (half : KernHalf)
    {opening : List Statement}
    (opens : ∀ statement ∈ opening, Opens draft.classNames statement) :
    setting.DraftFor file (halves ++ if setting.keptPairs half = [] then [] else [half])
      (setting.addLookup half.1 (half.freshName draft.lookupNames) opening (setting.bucket half)
        draft) := by
  obtain ⟨grows, rulesStand⟩ :=
    rules_ruleFor setting half.1 draft.classNames (setting.keptPairs half)
  have grown := stands.grows grows
  have noRule : (setting.rules half.1 draft.classNames (setting.keptPairs half)).1.isEmpty = true ↔
      setting.keptPairs half = [] := by
    rw [List.isEmpty_iff_length_eq_zero, rulesStand.length_eq, List.length_eq_zero_iff]
  unfold addLookup
  dsimp only
  rw [← keptPairs]
  by_cases empty : setting.keptPairs half = []
  · rw [if_pos empty, if_pos (noRule.mpr empty), List.append_nil]
    exact ⟨grown.names, grown.lookups, grown.kept, grown.fresh, grown.distinct⟩
  · rw [if_neg empty, if_neg fun none => empty (noRule.mp none)]
    have free : half.freshName draft.lookupNames ∉ draft.lookupNames := half.freshName_not_mem _
    refine ⟨grown.names, ?_, fun name held => ?_, fun lookup listed => ?_, ?_⟩
    · refine List.rel_append grown.lookups (.cons ⟨rfl, ⟨_, rfl⟩, opening, _, rfl, ?_, ?_⟩ .nil)
      · exact fun statement listed => (opens statement listed).grows grows
      · exact rulesStand
    · exact SortedSet.mem_insert.mpr (.inr (stands.kept name held))
    · rcases List.mem_append.mp listed with old | new
      · obtain ⟨held, other⟩ := stands.fresh lookup old
        exact ⟨SortedSet.mem_insert.mpr (.inr held), other⟩
      · cases List.mem_singleton.mp new
        exact ⟨SortedSet.mem_insert.mpr (.inl rfl), fun held => free (stands.kept _ held)⟩
    · rw [List.map_append]
      refine List.nodup_append'.mpr ⟨stands.distinct, List.nodup_singleton _, ?_⟩
      intro name old new
      -- Earlier lookups have their names among those in use, and the new name is fresh.
      obtain ⟨lookup, listed, rfl⟩ := List.mem_map.mp old
      have same : lookup.name = half.freshName draft.lookupNames := List.mem_singleton.mp new
      have held := (stands.fresh lookup listed).1
      rw [same] at held
      exact free held

def addBases (setting : KernSetting α) (draft : KernDraft α) (script : Script) : KernDraft α :=
  match setting.basePairs.find? script with
  | some pairs =>
      let name := freshName ("kern_" ++ script.tag.text) draft.lookupNames
      let (opening, names) := setting.opening name draft.classNames
      setting.addLookup script name opening pairs { draft with classNames := names }
  | none => draft

def addMarks (setting : KernSetting α) (draft : KernDraft α) (script : Script) : KernDraft α :=
  match setting.markPairs.find? script with
  | some pairs =>
      let name := freshName ("kern_" ++ script.tag.text ++ "_marks") draft.lookupNames
      setting.addLookup script name [] pairs draft
  | none => draft

theorem addScript_eq_addMarks (draft : KernDraft α) (script : Script) :
    setting.addScript draft script = setting.addMarks (setting.addBases draft script) script :=
  rfl

theorem addBases_draftFor (stands : setting.DraftFor file halves draft) (script : Script) :
    setting.DraftFor file
      (halves ++ if setting.keptPairs (script, false) = [] then [] else [(script, false)])
      (setting.addBases draft script) := by
  unfold addBases
  cases found : setting.basePairs.find? script with
  | none =>
      have empty : setting.bucket (script, false) = [] := SortedMap.findD_of_find?_eq_none found
      rw [if_pos (keptPairs_of_bucket_nil empty), List.append_nil]
      exact stands
  | some pairs =>
      have same : setting.bucket (script, false) = pairs := SortedMap.findD_of_find?_eq_some found
      obtain ⟨grows, opens⟩ := setting.opening_opens
        (freshName ("kern_" ++ script.tag.text) draft.lookupNames) stands.names
      subst same
      exact addLookup_draftFor (stands.grows grows) (script, false) opens

theorem addMarks_draftFor (stands : setting.DraftFor file halves draft) (script : Script) :
    setting.DraftFor file
      (halves ++ if setting.keptPairs (script, true) = [] then [] else [(script, true)])
      (setting.addMarks draft script) := by
  unfold addMarks
  cases found : setting.markPairs.find? script with
  | none =>
      have empty : setting.bucket (script, true) = [] := SortedMap.findD_of_find?_eq_none found
      rw [if_pos (keptPairs_of_bucket_nil empty), List.append_nil]
      exact stands
  | some pairs =>
      have same : setting.bucket (script, true) = pairs := SortedMap.findD_of_find?_eq_some found
      subst same
      exact addLookup_draftFor stands (script, true) fun _ listed => nomatch listed

theorem addScript_draftFor (stands : setting.DraftFor file halves draft) (script : Script) :
    setting.DraftFor file (halves ++ setting.halvesOf script) (setting.addScript draft script) := by
  have split : setting.halvesOf script =
      (if setting.keptPairs (script, false) = [] then [] else [(script, false)]) ++
        if setting.keptPairs (script, true) = [] then [] else [(script, true)] := by
    rw [← filter_kept_eq, ← filter_kept_eq]
    exact List.filter_append [(script, false)] [(script, true)]
  rw [addScript_eq_addMarks, split, ← List.append_assoc]
  exact addMarks_draftFor (addBases_draftFor stands script) script

theorem foldl_addScript_draftFor (stands : setting.DraftFor file halves draft)
    (scripts : List Script) :
    setting.DraftFor file (halves ++ scripts.flatMap setting.halvesOf)
      (scripts.foldl setting.addScript draft) := by
  induction scripts generalizing halves draft with
  | nil => rwa [List.flatMap_nil, List.append_nil]
  | cons script rest ih =>
      rw [List.flatMap_cons, ← List.append_assoc, List.foldl_cons]
      exact ih (addScript_draftFor stands script)

/-- The draft of all scripts holds one lookup for each half with a pair left. -/
theorem draft_draftFor (setting : KernSetting α) (file : FeatureFile) :
    setting.DraftFor file setting.halves (setting.draft file) := by
  have start : setting.DraftFor file []
      { lookupNames := file.lookupNames, classNames := { taken := file.classNames } } :=
    { names := .refl _
      lookups := .nil
      kept := fun _ held => held
      fresh := fun _ listed => nomatch listed
      distinct := List.nodup_nil }
  exact foldl_addScript_draftFor start setting.scripts.toList

/-- The lookups of the draft, each beside its half. -/
def rows (setting : KernSetting α) (file : FeatureFile) : List (KernHalf × KernLookup) :=
  setting.halves.zip (setting.draft file).lookups

variable {half : KernHalf} {lookup : KernLookup}

theorem of_mem_rows (matched : (half, lookup) ∈ setting.rows file) :
    half ∈ setting.halves ∧ lookup ∈ (setting.draft file).lookups ∧
      setting.LookupFor (setting.draft file).classNames half lookup :=
  ⟨(List.of_mem_zip matched).1, (List.of_mem_zip matched).2,
    List.forall₂_zip (setting.draft_draftFor file).lookups matched⟩

theorem exists_row_of_mem_halves (listed : half ∈ setting.halves) :
    ∃ lookup, (half, lookup) ∈ setting.rows file :=
  (exists_mem_zip_of_forall₂ (setting.draft_draftFor file).lookups).1 half listed

theorem exists_row_of_mem_lookups (listed : lookup ∈ (setting.draft file).lookups) :
    ∃ half, (half, lookup) ∈ setting.rows file :=
  (exists_mem_zip_of_forall₂ (setting.draft_draftFor file).lookups).2 lookup listed

/-- No two lookups share a half. -/
theorem lookup_eq_of_half_eq {other : KernLookup} (matched : (half, lookup) ∈ setting.rows file)
    (otherMatched : (half, other) ∈ setting.rows file) : lookup = other := by
  have lengths := (setting.draft_draftFor file).lookups.length_eq
  have distinct : ((setting.rows file).map Prod.fst).Nodup := by
    rw [rows, List.map_fst_zip (Nat.le_of_eq lengths)]
    exact setting.nodup_halves
  exact congrArg Prod.snd (List.inj_on_of_nodup_map distinct matched otherMatched rfl)

/-- No two lookups share a name. -/
theorem lookup_eq_of_name_eq {other : KernLookup} (listed : lookup ∈ (setting.draft file).lookups)
    (otherListed : other ∈ (setting.draft file).lookups) (same : lookup.name = other.name) :
    lookup = other :=
  List.inj_on_of_nodup_map (setting.draft_draftFor file).distinct listed otherListed same

end KernSetting

end FontCompiler
