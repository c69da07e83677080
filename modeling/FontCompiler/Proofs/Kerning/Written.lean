import FontCompiler.Kerning.Writer
import FontCompiler.Proofs.Feature.Meaning
import FontCompiler.Proofs.Feature.Walk
import FontCompiler.Proofs.Kerning.Drafting
import FontCompiler.Proofs.Kerning.Precedence

/-!
# The kerning that is written

What the kerning writer adds to a feature file are the classes, the lookups and
the features of its draft. In the new file the selectors of rules have the
glyphs of their sides, so that a lookup gives two glyphs the value of the first
pair of its half that is left and covers them.
-/

namespace FontCompiler

/-- A test that is passed is passed by a result. -/
theorem exists_ok_of_any {ε β : Type} {outcome : Except ε β} {test : β → Bool}
    (passed : outcome.toOption.any test = true) :
    ∃ result, outcome = .ok result ∧ test result = true := by
  cases outcome with
  | error error => cases passed
  | ok result => exact ⟨result, rfl, passed⟩

section Context

variable {α : Type} [Coordinate α]

def LayoutContext.kernGroups (context : LayoutContext α) : KerningGroups :=
  .ofTable context.view.contains context.view.groups

def LayoutContext.kernPairs (context : LayoutContext α) : List (KerningPair α) :=
  resolvedPairs context.kernGroups context.view.contains context.view.kerning

def KernWriter.kernSetting (writer : KernWriter) (context : LayoutContext α) (file : FeatureFile) :
    KernSetting α :=
  writer.setting context file context.kernPairs

theorem bucket_kernSetting (writer : KernWriter) (context : LayoutContext α) (file : FeatureFile)
    (half : KernHalf) : (writer.kernSetting context file).bucket half =
      halfBucket (context.scriptsByGlyph file) (writer.marks context file) half.2 context.kernPairs
        half.1 := by
  obtain ⟨script, marked⟩ := half
  cases marked with
  | false => rfl
  | true => rfl

end Context

namespace KernSetting

variable {α : Type} [Coordinate α]

/-! ## The statements that are added -/

/-- The classes and the lookups of a draft, and then its features. -/
def additions (setting : KernSetting α) (context : LayoutContext α) (file : FeatureFile)
    (features : List String) : List Statement :=
  let draft := setting.draft file
  draft.classNames.definitions ++ [.comment ""] ++ draft.lookups.map KernLookup.statement ++
    KernWriter.blocks context file features setting draft.lookups

/-- The writer leaves the file as it was or adds the statements of its draft. -/
theorem additions_of_write {writer : KernWriter} {context : LayoutContext α} {file : FeatureFile}
    {written : Written α} (wrote : writer.write context file = .ok written) :
    written.file = file ∨ ∃ features, written.file =
      file.append ((writer.kernSetting context file).additions context file features) := by
  unfold KernWriter.write at wrote
  dsimp only at wrote
  split at wrote
  · cases wrote
  · split at wrote
    · cases wrote
      exact .inl rfl
    · split at wrote
      · cases wrote
        exact .inl rfl
      · cases wrote
        unfold KernWriter.writePairs
        dsimp only
        split
        · exact .inl rfl
        · split
          · exact .inl rfl
          · refine .inr ⟨wantedFeatures writer.overlap file KernWriter.features, ?_⟩
            unfold Written.appending
            rw [if_neg (by simp)]
            rfl

variable {setting : KernSetting α} {context : LayoutContext α} {file : FeatureFile}
  {features : List String}

theorem mem_additions {statement : Statement} :
    statement ∈ setting.additions context file features ↔
      statement ∈ (setting.draft file).classNames.definitions ∨ statement = .comment "" ∨
        (∃ lookup ∈ (setting.draft file).lookups, statement = lookup.statement) ∨
        statement ∈
          KernWriter.blocks context file features setting (setting.draft file).lookups := by
  unfold additions
  simp only [List.mem_append, List.mem_singleton, List.mem_map, or_assoc, eq_comm]

omit [Coordinate α] in
theorem of_mem_blocks {lookups : List KernLookup} {statement : Statement}
    (listed : statement ∈ KernWriter.blocks context file features setting lookups) :
    let scripts := knownScripts (context.scriptsByGlyph file) file.declaredLanguages setting.scripts
    ∃ name registration, statement =
        .block .feature name (Registration.statements file.declaredLanguages registration) ∧
      (name = "kern" ∧ registration = kernRegistration lookups scripts ∨
        name = "dist" ∧ registration = distanceRegistration lookups scripts) := by
  unfold KernWriter.blocks registrationBlock at listed
  rcases List.mem_append.mp listed with kern | distance
  · split at kern
    · exact ⟨_, _, List.mem_singleton.mp kern, .inl ⟨rfl, rfl⟩⟩
    · cases kern
  · split at distance
    · exact ⟨_, _, List.mem_singleton.mp distance, .inr ⟨rfl, rfl⟩⟩
    · cases distance

/-- The body of a feature for kerning only separates, opens and refers. -/
theorem of_mem_statements {languages : OrderedMap Tag (List Tag)} {registration : Registration}
    {statement : Statement} (listed : statement ∈ registration.statements languages) :
    statement = .comment "" ∨ (∃ tag, statement = .script tag) ∨
      (∃ tag, statement = .language tag) ∨ ∃ name, statement = .lookupReference name := by
  unfold Registration.statements Registration.tagStatements at listed
  obtain ⟨entry, -, found⟩ := List.mem_flatMap.mp listed
  simp only [List.mem_append, List.mem_cons, List.not_mem_nil, or_false, List.mem_map] at found
  rcases found with ((empty | script | language) | ⟨name, -, rfl⟩) | ⟨tag, -, rfl⟩
  · exact .inl empty
  · exact .inr (.inl ⟨_, script⟩)
  · exact .inr (.inr (.inl ⟨_, language⟩))
  · exact .inr (.inr (.inr ⟨_, rfl⟩))
  · exact .inr (.inr (.inl ⟨_, rfl⟩))

/-- A statement in the body of a lookup opens it or is a rule. -/
theorem of_mem_body {names : KernClassNames} {half : KernHalf} {lookup : KernLookup}
    (stands : setting.LookupFor names half lookup) {statement : Statement}
    (listed : statement ∈ lookup.body) :
    Opens names statement ∨ ∃ rule, statement = .position rule := by
  obtain ⟨opening, rules, same, opens, rulesStand⟩ := stands.body_eq
  rw [same] at listed
  rcases List.mem_append.mp listed with opened | ruled
  · exact .inl (opens statement opened)
  · obtain ⟨pair, found⟩ := (exists_mem_zip_of_forall₂ rulesStand).1 statement ruled
    obtain ⟨_, _, _, same, -⟩ := List.forall₂_zip rulesStand found
    exact .inr ⟨_, same⟩

theorem body_flat {names : KernClassNames} {half : KernHalf} {lookup : KernLookup}
    (stands : setting.LookupFor names half lookup) :
    ∀ statement ∈ lookup.body, statement.children = [] := by
  intro statement listed
  rcases of_mem_body stands listed with (⟨flag, rfl⟩ | ⟨definition, rfl, -⟩) | ⟨rule, rfl⟩
  · rfl
  · rfl
  · rfl

/-- The new file has its old statements, the kerning classes, the lookups with
what is in them, and statements of no other kind that names a class or a lookup. -/
theorem of_mem_allStatements {statement : Statement}
    (found : statement ∈ (file.append (setting.additions context file features)).allStatements) :
    statement ∈ file.allStatements ∨ statement ∈ (setting.draft file).classNames.definitions ∨
      (∃ lookup ∈ (setting.draft file).lookups,
        statement = lookup.statement ∨ statement ∈ lookup.body) ∨
      (∀ definition, statement ≠ .glyphClass definition) ∧
        ∀ name body, statement ≠ .block .lookup name body := by
  rw [FeatureFile.allStatements_append, List.mem_append, Statement.mem_visit] at found
  rcases found with old | ⟨added, listed, inside⟩
  · exact .inl old
  · rcases mem_additions.mp listed with named | rfl | ⟨lookup, member, rfl⟩ | featured
    · obtain ⟨row, -, rfl⟩ := KernClassNames.mem_definitions.mp named
      rcases inside with rfl | inside
      · exact .inr (.inl named)
      · simp [Statement.children] at inside
    · rcases inside with rfl | inside
      · refine .inr (.inr (.inr ⟨fun definition same => ?_, fun name body same => ?_⟩))
        · cases same
        · cases same
      · simp [Statement.children] at inside
    · refine .inr (.inr (.inl ⟨lookup, member, ?_⟩))
      obtain ⟨half, matched⟩ := exists_row_of_mem_lookups member
      have flat := body_flat (of_mem_rows matched).2.2
      rcases inside with rfl | inside
      · exact .inl rfl
      · rw [KernLookup.statement, Statement.children, Statement.visit_of_flat flat] at inside
        exact .inr inside
    · obtain ⟨name, registration, rfl, -⟩ := of_mem_blocks featured
      have plain : ∀ statement ∈ registration.statements file.declaredLanguages,
          statement.children = [] ∧ (∀ definition, statement ≠ .glyphClass definition) ∧
            ∀ name body, statement ≠ .block .lookup name body := by
        intro statement listed
        rcases of_mem_statements listed with rfl | ⟨tag, rfl⟩ | ⟨tag, rfl⟩ | ⟨lookup, rfl⟩ <;>
          refine ⟨rfl, fun definition same => ?_, fun name body same => ?_⟩ <;> cases same
      refine .inr (.inr (.inr ?_))
      rcases inside with rfl | inside
      · refine ⟨fun definition same => ?_, fun name body same => ?_⟩
        · cases same
        · cases same
      · rw [Statement.children, Statement.visit_of_flat fun statement listed =>
          (plain statement listed).1] at inside
        exact (plain statement inside).2

/-! ## The values of lookups -/

def extended (setting : KernSetting α) (context : LayoutContext α) (file : FeatureFile)
    (features : List String) : FeatureFile :=
  file.append (setting.additions context file features)

theorem mem_extended_of_mem_additions {statement : Statement}
    (listed : statement ∈ setting.additions context file features) :
    statement ∈ (setting.extended context file features).allStatements := by
  rw [extended, FeatureFile.allStatements_append]
  exact List.mem_append_right _ (Statement.mem_visit.mpr ⟨statement, listed, .inl rfl⟩)

/-- A kerning class has the members that it was named for, since nothing else has its name. -/
theorem mem_classMembers_of_named {row : KernClassKey × String}
    (named : row ∈ (setting.draft file).classNames.named) {glyph : GlyphName} :
    glyph ∈ (setting.extended context file features).classMembers row.2 ↔
      glyph ∈ row.1.members := by
  have stands := setting.draft_draftFor file
  obtain ⟨distinct, fresh⟩ := stands.names.of_unnamed
  rw [FeatureFile.mem_classMembers]
  constructor
  · rintro ⟨definition, listed, same, held⟩
    rcases of_mem_allStatements listed with old | defined | ⟨lookup, member, whole | inside⟩ | other
    · have taken := FeatureFile.mem_classNames_of_glyphClass old
      rw [same] at taken
      exact absurd taken (fresh row named).2
    · obtain ⟨otherRow, otherNamed, rowSame⟩ := KernClassNames.mem_definitions.mp defined
      cases rowSame
      have rows := List.inj_on_of_nodup_map distinct otherNamed named same
      rwa [rows] at held
    · cases whole
    · obtain ⟨half, matched⟩ := exists_row_of_mem_lookups member
      rcases of_mem_body (of_mem_rows matched).2.2 inside with
        (⟨flag, wrong⟩ | ⟨opened, openedSame, -, apart⟩) | ⟨rule, wrong⟩
      · cases wrong
      · cases openedSame
        exact absurd same.symm (apart row named)
      · cases wrong
    · exact absurd rfl (other.1 definition)
  · intro held
    refine ⟨⟨row.2, row.1.members.toList⟩, mem_extended_of_mem_additions ?_, rfl, held⟩
    exact mem_additions.mpr (.inl (KernClassNames.mem_definitions.mpr ⟨row, named, rfl⟩))

theorem mem_selected_of_standsFor {position : KernPosition} {script : Script} {side : KernSide}
    {selector : PairSide}
    (stands : (setting.draft file).classNames.StandsFor position script side selector)
    {glyph : GlyphName} :
    glyph ∈ (setting.extended context file features).selected selector ↔ glyph ∈ side.glyphs := by
  cases side with
  | glyph name =>
      cases stands
      exact Iff.rfl
  | group group members =>
      obtain ⟨name, rfl, named⟩ := stands
      exact mem_classMembers_of_named named

theorem xAdvance_valueRecord (script : Script) (pair : KerningPair α) :
    (setting.valueRecord script pair).xAdvance =
      nearestMultiple pair.value setting.writer.quantization := by
  unfold valueRecord
  dsimp only
  split
  · rfl
  · rfl

theorem ruleValue?_of_ruleFor {script : Script} {rule : Statement} {pair : KerningPair α}
    (stands : setting.RuleFor (setting.draft file).classNames script rule pair)
    (first second : GlyphName) :
    (setting.extended context file features).ruleValue? first second rule =
      if pair.Covers first second then
        some (nearestMultiple pair.value setting.writer.quantization)
      else none := by
  obtain ⟨firstSide, secondSide, enumerated, rfl, firstStands, secondStands⟩ := stands
  unfold FeatureFile.ruleValue?
  simp only [mem_selected_of_standsFor firstStands, mem_selected_of_standsFor secondStands,
    xAdvance_valueRecord]
  rfl

/-- A lookup gives two glyphs the value of the first pair left in its half that covers them. -/
theorem lookupValue?_of_lookupFor {half : KernHalf} {lookup : KernLookup}
    (stands : setting.LookupFor (setting.draft file).classNames half lookup)
    (first second : GlyphName) :
    (setting.extended context file features).lookupValue? lookup.body first second =
      ((setting.keptPairs half).find? fun pair => decide (pair.Covers first second)).map
        fun pair => nearestMultiple pair.value setting.writer.quantization := by
  obtain ⟨opening, rules, same, opens, rulesStand⟩ := stands.body_eq
  have silent : opening.findSome?
      ((setting.extended context file features).ruleValue? first second) = none := by
    refine List.findSome?_eq_none_iff.mpr fun statement listed => ?_
    rcases opens statement listed with ⟨flag, rfl⟩ | ⟨definition, rfl, -⟩
    · rfl
    · rfl
  rw [FeatureFile.lookupValue?, same, List.findSome?_append, silent, Option.none_or]
  clear same
  generalize setting.keptPairs half = kept at rulesStand
  induction rulesStand with
  | nil => rfl
  | @cons rule pair rules pairs stands _ ih =>
      rw [List.findSome?_cons, ruleValue?_of_ruleFor stands]
      by_cases covers : pair.Covers first second
      · rw [if_pos covers, List.find?_cons_of_pos (by simpa using covers)]
        rfl
      · rw [if_neg covers, List.find?_cons_of_neg (by simpa using covers)]
        exact ih

/-! ## The lookups that kern two glyphs -/

/-- Whether a pair left in a half covers two glyphs. -/
def Kerns (setting : KernSetting α) (half : KernHalf) (first second : GlyphName) : Prop :=
  ∃ pair ∈ setting.keptPairs half, pair.Covers first second

/-- The only block with the name of a new lookup is that lookup. -/
theorem body_eq_of_mem_extended {lookup : KernLookup}
    (member : lookup ∈ (setting.draft file).lookups) {body : List Statement}
    (listed : .block .lookup lookup.name body ∈
      (setting.extended context file features).allStatements) : body = lookup.body := by
  rcases of_mem_allStatements listed with old | named | ⟨other, otherMember, same | inside⟩ | other
  · have fresh := ((setting.draft_draftFor file).fresh lookup member).2
    exact absurd (FeatureFile.mem_lookupNames_of_block old) fresh
  · obtain ⟨row, -, wrong⟩ := KernClassNames.mem_definitions.mp named
    cases wrong
  · obtain ⟨names, bodies⟩ : lookup.name = other.name ∧ body = other.body := by
      simpa [KernLookup.statement] using same
    rw [bodies, lookup_eq_of_name_eq member otherMember names]
  · obtain ⟨half, matched⟩ := exists_row_of_mem_lookups otherMember
    rcases of_mem_body (of_mem_rows matched).2.2 inside with
      (⟨_, wrong⟩ | ⟨_, wrong, -⟩) | ⟨_, wrong⟩
    · cases wrong
    · cases wrong
    · cases wrong
  · exact absurd rfl (other.2 _ _)

/-- A new lookup kerns the glyphs that a pair left in its half covers. -/
theorem lookupKerns_iff_kerns {half : KernHalf} {lookup : KernLookup}
    (matched : (half, lookup) ∈ setting.rows file) {first second : GlyphName} :
    (setting.extended context file features).LookupKerns lookup.name first second ↔
      setting.Kerns half first second := by
  obtain ⟨-, member, stands⟩ := of_mem_rows matched
  have covered : ((setting.extended context file features).lookupValue? lookup.body first
      second).isSome = true ↔ setting.Kerns half first second := by
    rw [lookupValue?_of_lookupFor stands, Option.isSome_map, List.find?_isSome]
    exact exists_congr fun pair => and_congr_right fun _ => decide_eq_true_iff
  rw [← covered]
  constructor
  · rintro ⟨body, listed, kerned⟩
    rwa [body_eq_of_mem_extended member listed] at kerned
  · intro kerned
    refine ⟨lookup.body, mem_extended_of_mem_additions ?_, kerned⟩
    exact mem_additions.mpr (.inr (.inr (.inl ⟨lookup, member, rfl⟩)))

end KernSetting

end FontCompiler
