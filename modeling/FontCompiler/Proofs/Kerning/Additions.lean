import FontCompiler.Proofs.Collection.Sorting
import FontCompiler.Proofs.Kerning.Contribution
import FontCompiler.Proofs.Kerning.NewClasses

/-!
# What the kerning that is written defines and uses

The kerning writer defines the classes and the lookups of its draft. Its rules
use these classes only, and its features refer to these lookups only.
-/

namespace FontCompiler

open Statement

namespace KernSetting

variable {α : Type} [Coordinate α] {setting : KernSetting α} {context : LayoutContext α}
  {file : FeatureFile} {features : List String}

theorem visit_lookups {lookups : List KernLookup}
    (flat : ∀ lookup ∈ lookups, ∀ statement ∈ lookup.body, statement.children = []) :
    visit (lookups.map KernLookup.statement) =
      lookups.flatMap fun lookup => lookup.statement :: lookup.body := by
  induction lookups with
  | nil => exact visit_nil
  | cons lookup rest ih =>
      rw [List.map_cons, visit_cons, visit_append,
        ih fun other listed => flat other (List.mem_cons_of_mem _ listed), List.flatMap_cons,
        KernLookup.statement, children, visit_of_flat (flat lookup List.mem_cons_self)]
      rfl

theorem children_of_mem_definitions {names : KernClassNames} {statement : Statement}
    (listed : statement ∈ names.definitions) : statement.children = [] := by
  obtain ⟨row, -, rfl⟩ := KernClassNames.mem_definitions.mp listed
  rfl

theorem body_flat_of_mem_lookups {lookup : KernLookup}
    (listed : lookup ∈ (setting.draft file).lookups) :
    ∀ statement ∈ lookup.body, statement.children = [] := by
  obtain ⟨half, matched⟩ := exists_row_of_mem_lookups listed
  exact body_flat (of_mem_rows matched).2.2

/-- The walk meets the classes, then each lookup with its body, then the features. -/
theorem visit_additions : visit (setting.additions context file features) =
    (setting.draft file).classNames.definitions ++ [.comment ""] ++
      (setting.draft file).lookups.flatMap (fun lookup => lookup.statement :: lookup.body) ++
      visit (KernWriter.blocks context file features setting (setting.draft file).lookups) := by
  unfold additions
  dsimp only
  rw [visit_append, visit_append, visit_append,
    visit_lookups fun lookup listed => body_flat_of_mem_lookups listed,
    visit_of_flat fun _ listed => children_of_mem_definitions listed,
    visit_of_flat fun statement listed => by rw [List.mem_singleton.mp listed]; rfl]

theorem mem_map_name_of_get? {lookups : List KernLookup} {scripts : SortedSet Script}
    {registration : Registration} {feature : String}
    (made : feature = "kern" ∧ registration = kernRegistration lookups scripts ∨
      feature = "dist" ∧ registration = distanceRegistration lookups scripts)
    {tag : Tag} {names : List String} (found : registration.get? tag = some names) {name : String}
    (listed : name ∈ names) : name ∈ lookups.map KernLookup.name := by
  rcases (mem_lookups_of_feature made found).mp listed with default | ⟨script, -, -, -, own⟩
  · obtain ⟨lookup, member, -, same⟩ := mem_defaultLookups.mp default
    exact List.mem_map.mpr ⟨lookup, member, same⟩
  · obtain ⟨lookup, member, -, same⟩ := mem_lookupsOfScript.mp own
    exact List.mem_map.mpr ⟨lookup, member, same⟩

/-- A reference to a lookup stands below the tag under which the lookup is registered. -/
theorem exists_get?_of_lookupReference {languages : OrderedMap Tag (List Tag)}
    {registration : Registration} {name : String}
    (listed : .lookupReference name ∈ registration.statements languages) :
    ∃ tag names, registration.get? tag = some names ∧ name ∈ names := by
  unfold Registration.statements Registration.tagStatements at listed
  obtain ⟨⟨tag, names⟩, entry, found⟩ := List.mem_flatMap.mp listed
  refine ⟨tag, names, OrderedMap.get?_eq_some_iff.mpr entry, ?_⟩
  simpa using found

theorem statements_flat {languages : OrderedMap Tag (List Tag)} {registration : Registration} :
    ∀ statement ∈ registration.statements languages, statement.children = [] := by
  intro statement listed
  rcases of_mem_statements listed with rfl | ⟨tag, rfl⟩ | ⟨tag, rfl⟩ | ⟨name, rfl⟩ <;> rfl

omit [Coordinate α] in
/-- The features hold nothing but sections that refer to the given lookups. -/
theorem of_mem_visit_blocks {lookups : List KernLookup} {statement : Statement}
    (listed : statement ∈ visit (KernWriter.blocks context file features setting lookups)) :
    (∃ name body, statement = .block .feature name body ∧ name ∈ KernWriter.features) ∨
      statement = .comment "" ∨ (∃ tag, statement = .script tag) ∨
      (∃ tag, statement = .language tag) ∨
      ∃ name, statement = .lookupReference name ∧ name ∈ lookups.map KernLookup.name := by
  obtain ⟨block, member, found⟩ := mem_visit.mp listed
  obtain ⟨name, registration, rfl, made⟩ := of_mem_blocks member
  rcases found with rfl | inside
  · refine .inl ⟨name, _, rfl, ?_⟩
    rcases made with ⟨rfl, -⟩ | ⟨rfl, -⟩
    · decide
    · decide
  · refine .inr ?_
    rw [children, visit_of_flat statements_flat] at inside
    rcases of_mem_statements inside with empty | script | language | ⟨lookup, rfl⟩
    · exact .inl empty
    · exact .inr (.inl script)
    · exact .inr (.inr (.inl language))
    · obtain ⟨tag, names, registered, member⟩ := exists_get?_of_lookupReference inside
      exact .inr (.inr (.inr ⟨lookup, rfl, mem_map_name_of_get? made registered member⟩))

theorem LookupFor.lookupMaker?_name {names : KernClassNames} {half : KernHalf}
    {lookup : KernLookup} (stands : setting.LookupFor names half lookup) :
    lookupMaker? lookup.name = some .kern := by
  obtain ⟨taken, same⟩ := stands.name_eq
  have begins : lookupMaker? "kern_" = some .kern := rfl
  obtain ⟨script, marked⟩ := half
  rw [same]
  cases marked with
  | false => exact lookupMaker?_freshName (lookupMaker?_append begins _) taken
  | true =>
      exact lookupMaker?_freshName (lookupMaker?_append (lookupMaker?_append begins _) _) taken

/-- A statement in the body of a drafted lookup is a flag, a class or a rule. -/
theorem of_mem_body_of_mem_lookups {lookup : KernLookup}
    (listed : lookup ∈ (setting.draft file).lookups) {statement : Statement}
    (inside : statement ∈ lookup.body) :
    (∃ flag, statement = .lookupFlag flag) ∨ (∃ definition, statement = .glyphClass definition) ∨
      ∃ rule, statement = .position rule := by
  obtain ⟨half, matched⟩ := exists_row_of_mem_lookups listed
  rcases of_mem_body (of_mem_rows matched).2.2 inside with
    (flag | ⟨definition, same, -⟩) | rule
  · exact .inl flag
  · exact .inr (.inl ⟨definition, same⟩)
  · exact .inr (.inr rule)

section Lookups

variable (setting) (file)

theorem definedLookups_lookups :
    definedLookups ((setting.draft file).lookups.map KernLookup.statement) =
      (setting.draft file).lookups.map KernLookup.name := by
  rw [definedLookups, visit_lookups fun _ listed => body_flat_of_mem_lookups listed,
    List.filterMap_flatMap, List.map_eq_flatMap]
  refine List.flatMap_congr fun lookup listed => ?_
  have isName : lookup.statement.lookupName? = some lookup.name := rfl
  have silent : lookup.body.filterMap lookupName? = [] := by
    refine List.filterMap_eq_nil_iff.mpr fun statement inside => ?_
    rcases of_mem_body_of_mem_lookups listed inside with
      ⟨flag, rfl⟩ | ⟨definition, rfl⟩ | ⟨rule, rfl⟩ <;> rfl
  rw [List.filterMap_cons_some isName, silent]

theorem definedGlyphClasses_lookups :
    definedGlyphClasses ((setting.draft file).lookups.map KernLookup.statement) =
      (setting.draft file).lookups.flatMap fun lookup => classesIn lookup.body := by
  rw [definedGlyphClasses, visit_lookups fun _ listed => body_flat_of_mem_lookups listed,
    List.filterMap_flatMap]
  rfl

theorem definedMarkClasses_lookups :
    definedMarkClasses ((setting.draft file).lookups.map KernLookup.statement) = [] := by
  rw [definedMarkClasses, visit_lookups fun _ listed => body_flat_of_mem_lookups listed]
  refine List.filterMap_eq_nil_iff.mpr fun statement listed => ?_
  obtain ⟨lookup, member, inside⟩ := List.mem_flatMap.mp listed
  rcases List.mem_cons.mp inside with rfl | inside
  · rfl
  · rcases of_mem_body_of_mem_lookups member inside with
      ⟨flag, rfl⟩ | ⟨definition, rfl⟩ | ⟨rule, rfl⟩ <;> rfl

end Lookups

omit [Coordinate α] in
theorem blocks_defineNothing (setting : KernSetting α) (context : LayoutContext α)
    (file : FeatureFile) (features : List String) (lookups : List KernLookup) :
    ∀ statement ∈ visit (KernWriter.blocks context file features setting lookups),
      statement.DefinesNothing := by
  intro statement listed
  rcases of_mem_visit_blocks listed with
    ⟨name, body, rfl, -⟩ | rfl | ⟨tag, rfl⟩ | ⟨tag, rfl⟩ | ⟨name, rfl, -⟩ <;>
      exact ⟨rfl, rfl, rfl⟩

theorem definitions_defined (names : KernClassNames) :
    definedLookups names.definitions = [] ∧ definedMarkClasses names.definitions = [] ∧
      (definedGlyphClasses names.definitions).Perm (names.named.map Prod.snd) := by
  unfold definedLookups definedMarkClasses definedGlyphClasses
  rw [visit_of_flat fun _ listed => children_of_mem_definitions listed]
  refine ⟨?_, ?_, ?_⟩
  · refine List.filterMap_eq_nil_iff.mpr fun statement listed => ?_
    obtain ⟨row, -, rfl⟩ := KernClassNames.mem_definitions.mp listed
    rfl
  · refine List.filterMap_eq_nil_iff.mpr fun statement listed => ?_
    obtain ⟨row, -, rfl⟩ := KernClassNames.mem_definitions.mp listed
    rfl
  · unfold KernClassNames.definitions
    rw [List.filterMap_map, ← List.filterMap_eq_map]
    exact (sortBy_perm _ _).filterMap _

/-- What is written defines the lookups and the classes of the draft. -/
theorem defined_additions (setting : KernSetting α) (context : LayoutContext α)
    (file : FeatureFile) (features : List String) :
    definedLookups (setting.additions context file features) =
        (setting.draft file).lookups.map KernLookup.name ∧
      (definedGlyphClasses (setting.additions context file features)).Perm
        (definedClasses (setting.draft file).classNames (setting.draft file).lookups) ∧
      definedMarkClasses (setting.additions context file features) = [] := by
  obtain ⟨noLookup, noMark, classes⟩ := definitions_defined (setting.draft file).classNames
  have comment : ∀ statement ∈ visit [.comment ""], statement.DefinesNothing := by
    intro statement listed
    rw [visit_of_flat fun statement listed => by rw [List.mem_singleton.mp listed]; rfl] at listed
    rw [List.mem_singleton.mp listed]
    exact ⟨rfl, rfl, rfl⟩
  obtain ⟨commentLookups, commentGlyphs, commentMarks⟩ := defined_eq_nil comment
  obtain ⟨featureLookups, featureGlyphs, featureMarks⟩ := defined_eq_nil
    (blocks_defineNothing setting context file features (setting.draft file).lookups)
  unfold additions
  dsimp only
  simp only [definedLookups_append, definedGlyphClasses_append, definedMarkClasses_append, noLookup,
    noMark, commentLookups, commentGlyphs, commentMarks, featureLookups, featureGlyphs,
    featureMarks, definedLookups_lookups, definedGlyphClasses_lookups, definedMarkClasses_lookups,
    List.append_nil, List.nil_append, and_true, true_and]
  exact classes.append_right _

/-- The classes that a rule refers to are kerning classes. -/
theorem mem_named_of_mem_classUses {names : KernClassNames} {script : Script}
    {rule : Statement} {pair : KerningPair α} (stands : setting.RuleFor names script rule pair)
    {name : String} (used : name ∈ rule.classUses) : name ∈ names.named.map Prod.snd := by
  have ofSide : ∀ {position side selector}, names.StandsFor position script side selector →
      name ∈ selector.className?.toList → name ∈ names.named.map Prod.snd := by
    intro position side selector sideStands found
    cases side with
    | glyph glyph =>
        cases sideStands
        cases found
    | group group members =>
        obtain ⟨className, rfl, named⟩ := sideStands
        rw [List.mem_singleton.mp found]
        exact List.mem_map_of_mem named
  obtain ⟨first, second, enumerated, rfl, firstStands, secondStands⟩ := stands
  exact (List.mem_append.mp used).elim (ofSide firstStands) (ofSide secondStands)

theorem classUses_additions {statement : Statement}
    (listed : statement ∈ visit (setting.additions context file features)) {name : String}
    (used : name ∈ statement.classUses) :
    name ∈ definedGlyphClasses (setting.additions context file features) := by
  rw [(defined_additions setting context file features).2.1.mem_iff]
  unfold definedClasses
  rw [visit_additions] at listed
  simp only [List.mem_append, List.mem_singleton] at listed
  rcases listed with ((named | rfl) | lookups) | featured
  · obtain ⟨row, -, rfl⟩ := KernClassNames.mem_definitions.mp named
    cases used
  · cases used
  · obtain ⟨lookup, member, inside⟩ := List.mem_flatMap.mp lookups
    rcases List.mem_cons.mp inside with rfl | inside
    · cases used
    · rcases of_mem_body_of_mem_lookups member inside with
        ⟨flag, rfl⟩ | ⟨definition, rfl⟩ | ⟨rule, rfl⟩
      · refine List.mem_append_right _ (List.mem_flatMap.mpr ⟨lookup, member, ?_⟩)
        exact (setting.draft_classesNew file).filters lookup member flag inside name
          (Option.mem_toList.mp used)
      · cases used
      · obtain ⟨half, matched⟩ := exists_row_of_mem_lookups member
        obtain ⟨opening, rules, same, opens, rulesStand⟩ := (of_mem_rows matched).2.2.body_eq
        rw [same] at inside
        rcases List.mem_append.mp inside with opened | ruled
        · rcases opens _ opened with ⟨flag, wrong⟩ | ⟨definition, wrong, -⟩
          · cases wrong
          · cases wrong
        · obtain ⟨pair, found⟩ := (exists_mem_zip_of_forall₂ rulesStand).1 _ ruled
          exact List.mem_append_left _
            (mem_named_of_mem_classUses (List.forall₂_zip rulesStand found) used)
  · rcases of_mem_visit_blocks featured with
      ⟨name, body, rfl, -⟩ | rfl | ⟨tag, rfl⟩ | ⟨tag, rfl⟩ | ⟨name, rfl, -⟩ <;> cases used

theorem lookupUses_additions {statement : Statement}
    (listed : statement ∈ visit (setting.additions context file features)) {name : String}
    (used : name ∈ statement.lookupUses) :
    name ∈ definedLookups (setting.additions context file features) := by
  rw [(defined_additions setting context file features).1]
  rw [visit_additions] at listed
  simp only [List.mem_append, List.mem_singleton] at listed
  rcases listed with ((named | rfl) | lookups) | featured
  · obtain ⟨row, -, rfl⟩ := KernClassNames.mem_definitions.mp named
    cases used
  · cases used
  · obtain ⟨lookup, member, inside⟩ := List.mem_flatMap.mp lookups
    rcases List.mem_cons.mp inside with rfl | inside
    · cases used
    · rcases of_mem_body_of_mem_lookups member inside with
        ⟨flag, rfl⟩ | ⟨definition, rfl⟩ | ⟨rule, rfl⟩ <;> cases used
  · rcases of_mem_visit_blocks featured with
      ⟨name, body, rfl, -⟩ | rfl | ⟨tag, rfl⟩ | ⟨tag, rfl⟩ | ⟨name, rfl, registered⟩
    · cases used
    · cases used
    · cases used
    · cases used
    · rw [List.mem_singleton.mp used]
      exact registered

theorem allMadeBy_additions : AllMadeBy .kern (setting.additions context file features) := by
  have classes := setting.draft_classesNew file
  intro statement listed
  rw [visit_additions] at listed
  simp only [List.mem_append, List.mem_singleton] at listed
  rcases listed with ((named | rfl) | lookups) | featured
  · obtain ⟨row, member, rfl⟩ := KernClassNames.mem_definitions.mp named
    exact .glyphClass (classes.allMade row member)
  · exact .comment _
  · obtain ⟨lookup, member, inside⟩ := List.mem_flatMap.mp lookups
    rcases List.mem_cons.mp inside with rfl | inside
    · obtain ⟨half, matched⟩ := exists_row_of_mem_lookups member
      exact .lookup _ ((of_mem_rows matched).2.2.lookupMaker?_name)
    · rcases of_mem_body_of_mem_lookups member inside with
        ⟨flag, rfl⟩ | ⟨definition, rfl⟩ | ⟨rule, rfl⟩
      · exact .lookupFlag flag
      · refine .glyphClass (classes.made definition.name (List.mem_append_left _ ?_))
        exact List.mem_append_right _ (List.mem_flatMap.mpr
          ⟨lookup, member, List.mem_filterMap.mpr ⟨_, inside, rfl⟩⟩)
      · exact .position rule
  · rcases of_mem_visit_blocks featured with
      ⟨name, body, rfl, known⟩ | rfl | ⟨tag, rfl⟩ | ⟨tag, rfl⟩ | ⟨name, rfl, -⟩
    · exact .feature body known
    · exact .comment _
    · exact .script tag
    · exact .language tag
    · exact .lookupReference name

/-- What is written fits the file. -/
theorem fits_additions :
    Contribution.Fits { appended := setting.additions context file features } file := by
  have drafted := setting.draft_draftFor file
  obtain ⟨lookups, glyphClasses, markClasses⟩ := defined_additions setting context file features
  refine ⟨by simp, ⟨(setting.draft file).lookupNames, ?_⟩,
    ⟨(setting.draft file).classNames.taken, ?_⟩, fun name listed => ?_,
    fun statement listed name used => lookupUses_additions listed used,
    fun statement listed name used => .inr (.inl (classUses_additions listed used))⟩
  · dsimp only
    rw [lookups]
    refine ⟨drafted.kept, fun name listed => ?_, fun name listed => ?_, drafted.distinct⟩
    · obtain ⟨lookup, member, rfl⟩ := List.mem_map.mp listed
      exact (drafted.fresh lookup member).1
    · obtain ⟨lookup, member, rfl⟩ := List.mem_map.mp listed
      exact (drafted.fresh lookup member).2
  · have new := (setting.draft_classesNew file).new
    rw [List.append_nil] at new
    exact new.subperm glyphClasses.subperm
  · dsimp only at listed
    rw [markClasses] at listed
    cases listed

end KernSetting

namespace KernWriter

variable {α : Type} [Coordinate α]

/-- The writer adds classes, lookups and features, or nothing. -/
theorem statements_cases (writer : KernWriter) (context : LayoutContext α) (file : FeatureFile) :
    writer.statements context file = [] ∨
      writer.statements context file = (writer.kernSetting context file).additions context file
        (wantedFeatures writer.overlap file features) := by
  unfold statements
  dsimp only
  split
  · exact .inl rfl
  · exact .inr rfl

end KernWriter

end FontCompiler
