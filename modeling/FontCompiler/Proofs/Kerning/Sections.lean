import FontCompiler.Proofs.Layout.Contribution

/-!
# Where kerning lookups are registered

Each lookup stands under the tags of its script, in the feature that kerns the script. The
lookups of the default scripts come first under every tag, and also stand under the default
tag. No tag is opened twice in a feature, and no lookup is listed twice under a tag.
-/

namespace FontCompiler

open Statement

/-! ## The order under a tag -/

namespace Registration

/-- The lookups under a tag after further ones are added. -/
def merged (listed lookups : List String) : List String :=
  lookups.foldl (fun merged lookup => if merged.contains lookup then merged else merged ++ [lookup])
    listed

theorem merged_cons (listed rest : List String) (lookup : String) :
    merged listed (lookup :: rest) =
      merged (if listed.contains lookup then listed else listed ++ [lookup]) rest :=
  rfl

theorem merged_append (listed lookups further : List String) :
    merged listed (lookups ++ further) = merged (merged listed lookups) further :=
  List.foldl_append

theorem nodup_merged {listed : List String} (nodup : listed.Nodup) (lookups : List String) :
    (merged listed lookups).Nodup := by
  induction lookups generalizing listed with
  | nil => exact nodup
  | cons lookup rest ih =>
      rw [merged_cons]
      refine ih ?_
      split
      · exact nodup
      · next fresh =>
          have new : lookup ∉ listed := fun old => fresh (List.contains_iff_mem.mpr old)
          exact List.nodup_append'.mpr
            ⟨nodup, List.nodup_singleton lookup, List.disjoint_singleton.mpr new⟩

theorem prefix_merged (listed lookups : List String) : listed <+: merged listed lookups := by
  induction lookups generalizing listed with
  | nil => exact List.prefix_refl listed
  | cons lookup rest ih =>
      rw [merged_cons]
      refine List.IsPrefix.trans ?_ (ih _)
      split
      · exact List.prefix_refl listed
      · exact List.prefix_append listed [lookup]

/-- Further lookups that are all new go to the end as they are. -/
theorem merged_of_nodup {listed lookups : List String} (nodup : (listed ++ lookups).Nodup) :
    merged listed lookups = listed ++ lookups := by
  induction lookups generalizing listed with
  | nil => exact (List.append_nil listed).symm
  | cons lookup rest ih =>
      have new : lookup ∉ listed := fun old =>
        (List.nodup_append'.mp nodup).2.2 old List.mem_cons_self
      rw [List.append_cons] at nodup ⊢
      rw [← ih nodup, merged_cons, if_neg fun old => new (List.contains_iff_mem.mp old)]

/-- Whether the lookups under each tag are distinct and begin with some given ones. -/
def BeginsWith (shared : List String) (registration : Registration) : Prop :=
  ∀ tag names, registration.get? tag = some names → names.Nodup ∧ shared <+: names

variable {registration : Registration} {shared lookups : List String}

theorem beginsWith_empty (shared : List String) : BeginsWith shared ∅ :=
  fun _ _ found => nomatch found

theorem BeginsWith.add (begins : BeginsWith shared registration) (nodup : shared.Nodup) (tag : Tag)
    (own : List String) : BeginsWith shared (registration.add tag (shared ++ own)) := by
  intro other names found
  rw [Registration.add, OrderedMap.get?_alter] at found
  split at found
  · cases found
    rw [← merged]
    -- A new tag starts with the shared lookups, and an old one keeps those that it starts with.
    cases known : registration.get? tag with
    | none =>
        have whole : merged [] shared = [] ++ shared := merged_of_nodup nodup
        rw [Option.getD_none, merged_append, whole, List.nil_append]
        exact ⟨nodup_merged nodup own, prefix_merged shared own⟩
    | some listed =>
        obtain ⟨listedNodup, first⟩ := begins tag listed known
        exact ⟨nodup_merged listedNodup _, first.trans (prefix_merged listed _)⟩
  · exact begins other names found

theorem BeginsWith.registerScript {lookups : List KernLookup}
    (begins : BeginsWith (defaultLookups lookups) registration)
    (nodup : (defaultLookups lookups).Nodup) (script : Script) :
    BeginsWith (defaultLookups lookups) (registerScript lookups registration script) := by
  unfold FontCompiler.registerScript
  dsimp only
  split
  · exact begins
  · generalize script.layoutTags = tags
    induction tags generalizing registration with
    | nil => exact begins
    | cons tag rest ih => exact ih (begins.add nodup tag _)

theorem BeginsWith.foldl {lookups : List KernLookup}
    (begins : BeginsWith (defaultLookups lookups) registration)
    (nodup : (defaultLookups lookups).Nodup) (scripts : List Script) :
    BeginsWith (defaultLookups lookups)
      (scripts.foldl (FontCompiler.registerScript lookups) registration) := by
  induction scripts generalizing registration with
  | nil => exact begins
  | cons script rest ih => exact ih (begins.registerScript nodup script)

end Registration

section Order

variable {lookups : List KernLookup}

/-- Lookups with distinct names give distinct default lookups. -/
theorem nodup_defaultLookups (distinct : (lookups.map KernLookup.name).Nodup) :
    (defaultLookups lookups).Nodup := by
  unfold defaultLookups
  refine List.nodup_flatMap.mpr ⟨fun script _ => ?_, ?_⟩
  · exact distinct.sublist (List.filter_sublist.map KernLookup.name)
  · have apart : Script.defaults.Nodup := by decide
    refine apart.imp fun different name listed again => different ?_
    obtain ⟨lookup, member, rfl, rfl⟩ := mem_lookupsOfScript.mp listed
    obtain ⟨other, otherMember, rfl, same⟩ := mem_lookupsOfScript.mp again
    rw [List.inj_on_of_nodup_map distinct otherMember member same]

/-- Both features list the default lookups first under each tag. -/
theorem beginsWith_of_feature (distinct : (lookups.map KernLookup.name).Nodup)
    {scripts : SortedSet Script} {feature : String} {registration : Registration}
    (made : feature = "kern" ∧ registration = kernRegistration lookups scripts ∨
      feature = "dist" ∧ registration = distanceRegistration lookups scripts) :
    registration.BeginsWith (defaultLookups lookups) := by
  have nodup := nodup_defaultLookups distinct
  rcases made with ⟨-, rfl⟩ | ⟨-, rfl⟩
  · refine Registration.BeginsWith.foldl ?_ nodup _
    split
    · exact Registration.beginsWith_empty _
    · have added := (Registration.beginsWith_empty (defaultLookups lookups)).add nodup
        defaultScriptTag []
      rwa [List.append_nil] at added
  · exact (Registration.beginsWith_empty _).foldl nodup _

end Order

theorem Script.layoutTags_ne_nil (script : Script) : script.layoutTags ≠ [] := by
  have rows : ∀ row ∈ registeredTags, row.2 ≠ [] := by decide
  unfold layoutTags
  split
  · next row found => exact rows row (List.mem_of_find?_eq_some found)
  · exact List.cons_ne_nil _ _

/-! ## Registered lookups -/

/-- Whether some statements refer to a lookup in a feature under a tag. -/
def RefersUnder (statements : List Statement) (feature : String) (tag : Tag) (lookup : String) :
    Prop :=
  ∃ body names, .block .feature feature body ∈ statements ∧
    (tag, names) ∈ (scriptSections body).2 ∧ lookup ∈ names

def Script.kernFeature (script : Script) : String :=
  if script ∈ Script.distanceKerned then "dist" else "kern"

/-- How a section of a feature lists some lookups under a tag: those of the default scripts
first, then those of the scripts that the feature kerns under the tag. -/
structure SectionLists (lookups : List KernLookup) (feature : String) (tag : Tag)
    (names : List String) : Prop where
  distinct : names.Nodup
  ordered : ∃ own, names = defaultLookups lookups ++ own ∧ ∀ name, name ∈ own ↔
    ∃ lookup ∈ lookups, lookup.name = name ∧ lookup.script.isDefault = false ∧
      tag ∈ lookup.script.layoutTags ∧ lookup.script.kernFeature = feature

/-- How added statements register lookups. -/
structure Registers (lookups : List KernLookup) (added : List Statement) : Prop where
  /-- The lookups are added, and no others. -/
  added_iff : ∀ name body, .block .lookup name body ∈ visit added ↔
    ∃ lookup ∈ lookups, lookup.statement = .block .lookup name body
  /-- Each lookup is referred to. -/
  referred : ∀ lookup ∈ lookups, ∃ feature ∈ KernWriter.features, ∃ tag,
    RefersUnder added feature tag lookup.name
  /-- Each reference is to one of the lookups. -/
  refers : ∀ name, .lookupReference name ∈ visit added → ∃ lookup ∈ lookups, lookup.name = name
  /-- The lookups of a script stand under all its tags. -/
  own : ∀ lookup ∈ lookups, lookup.script.isDefault = false → ∀ tag ∈ lookup.script.layoutTags,
    RefersUnder added lookup.script.kernFeature tag lookup.name
  /-- The lookups of the default scripts stand under the default tag. -/
  default : ∀ lookup ∈ lookups, lookup.script.isDefault = true →
    RefersUnder added "kern" defaultScriptTag lookup.name
  /-- A feature refers to lookups below tags only, and opens each tag once. -/
  sections : ∀ feature body, .block .feature feature body ∈ added →
    feature ∈ KernWriter.features ∧ (scriptSections body).1 = [] ∧
      ((scriptSections body).2.map Prod.fst).Nodup ∧
      ∀ tag names, (tag, names) ∈ (scriptSections body).2 → SectionLists lookups feature tag names

section Written

variable {α : Type} [Coordinate α]

omit [Coordinate α] in
/-- A wanted feature with something to register has a block. -/
theorem KernSetting.mem_blocks {setting : KernSetting α} {context : LayoutContext α}
    {file : FeatureFile} {features : List String} {lookups : List KernLookup} {feature : String}
    {registration : Registration}
    (made : feature = "kern" ∧ registration = kernRegistration lookups
        (knownScripts (context.scriptsByGlyph file) file.declaredLanguages setting.scripts) ∨
      feature = "dist" ∧ registration = distanceRegistration lookups
        (knownScripts (context.scriptsByGlyph file) file.declaredLanguages setting.scripts))
    (wanted : features.contains feature = true) (inhabited : registration.isEmpty = false) :
    .block .feature feature (registration.statements file.declaredLanguages) ∈
      KernWriter.blocks context file features setting lookups := by
  have listed : .block .feature feature (registration.statements file.declaredLanguages) ∈
      registrationBlock features file.declaredLanguages feature registration := by
    unfold registrationBlock
    rw [wanted, inhabited]
    exact List.mem_singleton_self _
  unfold KernWriter.blocks
  dsimp only
  rcases made with ⟨same, registered⟩ | ⟨same, registered⟩
  · rw [same, registered] at listed ⊢
    exact List.mem_append_left _ listed
  · rw [same, registered] at listed ⊢
    exact List.mem_append_right _ listed

namespace KernWriter

variable {writer : KernWriter} {context : LayoutContext α} {file : FeatureFile}

/-- The statements of the writer when it may write both features. -/
def allAdditions (writer : KernWriter) (context : LayoutContext α) (file : FeatureFile) :
    List Statement :=
  (writer.kernSetting context file).additions context file features

theorem distinct_lookups (writer : KernWriter) (context : LayoutContext α) (file : FeatureFile) :
    ((writer.lookups context file).map KernLookup.name).Nodup :=
  ((writer.kernSetting context file).draft_draftFor file).distinct

/-- A lookup that a registration lists under a tag is referred to there. -/
theorem refersUnder_of_lists {feature : String} {registration : Registration}
    (made : feature = "kern" ∧ registration =
        kernRegistration (writer.lookups context file) (writer.registeredScripts context file) ∨
      feature = "dist" ∧ registration =
        distanceRegistration (writer.lookups context file)
          (writer.registeredScripts context file))
    {tag : Tag} {name : String} (lists : registration.Lists tag name) :
    RefersUnder (writer.allAdditions context file) feature tag name := by
  obtain ⟨names, found, listed⟩ := lists
  have entry := OrderedMap.get?_eq_some_iff.mp found
  have inhabited : registration.isEmpty = false :=
    List.isEmpty_eq_false_iff.mpr (List.ne_nil_of_mem entry)
  have wanted : features.contains feature = true := by
    rcases made with ⟨same, -⟩ | ⟨same, -⟩
    · rw [same]
      rfl
    · rw [same]
      rfl
  refine ⟨registration.statements file.declaredLanguages, names, ?_, ?_, listed⟩
  · exact KernSetting.mem_additions.mpr
      (.inr (.inr (.inr (KernSetting.mem_blocks made wanted inhabited))))
  · rw [scriptSections_statements]
    exact entry

/-- The scripts of lookups other than the default ones are among those to register. -/
theorem mem_registeredScripts {lookup : KernLookup}
    (member : lookup ∈ writer.lookups context file) (own : lookup.script.isDefault = false) :
    lookup.script ∈ writer.registeredScripts context file := by
  obtain ⟨half, matched⟩ := KernSetting.exists_row_of_mem_lookups member
  obtain ⟨kept, -, stands⟩ := KernSetting.of_mem_rows matched
  obtain ⟨first, second, kerned⟩ := exists_kerns_of_mem_halves kept
  have known : half.1 ≠ .unknown := ne_unknown_of_meet (of_kerns kerned).2.2
  rw [stands.script_eq] at own ⊢
  exact mem_knownScripts (mem_scripts_of_mem_halves kept) own known

theorem refersUnder_own {lookup : KernLookup} (member : lookup ∈ writer.lookups context file)
    (own : lookup.script.isDefault = false) {tag : Tag} (tagged : tag ∈ lookup.script.layoutTags) :
    RefersUnder (writer.allAdditions context file) lookup.script.kernFeature tag lookup.name := by
  have known := mem_registeredScripts member own
  have named : lookup.name ∈ lookupsOfScript (writer.lookups context file) lookup.script :=
    mem_lookupsOfScript.mpr ⟨lookup, member, rfl, rfl⟩
  unfold Script.kernFeature
  split
  · next distance =>
      refine refersUnder_of_lists (.inr ⟨rfl, rfl⟩) (lists_foldl_registerScript.mpr (.inr ?_))
      refine ⟨lookup.script, List.mem_filter.mpr ⟨known, ?_⟩, tagged, .inr named⟩
      simpa using distance
  · next other =>
      refine refersUnder_of_lists (.inl ⟨rfl, rfl⟩) (lists_foldl_registerScript.mpr (.inr ?_))
      refine ⟨lookup.script, List.mem_filter.mpr ⟨known, ?_⟩, tagged, .inr named⟩
      simpa using other

theorem refersUnder_default {lookup : KernLookup} (member : lookup ∈ writer.lookups context file)
    (default : lookup.script.isDefault = true) :
    RefersUnder (writer.allAdditions context file) "kern" defaultScriptTag lookup.name := by
  have named : lookup.name ∈ defaultLookups (writer.lookups context file) :=
    mem_defaultLookups.mpr ⟨lookup, member, default, rfl⟩
  have some : ¬ (defaultLookups (writer.lookups context file)).isEmpty = true := fun none => by
    rw [List.isEmpty_iff.mp none] at named
    cases named
  refine refersUnder_of_lists (.inl ⟨rfl, rfl⟩) (lists_foldl_registerScript.mpr (.inl ?_))
  rw [if_neg some]
  exact Registration.lists_add.mpr (.inr ⟨rfl, named⟩)

/-- A feature that is added holds the statements of its registration. -/
theorem exists_registration {feature : String} {body : List Statement}
    (listed : .block .feature feature body ∈ writer.allAdditions context file) :
    ∃ registration : Registration, body = registration.statements file.declaredLanguages ∧
      (feature = "kern" ∧ registration =
          kernRegistration (writer.lookups context file) (writer.registeredScripts context file) ∨
        feature = "dist" ∧ registration =
          distanceRegistration (writer.lookups context file)
            (writer.registeredScripts context file)) := by
  rcases KernSetting.mem_additions.mp listed with named | empty | ⟨lookup, -, wrong⟩ | featured
  · obtain ⟨row, -, wrong⟩ := KernClassNames.mem_definitions.mp named
    cases wrong
  · cases empty
  · cases wrong
  · obtain ⟨_, registration, same, made⟩ := KernSetting.of_mem_blocks featured
    cases same
    exact ⟨registration, rfl, made⟩

omit [Coordinate α] in
theorem kernFeature_eq_iff {script : Script} {feature : String}
    (known : feature = "kern" ∨ feature = "dist") :
    script.kernFeature = feature ↔ (script ∈ Script.distanceKerned ↔ feature = "dist") := by
  unfold Script.kernFeature
  rcases known with rfl | rfl
  · split_ifs with distance <;> simp [distance]
  · split_ifs with distance <;> simp [distance]

/-- A section of a feature lists the default lookups first, then those of its scripts. -/
theorem sectionLists {feature : String} {body : List Statement}
    (listed : .block .feature feature body ∈ writer.allAdditions context file) {tag : Tag}
    {names : List String} (opened : (tag, names) ∈ (scriptSections body).2) :
    SectionLists (writer.lookups context file) feature tag names := by
  obtain ⟨registration, rfl, made⟩ := exists_registration listed
  have served := @mem_section_iff α _ writer context file features feature _ listed tag names opened
  rw [scriptSections_statements] at opened
  obtain ⟨distinct, own, rfl⟩ := beginsWith_of_feature (distinct_lookups writer context file) made
    tag names (OrderedMap.get?_eq_some_iff.mpr opened)
  have known : feature = "kern" ∨ feature = "dist" := made.imp And.left And.left
  have apart : ∀ name ∈ own, name ∉ defaultLookups (writer.lookups context file) :=
    fun name held early => (List.nodup_append'.mp distinct).2.2 early held
  refine ⟨distinct, own, rfl, fun name => ⟨fun held => ?_, ?_⟩⟩
  · obtain ⟨half, lookup, matched, rfl, serves⟩ := served.mp (List.mem_append_right _ held)
    -- A default lookup stands in the first part, and the list has each lookup once.
    obtain ⟨-, member, stands⟩ := KernSetting.of_mem_rows matched
    have foreign : ¬ lookup.script.isDefault = true := fun default =>
      apart _ held (mem_defaultLookups.mpr ⟨lookup, member, default, rfl⟩)
    rw [← stands.script_eq] at serves
    obtain ⟨tagged, fits⟩ := serves.resolve_left foreign
    exact ⟨lookup, member, rfl, Bool.eq_false_iff.mpr foreign, tagged,
      (kernFeature_eq_iff known).mpr fits⟩
  · rintro ⟨lookup, member, rfl, foreign, tagged, fits⟩
    obtain ⟨half, matched⟩ := KernSetting.exists_row_of_mem_lookups member
    have serves : half.1.ServedBy feature tag := by
      rw [← (KernSetting.of_mem_rows matched).2.2.script_eq]
      exact .inr ⟨tagged, (kernFeature_eq_iff known).mp fits⟩
    refine (List.mem_append.mp (served.mpr ⟨half, lookup, matched, rfl, serves⟩)).resolve_left ?_
    intro early
    obtain ⟨other, otherMember, default, same⟩ := mem_defaultLookups.mp early
    rw [KernSetting.lookup_eq_of_name_eq otherMember member same, foreign] at default
    cases default

/-- The lookups among the added statements are those that were drafted. -/
theorem mem_visit_allAdditions_iff {name : String} {body : List Statement} :
    .block .lookup name body ∈ visit (writer.allAdditions context file) ↔
      ∃ lookup ∈ writer.lookups context file, lookup.statement = .block .lookup name body := by
  rw [allAdditions, KernSetting.visit_additions, List.mem_append, List.mem_append,
    List.mem_append, List.mem_flatMap]
  constructor
  · rintro (((named | empty) | ⟨lookup, member, found⟩) | featured)
    · obtain ⟨row, -, wrong⟩ := KernClassNames.mem_definitions.mp named
      cases wrong
    · cases List.mem_singleton.mp empty
    · rcases List.mem_cons.mp found with same | inside
      · exact ⟨lookup, member, same.symm⟩
      · rcases KernSetting.of_mem_body_of_mem_lookups member inside with
          ⟨_, wrong⟩ | ⟨_, wrong⟩ | ⟨_, wrong⟩
        · cases wrong
        · cases wrong
        · cases wrong
    · rcases KernSetting.of_mem_visit_blocks featured with
        ⟨_, _, wrong, -⟩ | wrong | ⟨_, wrong⟩ | ⟨_, wrong⟩ | ⟨_, wrong, -⟩
      · cases wrong
      · cases wrong
      · cases wrong
      · cases wrong
      · cases wrong
  · rintro ⟨lookup, member, same⟩
    exact .inl (.inr ⟨lookup, member, same ▸ List.mem_cons_self⟩)

theorem registers_allAdditions (writer : KernWriter) (context : LayoutContext α)
    (file : FeatureFile) :
    Registers (writer.lookups context file) (writer.allAdditions context file) where
  added_iff _ _ := mem_visit_allAdditions_iff
  referred lookup member := by
    cases default : lookup.script.isDefault with
    | true => exact ⟨"kern", by decide, defaultScriptTag, refersUnder_default member default⟩
    | false =>
        obtain ⟨tag, tagged⟩ := List.exists_mem_of_ne_nil _ lookup.script.layoutTags_ne_nil
        refine ⟨lookup.script.kernFeature, ?_, tag, refersUnder_own member default tagged⟩
        unfold Script.kernFeature
        split <;> decide
  refers name listed := by
    have known := KernSetting.lookupUses_additions listed (List.mem_singleton_self name)
    rw [(KernSetting.defined_additions _ _ _ _).1] at known
    exact List.mem_map.mp known
  own _ member own _ tagged := refersUnder_own member own tagged
  default _ member default := refersUnder_default member default
  sections feature body listed := by
    obtain ⟨registration, same, made⟩ := exists_registration listed
    refine ⟨?_, ?_, ?_, fun tag names opened => sectionLists listed opened⟩
    · rcases made with ⟨rfl, -⟩ | ⟨rfl, -⟩ <;> decide
    · rw [same, scriptSections_statements]
    · rw [same, scriptSections_statements]
      exact registration.distinct

/-- A file that the writer changes, while it may write both features, gets the lookups of its
scripts and features that register each of them where its script is kerned. -/
theorem lookups_registered {written : Written α} (wrote : writer.write context file = .ok written)
    (changed : written.wrote = true)
    (free : writer.overlap = .append ∨
      file.hasFeature "kern" = false ∧ file.hasFeature "dist" = false) :
    ∃ added, written.file = file.append added ∧
      Registers (writer.lookups context file) added ∧
      ∀ lookup ∈ writer.lookups context file, ∃ marked names,
        (writer.kernSetting context file).LookupFor names (lookup.script, marked) lookup := by
  have step : writer.quantization ≠ 0 := fun zero => by
    rw [write, if_pos zero] at wrote
    cases wrote
  obtain ⟨notices, same⟩ := @write_eq_appending α _ writer context file step
  rw [same] at wrote
  have wanted : wantedFeatures writer.overlap file features = features := by
    rcases free with always | ⟨noKern, noDist⟩
    · rw [always]
      rfl
    · unfold wantedFeatures
      split
      · rfl
      · simp [features, noKern, noDist]
  refine ⟨writer.allAdditions context file, ?_, registers_allAdditions writer context file,
    fun lookup member => ?_⟩
  · rcases statements_cases writer context file with none | some
    · rw [none] at wrote
      have unchanged : written.wrote = false := by
        rw [← Except.ok.inj wrote]
        rfl
      rw [unchanged] at changed
      cases changed
    · rw [some, wanted, ← allAdditions] at wrote
      rw [← Except.ok.inj wrote, Written.file_appending]
  · obtain ⟨⟨script, marked⟩, matched⟩ := KernSetting.exists_row_of_mem_lookups member
    obtain ⟨-, -, stands⟩ := KernSetting.of_mem_rows matched
    have same : lookup.script = script := stands.script_eq
    rw [same]
    exact ⟨marked, _, stands⟩

end KernWriter

end Written

/-- A letter of a script that is kerned by distances, and a hyphen of every script. -/
def devanagariFont : Font Rat where
  glyphs := .ofList [{ name := "ka", width := 700, height := 0, codepoints := [0x915] },
    { name := "hyphen", width := 300, height := 0, codepoints := [0x2D] }]
  kerning := .ofList [(("ka", "ka"), -20), (("hyphen", "hyphen"), -10)]

/-- The font with its characters read from the built-in tables. -/
def devanagariContext : LayoutContext Rat where
  view := devanagariFont.whole
  characters := .builtin
  map := devanagariFont.whole.characterMap.toOption.getD ∅

theorem lookups_registered_devanagariContext :
    (KernWriter.lookups {} devanagariContext {}).map KernLookup.name = ["kern_Deva", "kern_Zyyy"] ∧
      ∃ written, KernWriter.write {} devanagariContext {} = .ok written ∧ written.wrote = true ∧
        ∃ added, written.file = FeatureFile.append added {} ∧
          Registers (KernWriter.lookups {} devanagariContext {}) added ∧
          ∀ lookup ∈ KernWriter.lookups {} devanagariContext {}, ∃ marked names,
            (KernWriter.kernSetting {} devanagariContext {}).LookupFor names
              (lookup.script, marked) lookup := by
  have found : (KernWriter.write {} devanagariContext {}).toOption.any
      (fun written => written.wrote) = true := by
    decide +kernel
  obtain ⟨written, wrote, changed⟩ := exists_ok_of_any found
  exact ⟨by decide +kernel, written, wrote, changed,
    KernWriter.lookups_registered wrote changed (.inr ⟨rfl, rfl⟩)⟩

end FontCompiler
