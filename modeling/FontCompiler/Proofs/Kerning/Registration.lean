import FontCompiler.Proofs.Kerning.Precedence
import FontCompiler.Proofs.Kerning.Written

/-!
# The lookups of each script

Every tag of a kerning feature has the lookups of the default scripts and those
of the scripts that it stands for. So two lookups of one tag both kern two
glyphs just when the kerning of two such scripts covers them.
-/

namespace FontCompiler

/-! ## Registrations -/

namespace Registration

/-- Whether a lookup is registered under a tag. -/
def Lists (registration : Registration) (tag : Tag) (name : String) : Prop :=
  ∃ names, registration.get? tag = some names ∧ name ∈ names

/-- Whether every tag that has lookups has some given ones. -/
def Includes (registration : Registration) (shared : List String) : Prop :=
  ∀ tag names, registration.get? tag = some names → ∀ name ∈ shared, name ∈ names

theorem not_lists_empty {tag : Tag} {name : String} : ¬ Lists ∅ tag name := by
  rintro ⟨names, found, -⟩
  cases found

theorem includes_empty (shared : List String) : Includes ∅ shared := by
  intro tag names found
  cases found

theorem mem_merged {listed lookups : List String} {name : String} :
    name ∈ lookups.foldl (fun merged lookup =>
      if merged.contains lookup then merged else merged ++ [lookup]) listed ↔
        name ∈ listed ∨ name ∈ lookups := by
  induction lookups generalizing listed with
  | nil => simp
  | cons lookup rest ih =>
      rw [List.foldl_cons, ih, List.mem_cons]
      split
      · next old =>
          have held : lookup ∈ listed := List.contains_iff_mem.mp old
          constructor
          · exact Or.imp_right .inr
          · rintro (early | rfl | late)
            · exact .inl early
            · exact .inl held
            · exact .inr late
      · rw [List.mem_append, List.mem_singleton, or_assoc]

variable {registration : Registration} {tag other : Tag} {lookups shared : List String}
  {name : String}

theorem lists_add : (registration.add tag lookups).Lists other name ↔
    registration.Lists other name ∨ tag = other ∧ name ∈ lookups := by
  unfold Lists add
  rw [OrderedMap.get?_alter]
  by_cases same : tag = other
  · subst same
    rw [if_pos rfl]
    simp only [Option.some.injEq, exists_eq_left', mem_merged, true_and]
    cases registration.get? tag with
    | none => simp
    | some names => simp
  · rw [if_neg same]
    simp [same]

theorem includes_add (includes : registration.Includes shared) (covers : shared ⊆ lookups) :
    (registration.add tag lookups).Includes shared := by
  intro other names found name listed
  unfold add at found
  rw [OrderedMap.get?_alter] at found
  split at found
  · cases found
    exact mem_merged.mpr (.inr (covers listed))
  · exact includes other names found name listed

theorem lists_foldl_add {tags : List Tag} :
    (tags.foldl (fun current tag => current.add tag lookups) registration).Lists other name ↔
      registration.Lists other name ∨ other ∈ tags ∧ name ∈ lookups := by
  induction tags generalizing registration with
  | nil => simp
  | cons tag rest ih =>
      rw [List.foldl_cons, ih, lists_add, List.mem_cons, or_assoc, ← or_and_right, eq_comm]

theorem includes_foldl_add {tags : List Tag} (includes : registration.Includes shared)
    (covers : shared ⊆ lookups) :
    (tags.foldl (fun current tag => current.add tag lookups) registration).Includes shared := by
  induction tags generalizing registration with
  | nil => exact includes
  | cons tag rest ih =>
      rw [List.foldl_cons]
      exact ih (includes_add includes covers)

end Registration

/-! ## The lookups under a tag -/

theorem mem_lookupsOfScript {lookups : List KernLookup} {script : Script} {name : String} :
    name ∈ lookupsOfScript lookups script ↔
      ∃ lookup ∈ lookups, lookup.script = script ∧ lookup.name = name := by
  simp [lookupsOfScript, and_assoc]

theorem mem_defaultLookups {lookups : List KernLookup} {name : String} :
    name ∈ defaultLookups lookups ↔
      ∃ lookup ∈ lookups, lookup.script.isDefault = true ∧ lookup.name = name := by
  unfold defaultLookups
  simp only [List.mem_flatMap, mem_lookupsOfScript]
  constructor
  · rintro ⟨script, default, lookup, listed, rfl, rfl⟩
    exact ⟨lookup, listed, List.contains_iff_mem.mpr default, rfl⟩
  · rintro ⟨lookup, listed, default, rfl⟩
    exact ⟨lookup.script, List.contains_iff_mem.mp default, lookup, listed, rfl, rfl⟩

section Scripts

variable {lookups : List KernLookup} {registration : Registration} {tag : Tag} {name : String}

theorem lists_registerScript {script : Script} :
    (registerScript lookups registration script).Lists tag name ↔
      registration.Lists tag name ∨ tag ∈ script.layoutTags ∧
        (name ∈ defaultLookups lookups ∨ name ∈ lookupsOfScript lookups script) := by
  unfold registerScript
  dsimp only
  rw [← List.mem_append]
  split
  · next none =>
      rw [List.isEmpty_iff.mp none]
      simp
  · exact Registration.lists_foldl_add

theorem includes_registerScript (includes : registration.Includes (defaultLookups lookups))
    (script : Script) :
    (registerScript lookups registration script).Includes (defaultLookups lookups) := by
  unfold registerScript
  dsimp only
  split
  · exact includes
  · exact Registration.includes_foldl_add includes (List.subset_append_left _ _)

theorem lists_foldl_registerScript {scripts : List Script} :
    (scripts.foldl (registerScript lookups) registration).Lists tag name ↔
      registration.Lists tag name ∨ ∃ script ∈ scripts, tag ∈ script.layoutTags ∧
        (name ∈ defaultLookups lookups ∨ name ∈ lookupsOfScript lookups script) := by
  induction scripts generalizing registration with
  | nil => simp
  | cons script rest ih =>
      rw [List.foldl_cons, ih, lists_registerScript, List.exists_mem_cons_iff, or_assoc]

theorem includes_foldl_registerScript (includes : registration.Includes (defaultLookups lookups))
    (scripts : List Script) :
    (scripts.foldl (registerScript lookups) registration).Includes (defaultLookups lookups) := by
  induction scripts generalizing registration with
  | nil => exact includes
  | cons script rest ih =>
      rw [List.foldl_cons]
      exact ih (includes_registerScript includes script)

/-- Under each tag stand the default lookups and those of the scripts registered there. -/
theorem mem_of_foldl_registerScript {scripts : List Script}
    (includes : registration.Includes (defaultLookups lookups))
    (defaults : ∀ name, registration.Lists tag name → name ∈ defaultLookups lookups)
    {names : List String}
    (found : (scripts.foldl (registerScript lookups) registration).get? tag = some names) :
    name ∈ names ↔ name ∈ defaultLookups lookups ∨
      ∃ script ∈ scripts, tag ∈ script.layoutTags ∧ name ∈ lookupsOfScript lookups script := by
  have lists : (scripts.foldl (registerScript lookups) registration).Lists tag name ↔
      name ∈ names := by
    unfold Registration.Lists
    rw [found]
    simp
  rw [← lists, lists_foldl_registerScript]
  constructor
  · rintro (start | ⟨script, listed, tagged, default | own⟩)
    · exact .inl (defaults name start)
    · exact .inl default
    · exact .inr ⟨script, listed, tagged, own⟩
  · rintro (default | ⟨script, listed, tagged, own⟩)
    · rw [← lists_foldl_registerScript, lists]
      exact includes_foldl_registerScript includes scripts tag names found name default
    · exact .inr ⟨script, listed, tagged, .inr own⟩

/-- Whether a feature kerns a script under a tag. -/
def Script.ServedBy (script : Script) (feature : String) (tag : Tag) : Prop :=
  script.isDefault = true ∨
    tag ∈ script.layoutTags ∧ (script ∈ Script.distanceKerned ↔ feature = "dist")

theorem mem_lookups_of_feature {scripts : SortedSet Script} {feature : String}
    (made : feature = "kern" ∧ registration = kernRegistration lookups scripts ∨
      feature = "dist" ∧ registration = distanceRegistration lookups scripts)
    {names : List String} (found : registration.get? tag = some names) :
    name ∈ names ↔ name ∈ defaultLookups lookups ∨ ∃ script ∈ scripts,
      tag ∈ script.layoutTags ∧ (script ∈ Script.distanceKerned ↔ feature = "dist") ∧
        name ∈ lookupsOfScript lookups script := by
  rcases made with ⟨rfl, rfl⟩ | ⟨rfl, rfl⟩
  · unfold kernRegistration at found
    dsimp only at found
    rw [mem_of_foldl_registerScript ?includes ?defaults found]
    case includes =>
      split
      · exact Registration.includes_empty _
      · exact Registration.includes_add (Registration.includes_empty _) (List.Subset.refl _)
    case defaults =>
      intro name listed
      split at listed
      · exact absurd listed Registration.not_lists_empty
      · rcases Registration.lists_add.mp listed with none | ⟨-, default⟩
        · exact absurd none Registration.not_lists_empty
        · exact default
    simp only [List.mem_filter, Bool.not_eq_true', List.contains_eq_mem, decide_eq_false_iff_not,
      SortedSet.mem_def]
    grind
  · unfold distanceRegistration at found
    rw [mem_of_foldl_registerScript (Registration.includes_empty _)
      (fun name listed => absurd listed Registration.not_lists_empty) found]
    simp only [List.mem_filter, List.contains_eq_mem, decide_eq_true_eq, SortedSet.mem_def]
    grind

end Scripts

/-! ## Sections -/

theorem scriptSections_references (names : List String) (tags : List Tag) {rest : List Statement}
    {sections : List (Tag × List String)} (after : scriptSections rest = ([], sections)) :
    scriptSections (names.map .lookupReference ++ (tags.map .language ++ rest)) =
      (names, sections) := by
  induction names with
  | nil =>
      induction tags with
      | nil => exact after
      | cons tag tags ih => exact ih
  | cons name names ih =>
      rw [List.map_cons, List.cons_append, scriptSections, ih]

/-- A feature opens one section for each tag, with the lookups of the tag. -/
theorem scriptSections_statements (languages : OrderedMap Tag (List Tag))
    (registration : Registration) :
    scriptSections (registration.statements languages) = ([], registration.entries) := by
  unfold Registration.statements
  induction registration.entries with
  | nil => rfl
  | cons entry entries ih =>
      rw [List.flatMap_cons, Registration.tagStatements, List.append_assoc, List.append_assoc]
      have references := scriptSections_references entry.2
        (((languages.get? entry.1).getD []).filter fun language => language != defaultLanguageTag)
        ih
      simp only [List.cons_append, List.nil_append, scriptSections, references]

/-! ## The lookups of a section -/

section Kerning

variable {α : Type} [Coordinate α] {writer : KernWriter} {context : LayoutContext α}
  {file : FeatureFile}

omit [Coordinate α] in
/-- No glyph has the unknown script, since its characters count as common. -/
theorem ne_unknown_of_mem_scriptsByGlyph {glyph : GlyphName} {script : Script}
    (uses : script ∈ (context.scriptsByGlyph file).of glyph) : script ≠ .unknown := by
  unfold ScriptsByGlyph.of at uses
  have fallback : script ∈ SortedSet.singleton Script.common → script ≠ .unknown := by
    intro common
    rw [SortedSet.mem_singleton.mp common]
    decide
  split at uses
  · next known found =>
      split at uses
      · exact fallback uses
      · rw [LayoutContext.scriptsByGlyph, keysByGlyph, SortedMap.find?_tabulate] at found
        obtain ⟨-, same⟩ := Option.ite_none_right_eq_some.mp found
        rw [← Option.some.inj same, SortedSet.mem_ofList] at uses
        obtain ⟨⟨key, glyphs⟩, kept, rfl⟩ := List.mem_map.mp uses
        obtain ⟨used, -⟩ := SortedMap.mem_entries_tabulate.mp (List.mem_filter.mp kept).1
        obtain ⟨entry, -, classed⟩ := List.mem_flatMap.mp (SortedSet.mem_ofList.mp used)
        obtain ⟨extension, -, same⟩ := List.mem_map.mp classed
        dsimp only
        rw [← same]
        split
        · decide
        · next other => exact other
  · exact fallback uses

/-- Whether the font's kerning covers two glyphs in a script, by a pair that is left there. -/
def KernWriter.KernsIn (writer : KernWriter) (context : LayoutContext α) (file : FeatureFile)
    (script : Script) (first second : GlyphName) : Prop :=
  (writer.kernSetting context file).Kerns
    (script, hasMark (writer.marks context file) first second) first second

/-- A half covers two glyphs only if it is their half of a script in which they meet. -/
theorem of_kerns {half : KernHalf} {first second : GlyphName}
    (kerned : (writer.kernSetting context file).Kerns half first second) :
    writer.KernsIn context file half.1 first second ∧
      half.2 = hasMark (writer.marks context file) first second ∧
      (context.scriptsByGlyph file).Meet first second half.1 := by
  obtain ⟨pair, kept, covered⟩ := kerned
  have member := (List.mem_filter.mp kept).1
  rw [bucket_kernSetting] at member
  obtain ⟨-, marked, meet⟩ := (kerns_halfBucket (labelsAgree_resolvedPairs context.view.kerning)).mp
    ⟨pair, member, covered, rfl, rfl⟩
  refine ⟨?_, marked.symm, meet⟩
  rw [KernWriter.KernsIn, marked]
  exact ⟨pair, kept, covered⟩

omit [Coordinate α] in
theorem ne_unknown_of_meet {first second : GlyphName} {script : Script}
    (meet : (context.scriptsByGlyph file).Meet first second script) : script ≠ .unknown := by
  obtain ⟨firstScript, firstUses, secondScript, secondUses, shared⟩ := meet
  cases shared with
  | same => exact ne_unknown_of_mem_scriptsByGlyph firstUses
  | takesFirst default => exact ne_unknown_of_mem_scriptsByGlyph firstUses
  | takesSecond default other => exact ne_unknown_of_mem_scriptsByGlyph secondUses

omit [Coordinate α] in
theorem mem_knownScripts {languages : OrderedMap Tag (List Tag)} {scripts : SortedSet Script}
    {script : Script} (listed : script ∈ scripts) (own : script.isDefault = false)
    (known : script ≠ .unknown) :
    script ∈ knownScripts (context.scriptsByGlyph file) languages scripts := by
  unfold knownScripts
  rw [SortedSet.mem_filter, SortedSet.mem_ofList, own]
  exact ⟨List.mem_append_right _ listed, by simpa using known⟩

/-- A half with a pair left covers some glyphs. -/
theorem exists_kerns_of_mem_halves {half : KernHalf}
    (listed : half ∈ (writer.kernSetting context file).halves) :
    ∃ first second, (writer.kernSetting context file).Kerns half first second := by
  obtain ⟨pair, kept⟩ := List.exists_mem_of_ne_nil _ (KernSetting.mem_halves.mp listed)
  have member := (List.mem_filter.mp kept).1
  rw [bucket_kernSetting, halfBucket, findD_splitByScript] at member
  obtain ⟨-, -, -, -, -, -, firsts, seconds⟩ := shared_of_mem_scriptBucket member
  obtain ⟨first, firstListed⟩ := List.exists_mem_of_ne_nil _ firsts
  obtain ⟨second, secondListed⟩ := List.exists_mem_of_ne_nil _ seconds
  exact ⟨first, second, pair, kept, firstListed, secondListed⟩

omit [Coordinate α] in
theorem mem_scripts_of_mem_halves {setting : KernSetting α} {half : KernHalf}
    (listed : half ∈ setting.halves) : half.1 ∈ setting.scripts := by
  obtain ⟨script, member, home⟩ := List.mem_flatMap.mp listed
  rw [KernSetting.script_of_mem_halvesOf home]
  exact member

/-- A section refers to the lookups of the scripts that its feature serves under its tag. -/
theorem mem_section_iff {features : List String} {feature : String} {body : List Statement}
    (listed : .block .feature feature body ∈
      (writer.kernSetting context file).additions context file features)
    {tag : Tag} {names : List String} (opened : (tag, names) ∈ (scriptSections body).2)
    {name : String} :
    name ∈ names ↔ ∃ half lookup, (half, lookup) ∈ (writer.kernSetting context file).rows file ∧
      lookup.name = name ∧ half.1.ServedBy feature tag := by
  rcases KernSetting.mem_additions.mp listed with named | empty | ⟨lookup, -, wrong⟩ | featured
  · obtain ⟨row, -, wrong⟩ := KernClassNames.mem_definitions.mp named
    cases wrong
  · cases empty
  · cases wrong
  · obtain ⟨_, registration, same, made⟩ := KernSetting.of_mem_blocks featured
    cases same
    rw [scriptSections_statements] at opened
    rw [mem_lookups_of_feature made (OrderedMap.get?_eq_some_iff.mpr opened), mem_defaultLookups]
    simp only [mem_lookupsOfScript]
    constructor
    · rintro (⟨lookup, member, default, rfl⟩ |
        ⟨script, -, tagged, served, lookup, member, rfl, rfl⟩)
      · obtain ⟨half, matched⟩ := KernSetting.exists_row_of_mem_lookups member
        rw [(KernSetting.of_mem_rows matched).2.2.script_eq] at default
        exact ⟨half, lookup, matched, rfl, .inl default⟩
      · obtain ⟨half, matched⟩ := KernSetting.exists_row_of_mem_lookups member
        rw [(KernSetting.of_mem_rows matched).2.2.script_eq] at tagged served
        exact ⟨half, lookup, matched, rfl, .inr ⟨tagged, served⟩⟩
    · rintro ⟨half, lookup, matched, rfl, served⟩
      obtain ⟨kept, member, stands⟩ := KernSetting.of_mem_rows matched
      cases default : half.1.isDefault with
      | true => exact .inl ⟨lookup, member, by rw [stands.script_eq, default], rfl⟩
      | false =>
          obtain ⟨tagged, fits⟩ := served.resolve_left (by rw [default]; exact Bool.false_ne_true)
          obtain ⟨first, second, kerned⟩ := exists_kerns_of_mem_halves kept
          have known : half.1 ≠ .unknown := ne_unknown_of_meet (of_kerns kerned).2.2
          exact .inr ⟨half.1, mem_knownScripts (mem_scripts_of_mem_halves kept) default known,
            tagged, fits, lookup, member, stands.script_eq, rfl⟩

/-- Two lookups that a section refers to never both kern two glyphs exactly when
the scripts served there never both do. -/
theorem lookupsKern_unique_iff {written : Written α}
    (wrote : writer.write context file = .ok written) {feature : String} {body : List Statement}
    (listed : .block .feature feature body ∈ written.file.statements.drop file.statements.length)
    {tag : Tag} {names : List String} (opened : (tag, names) ∈ (scriptSections body).2)
    (first second : GlyphName) :
    (∀ name ∈ names, ∀ other ∈ names, written.file.LookupKerns name first second →
      written.file.LookupKerns other first second → name = other) ↔
    ∀ script other : Script, script.ServedBy feature tag → other.ServedBy feature tag →
      writer.KernsIn context file script first second →
      writer.KernsIn context file other first second → script = other := by
  rcases KernSetting.additions_of_write wrote with same | ⟨features, same⟩
  · rw [same, List.drop_length] at listed
    cases listed
  rw [same, FeatureFile.append, List.drop_left] at listed
  have kerns : ∀ {half lookup}, (half, lookup) ∈ (writer.kernSetting context file).rows file →
      (written.file.LookupKerns lookup.name first second ↔
        (writer.kernSetting context file).Kerns half first second) := by
    intro half lookup matched
    rw [same]
    exact KernSetting.lookupKerns_iff_kerns matched
  constructor
  · intro alone script other served otherServed kerned otherKerned
    have kept : ∀ {script}, writer.KernsIn context file script first second →
        (script, hasMark (writer.marks context file) first second) ∈
          (writer.kernSetting context file).halves := by
      rintro script ⟨pair, left, -⟩
      exact KernSetting.mem_halves.mpr (List.ne_nil_of_mem left)
    obtain ⟨lookup, matched⟩ := KernSetting.exists_row_of_mem_halves (kept kerned)
    obtain ⟨otherLookup, otherMatched⟩ := KernSetting.exists_row_of_mem_halves (kept otherKerned)
    obtain ⟨-, member, stands⟩ := KernSetting.of_mem_rows matched
    obtain ⟨-, otherMember, otherStands⟩ := KernSetting.of_mem_rows otherMatched
    have names : lookup.name = otherLookup.name := alone _
      ((mem_section_iff listed opened).mpr ⟨_, lookup, matched, rfl, served⟩) _
      ((mem_section_iff listed opened).mpr ⟨_, otherLookup, otherMatched, rfl, otherServed⟩)
      ((kerns matched).mpr kerned) ((kerns otherMatched).mpr otherKerned)
    calc script = lookup.script := stands.script_eq.symm
      _ = otherLookup.script := by rw [KernSetting.lookup_eq_of_name_eq member otherMember names]
      _ = other := otherStands.script_eq
  · rintro alone name nameListed other otherListed kerned otherKerned
    obtain ⟨half, lookup, matched, rfl, served⟩ := (mem_section_iff listed opened).mp nameListed
    obtain ⟨otherHalf, otherLookup, otherMatched, rfl, otherServed⟩ :=
      (mem_section_iff listed opened).mp otherListed
    obtain ⟨kernsIn, marked, -⟩ := of_kerns ((kerns matched).mp kerned)
    obtain ⟨otherKernsIn, otherMarked, -⟩ := of_kerns ((kerns otherMatched).mp otherKerned)
    have halves : half = otherHalf := Prod.ext
      (alone _ _ served otherServed kernsIn otherKernsIn) (marked.trans otherMarked.symm)
    subst halves
    rw [KernSetting.lookup_eq_of_half_eq matched otherMatched]

end Kerning

/-- The prolonged sound mark, which both kana scripts use, kerned with itself. -/
def prolongedFont : Font Rat where
  glyphs := .ofList [{ name := "prolonged", width := 1000, height := 0, codepoints := [0x30FC] }]
  kerning := .ofList [(("prolonged", "prolonged"), -20)]

/-- The font with its characters read from the built-in tables. -/
def prolongedContext : LayoutContext Rat where
  view := prolongedFont.whole
  characters := .builtin
  map := prolongedFont.whole.characterMap.toOption.getD ∅

/-- Both kana scripts have one tag, where both of their lookups kern the mark. -/
theorem exists_section_prolongedContext :
    ∃ written body tag names name other,
      KernWriter.write {} prolongedContext {} = .ok written ∧
        .block .feature "kern" body ∈ written.file.statements ∧
        (tag, names) ∈ (scriptSections body).2 ∧ name ∈ names ∧ other ∈ names ∧ name ≠ other ∧
        written.file.LookupKerns name "prolonged" "prolonged" ∧
        written.file.LookupKerns other "prolonged" "prolonged" := by
  have found : (KernWriter.write {} prolongedContext {}).toOption.any (fun written =>
      written.file.statements.any fun statement =>
        (statement.body? .feature "kern").any fun body => (scriptSections body).2.any fun row =>
          row.2.any fun name => row.2.any fun other => decide (name ≠ other ∧
            written.file.LookupKerns name "prolonged" "prolonged" ∧
            written.file.LookupKerns other "prolonged" "prolonged")) = true := by
    decide +kernel
  obtain ⟨written, wrote, passed⟩ := exists_ok_of_any found
  obtain ⟨statement, listed, doubled⟩ := List.any_eq_true.mp passed
  obtain ⟨body, isFeature, doubled⟩ := (Option.any_eq_true _ _).mp doubled
  cases Statement.eq_block_of_body? isFeature
  obtain ⟨⟨tag, names⟩, opened, twice⟩ := List.any_eq_true.mp doubled
  obtain ⟨name, nameListed, twice⟩ := List.any_eq_true.mp twice
  obtain ⟨other, otherListed, twice⟩ := List.any_eq_true.mp twice
  obtain ⟨apart, kerned, otherKerned⟩ := of_decide_eq_true twice
  exact ⟨written, body, tag, names, name, other, wrote, listed, opened, nameListed, otherListed,
    apart, kerned, otherKerned⟩

theorem lookupsKern_prolongedContext :
    ∃ written body tag names, KernWriter.write {} prolongedContext {} = .ok written ∧
      .block .feature "kern" body ∈ written.file.statements.drop 0 ∧
      (tag, names) ∈ (scriptSections body).2 ∧
      ((∀ name ∈ names, ∀ other ∈ names,
        written.file.LookupKerns name "prolonged" "prolonged" →
        written.file.LookupKerns other "prolonged" "prolonged" → name = other) ↔
      ∀ script other : Script, script.ServedBy "kern" tag → other.ServedBy "kern" tag →
        KernWriter.KernsIn {} prolongedContext {} script "prolonged" "prolonged" →
        KernWriter.KernsIn {} prolongedContext {} other "prolonged" "prolonged" →
        script = other) := by
  obtain ⟨written, body, tag, names, -, -, wrote, listed, opened, -⟩ :=
    exists_section_prolongedContext
  exact ⟨written, body, tag, names, wrote, listed, opened,
    lookupsKern_unique_iff wrote listed opened "prolonged" "prolonged"⟩

/-- Scripts that share a tag can each kern two glyphs there. -/
theorem not_forall_lookupsKern_unique :
    ¬ ∀ (writer : KernWriter) (context : LayoutContext Rat) (file : FeatureFile)
      (written : Written Rat), file.hasFeature "kern" = false → file.hasFeature "dist" = false →
      writer.write context file = .ok written → ∀ feature ∈ ["kern", "dist"], ∀ body,
      .block .feature feature body ∈ written.file.statements →
      ∀ tag names, (tag, names) ∈ (scriptSections body).2 → ∀ first second,
      ∀ name ∈ names, ∀ other ∈ names, written.file.LookupKerns name first second →
        written.file.LookupKerns other first second → name = other := by
  intro alone
  obtain ⟨written, body, tag, names, name, other, wrote, listed, opened, nameListed, otherListed,
    apart, kerned, otherKerned⟩ := exists_section_prolongedContext
  exact apart (alone {} prolongedContext {} written rfl rfl wrote "kern" List.mem_cons_self body
    listed tag names opened _ _ name nameListed other otherListed kerned otherKerned)

end FontCompiler
