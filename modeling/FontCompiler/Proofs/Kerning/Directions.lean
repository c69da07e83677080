import FontCompiler.Proofs.Kerning.Written

/-!
# Kerning without mixed directions

A lookup leaves out the pairs that mix directions. It then gives two glyphs the
value of the closest listing that some pair still stands for, which need not be
their closest listing: a pair that is left out for the sake of other members of
a group uncovers the listings behind it.
-/

namespace FontCompiler

variable {α : Type} [Coordinate α]

/-- Whether a pair left in a half names two glyphs in a given way. -/
def KernSetting.Keeps (setting : KernSetting α) (half : KernHalf) (first second : GlyphName)
    (level : Bool × Bool) : Prop :=
  ∃ pair ∈ setting.keptPairs half, pair.Covers first second ∧ pair.level = level

instance (setting : KernSetting α) (half : KernHalf) (first second : GlyphName)
    (level : Bool × Bool) : Decidable (setting.Keeps half first second level) :=
  inferInstanceAs (Decidable (∃ pair ∈ _, _))

/-- The value of the listing that names two glyphs most closely, among those
that the pairs left in a half stand for. -/
def KernSetting.keptValue? (setting : KernSetting α) (half : KernHalf) (groups : KerningGroups)
    (kerning : KerningTable α) (first second : GlyphName) : Option α :=
  KerningPair.levels.findSome? fun level =>
    if setting.Keeps half first second level then groups.listedValue? kerning first second level
    else none

section Values

variable {writer : KernWriter} {context : LayoutContext α} {file : FeatureFile} {half : KernHalf}
  {first second : GlyphName}

theorem listedValue?_of_mem_keptPairs {pair : KerningPair α}
    (listed : pair ∈ (writer.kernSetting context file).keptPairs half)
    (covered : pair.Covers first second) :
    context.kernGroups.listedValue? context.view.kerning first second pair.level =
      some pair.value := by
  have member := (List.mem_filter.mp listed).1
  rw [bucket_kernSetting] at member
  exact listedValue?_of_mem_halfBucket member covered

/-- The first pair left in a half that covers two glyphs has the value of the
closest listing that is kept. -/
theorem value_find?_keptPairs :
    (((writer.kernSetting context file).keptPairs half).find? fun pair =>
      decide (pair.Covers first second)).map KerningPair.value =
        (writer.kernSetting context file).keptValue? half context.kernGroups context.view.kerning
          first second := by
  have sorted : ((writer.kernSetting context file).keptPairs half).Pairwise
      fun pair other => (pair.order other).isLE = true := by
    rw [KernSetting.keptPairs, bucket_kernSetting]
    exact pairwise_halfBucket.sublist List.filter_sublist
  refine KerningPair.value_find?_eq_findSome?_levels sorted fun level value => ?_
  constructor
  · rintro ⟨pair, listed, covered, rfl, rfl⟩
    rw [if_pos ⟨pair, listed, covered, rfl⟩]
    exact listedValue?_of_mem_keptPairs listed covered
  · intro found
    obtain ⟨⟨pair, listed, covered, rfl⟩, same⟩ := Option.ite_none_right_eq_some.mp found
    rw [listedValue?_of_mem_keptPairs listed covered] at same
    exact ⟨pair, listed, covered, rfl, Option.some.inj same⟩

/-- What is kept is listed. -/
theorem closestValue?_of_keptValue? {groups : KerningGroups} {kerning : KerningTable α}
    {setting : KernSetting α} {kept : α}
    (found : setting.keptValue? half groups kerning first second = some kept) :
    ∃ closest, groups.closestValue? kerning first second = some closest := by
  obtain ⟨level, listed, value⟩ := List.exists_of_findSome?_eq_some found
  obtain ⟨-, same⟩ := Option.ite_none_right_eq_some.mp value
  apply Option.isSome_iff_exists.mp
  rw [KerningGroups.closestValue?, List.findSome?_isSome_iff]
  exact ⟨level, listed, by rw [same]; rfl⟩

/-- The lookups that are written are those of the halves with a pair left. -/
theorem exists_half_of_written {written : Written α}
    (wrote : writer.write context file = .ok written) {name : String} {body : List Statement}
    (listed : .block .lookup name body ∈ written.file.statements.drop file.statements.length) :
    ∃ half, (∃ taken, name = half.freshName taken) ∧ ∀ first second,
      written.file.lookupValue? body first second =
        ((writer.kernSetting context file).keptValue? half context.kernGroups
          context.view.kerning first second).map fun value =>
            nearestMultiple value writer.quantization := by
  rcases KernSetting.additions_of_write wrote with same | ⟨features, same⟩
  · rw [same, List.drop_length] at listed
    cases listed
  · rw [same, FeatureFile.append, List.drop_left] at listed
    rcases KernSetting.mem_additions.mp listed with
      named | empty | ⟨lookup, member, rows⟩ | featured
    · obtain ⟨row, -, wrong⟩ := KernClassNames.mem_definitions.mp named
      cases wrong
    · cases empty
    · cases rows
      obtain ⟨half, matched⟩ := KernSetting.exists_row_of_mem_lookups member
      have stands := (KernSetting.of_mem_rows matched).2.2
      refine ⟨half, stands.name_eq, fun first second => ?_⟩
      rw [same, ← value_find?_keptPairs, Option.map_map]
      exact KernSetting.lookupValue?_of_lookupFor stands first second
    · obtain ⟨_, _, wrong, -⟩ := KernSetting.of_mem_blocks featured
      cases wrong

end Values

/-- Whether a half of the font's kerning gives two glyphs the value of another
listing than their closest one, which its pairs no longer stand for. -/
def KernWriter.FallsBack (writer : KernWriter) (context : LayoutContext α) (file : FeatureFile)
    (half : KernHalf) (first second : GlyphName) : Prop :=
  ∃ closest kept,
    context.kernGroups.closestValue? context.view.kerning first second = some closest ∧
    (writer.kernSetting context file).keptValue? half context.kernGroups context.view.kerning
      first second = some kept ∧
    nearestMultiple kept writer.quantization ≠ nearestMultiple closest writer.quantization

/-- A lookup that is written gives two glyphs the value of the closest listing
that its half keeps, so it gives them no other value than that of their closest
listing unless the half falls back. -/
theorem lookupValue?_eq_closestValue?_iff {writer : KernWriter} {context : LayoutContext α}
    {file : FeatureFile} {written : Written α} (wrote : writer.write context file = .ok written)
    {name : String} {body : List Statement}
    (listed : .block .lookup name body ∈ written.file.statements.drop file.statements.length) :
    ∃ half, (∃ taken, name = half.freshName taken) ∧ ∀ first second,
      written.file.lookupValue? body first second =
        ((writer.kernSetting context file).keptValue? half context.kernGroups
          context.view.kerning first second).map (nearestMultiple · writer.quantization) ∧
      ((∀ value, written.file.lookupValue? body first second = some value →
        (context.kernGroups.closestValue? context.view.kerning first second).map
          (nearestMultiple · writer.quantization) = some value) ↔
        ¬ writer.FallsBack context file half first second) := by
  obtain ⟨half, named, values⟩ := exists_half_of_written wrote listed
  refine ⟨half, named, fun first second => ⟨values first second, ?_⟩⟩
  rw [values first second]
  constructor
  · rintro agrees ⟨closest, kept, closestFound, keptFound, differ⟩
    rw [keptFound, closestFound] at agrees
    exact differ (Option.some.inj (agrees _ rfl)).symm
  · intro faithful value found
    obtain ⟨kept, keptFound, rfl⟩ := Option.map_eq_some_iff.mp found
    obtain ⟨closest, closestFound⟩ := closestValue?_of_keptValue? keptFound
    rw [closestFound]
    by_contra differ
    exact faithful ⟨closest, kept, closestFound, keptFound, fun same => differ (by
      rw [Option.map_some, same])⟩

/-- Three Arabic characters, of which the figure one runs from left to right. -/
def figureFont : Font Rat where
  glyphs := .ofList
    [{ name := "alef-ar", width := 300, height := 0, codepoints := [0x0627] },
      { name := "beh-ar", width := 700, height := 0, codepoints := [0x0628] },
      { name := "one-ar", width := 500, height := 0, codepoints := [0x0661] }]
  groups := .ofList
    [("public.kern1.alef", ["alef-ar"]), ("public.kern2.beh", ["beh-ar", "one-ar"])]
  kerning := .ofList [(("alef-ar", "public.kern2.beh"), 10), (("public.kern1.alef", "beh-ar"), 20)]

/-- The font with its characters read from the built-in tables. -/
def figureContext : LayoutContext Rat where
  view := figureFont.whole
  characters := .builtin
  map := figureFont.whole.characterMap.toOption.getD ∅

/-- The lookup of the font with the Arabic figure kerns letters by the value behind
the exception that the figure takes along. -/
theorem exists_lookup_figureContext :
    ∃ written name body, KernWriter.write {} figureContext {} = .ok written ∧
      .block .lookup name body ∈ written.file.statements ∧
      written.file.lookupValue? body "alef-ar" "beh-ar" = some 20 := by
  have found : (KernWriter.write {} figureContext {}).toOption.any (fun written =>
      written.file.statements.any fun statement =>
        (statement.body? .lookup "kern_Arab").any fun body =>
          decide (written.file.lookupValue? body "alef-ar" "beh-ar" = some 20)) = true := by
    decide +kernel
  obtain ⟨written, wrote, passed⟩ := exists_ok_of_any found
  obtain ⟨statement, listed, kerned⟩ := List.any_eq_true.mp passed
  obtain ⟨body, isLookup, kerned⟩ := (Option.any_eq_true _ _).mp kerned
  cases Statement.eq_block_of_body? isLookup
  exact ⟨written, "kern_Arab", body, wrote, listed, of_decide_eq_true kerned⟩

theorem lookupValue?_figureContext :
    ∃ written name body, KernWriter.write {} figureContext {} = .ok written ∧
      .block .lookup name body ∈ written.file.statements.drop 0 ∧
      ∃ half, (∃ taken, name = half.freshName taken) ∧
        written.file.lookupValue? body "alef-ar" "beh-ar" =
          ((KernWriter.kernSetting {} figureContext {}).keptValue? half figureContext.kernGroups
            figureContext.view.kerning "alef-ar" "beh-ar").map (nearestMultiple · 1) ∧
        ((∀ value, written.file.lookupValue? body "alef-ar" "beh-ar" = some value →
          (figureContext.kernGroups.closestValue? figureContext.view.kerning "alef-ar"
            "beh-ar").map (nearestMultiple · 1) = some value) ↔
          ¬ KernWriter.FallsBack {} figureContext {} half "alef-ar" "beh-ar") := by
  obtain ⟨written, name, body, wrote, listed, -⟩ := exists_lookup_figureContext
  obtain ⟨half, named, values⟩ := lookupValue?_eq_closestValue?_iff wrote listed
  exact ⟨written, name, body, wrote, listed, half, named, values "alef-ar" "beh-ar"⟩

/-- Pairs that mix directions uncover listings behind them. -/
theorem not_forall_lookupValue?_eq_closestValue? :
    ¬ ∀ (writer : KernWriter) (context : LayoutContext Rat) (file : FeatureFile)
      (written : Written Rat), file.hasFeature "kern" = false → file.hasFeature "dist" = false →
      writer.write context file = .ok written → ∀ name body,
      .block .lookup name body ∈ written.file.statements.drop file.statements.length →
      ∀ first second value, written.file.lookupValue? body first second = some value →
        (context.kernGroups.closestValue? context.view.kerning first second).map
          (nearestMultiple · writer.quantization) = some value := by
  intro faithful
  obtain ⟨written, name, body, wrote, listed, kerned⟩ := exists_lookup_figureContext
  have closest := faithful {} figureContext {} written rfl rfl wrote name body listed _ _ _ kerned
  have different : (figureContext.kernGroups.closestValue? figureContext.view.kerning "alef-ar"
      "beh-ar").map (nearestMultiple · 1) = some 10 := by
    decide +kernel
  rw [different] at closest
  cases closest

end FontCompiler
