import FontCompiler.Feature.Text
import FontCompiler.Proofs.Attachment.MarkLookups
import FontCompiler.Proofs.Substitution.Derivation

/-!
# Cursive lookups partition the glyphs

A suffix joins glyphs when there is an entry with it and an exit. Each glyph that has one of
the two then stands in exactly one rule for the suffix. Where the suffix does not say which way
its lookup runs, the glyphs that are derived from those encoded in scripts from left to right
have a lookup apart from the others.
-/

namespace FontCompiler

open Statement

/-- One of some values with distinct keys, found again by its key. -/
theorem filter_eq_singleton_of_nodup {α κ : Type} [DecidableEq κ] {key : α → κ}
    {values : List α} {value : α} (distinct : (values.map key).Nodup) (listed : value ∈ values) :
    values.filter (fun other => decide (key other = key value)) = [value] := by
  induction values with
  | nil => cases listed
  | cons first rest ih =>
      obtain ⟨apart, later⟩ := List.nodup_cons.mp distinct
      rcases List.mem_cons.mp listed with rfl | further
      · have none : rest.filter (fun other => decide (key other = key value)) = [] := by
          refine List.filter_eq_nil_iff.mpr fun other held => ?_
          rw [decide_eq_true_iff]
          exact fun same => apart (same ▸ List.mem_map_of_mem held)
        rw [List.filter_cons_of_pos (by simp), none]
      · have other : key first ≠ key value := fun same =>
          apart (same ▸ List.mem_map_of_mem further)
        rw [List.filter_cons_of_neg (by simpa using other), ih later further]

/-! ## What the lookups of a suffix must be -/

section Specification

variable {α : Type}

/-- Whether a suffix has an entry on some glyph and an exit on some glyph. -/
def FontView.JoinsBy (view : FontView α) (suffix : Option String) : Prop :=
  (∃ glyph ∈ view.glyphs.entries, ∃ anchor ∈ glyph.anchors,
      anchor.role? = some (.entry suffix)) ∧
    ∃ glyph ∈ view.glyphs.entries, ∃ anchor ∈ glyph.anchors, anchor.role? = some (.exit suffix)

/-- Whether the glyph has an entry or an exit with a suffix. -/
def Glyph.isJoined (suffix : Option String) (glyph : Glyph α) : Bool :=
  glyph.anchors.any fun anchor =>
    decide (anchor.role? = some (.entry suffix)) || decide (anchor.role? = some (.exit suffix))

/-- The glyphs with an entry or an exit with a suffix, in glyph order. -/
def FontView.joinedGlyphs (view : FontView α) (suffix : Option String) : List (Glyph α) :=
  view.glyphsInOrder.filter (Glyph.isJoined suffix)

/-- Whether substitutions derive a glyph from those encoded in scripts from left to right. -/
def LayoutContext.LeftToRight (context : LayoutContext α) (file : FeatureFile)
    (glyph : GlyphName) : Prop :=
  Derivable file.substitutions (fun encoded => ∃ codepoint,
    context.map.find? codepoint = some encoded ∧
      context.characters.scriptDirection codepoint = .leftToRight) glyph

/-- Whether a suffix is a word, or ends in a point and the word. -/
def SaysDirection (word : String) (suffix : Option String) : Prop :=
  ∃ text, suffix = some text ∧ (text = word ∨ ∃ stem, text = stem ++ "." ++ word)

/-- Whether a suffix has a lookup for each direction: it says none itself, and there are glyphs
of scripts that run from left to right. -/
def LayoutContext.Divides (context : LayoutContext α) (file : FeatureFile)
    (suffix : Option String) : Prop :=
  ¬ SaysDirection "LTR" suffix ∧ ¬ SaysDirection "RTL" suffix ∧
    ∃ glyph, context.LeftToRight file glyph

/-- Whether a statement is a cursive rule of a glyph. -/
def Statement.isCursiveOf (glyph : GlyphName) : Statement → Bool
  | .position (.cursive other _ _) => decide (other = glyph)
  | _ => false

variable [Coordinate α]

/-- Whether a place is that of the first anchor with a role, each coordinate at the nearest
whole number and a half going up, or missing where there is no such anchor. -/
def Glyph.HasFirst (glyph : Glyph α) (role : AnchorRole) : Option Place → Prop
  | none => ∀ anchor ∈ glyph.anchors, anchor.role? ≠ some role
  | some place => ∃ before anchor after, glyph.anchors = before ++ anchor :: after ∧
      anchor.role? = some role ∧ (∀ earlier ∈ before, earlier.role? ≠ some role) ∧
        place.x = Coordinate.toInt32 (Coordinate.floor (anchor.position.x + Coordinate.half)) ∧
        place.y = Coordinate.toInt32 (Coordinate.floor (anchor.position.y + Coordinate.half))

/-- Whether a statement joins a glyph by its first entry and its first exit with a suffix. -/
def IsCursiveRule (suffix : Option String) (glyph : Glyph α) (rule : Statement) : Prop :=
  ∃ entry exit, glyph.HasFirst (.entry suffix) entry ∧ glyph.HasFirst (.exit suffix) exit ∧
    rule = .position (.cursive glyph.name entry exit)

/-- Whether some statements are one lookup with rules, one for each of some glyphs, or none
where there are no glyphs. -/
def AreCursiveRules (suffix : Option String) (rightToLeft : Bool) (glyphs : List (Glyph α))
    (lookups : List Statement) : Prop :=
  glyphs = [] ∧ lookups = [] ∨
    ∃ name rules, rules ≠ [] ∧
      lookups = [.block .lookup name
        (.lookupFlag { rightToLeft := rightToLeft, ignoreMarks := true } :: rules)] ∧
        List.Forall₂ (IsCursiveRule suffix) glyphs rules

end Specification

/-! ## Glyphs of scripts that run from left to right -/

section Directions

variable {α : Type} {context : LayoutContext α} {file : FeatureFile} {glyph : GlyphName}

theorem LayoutContext.mem_leftToRightGlyphs :
    glyph ∈ context.leftToRightGlyphs file ↔ context.LeftToRight file glyph := by
  let directions := fun codepoint => [context.characters.scriptDirection codepoint]
  have given : (fun encoded => ∃ codepoint, context.map.find? codepoint = some encoded ∧
      context.characters.scriptDirection codepoint = .leftToRight) =
        (· ∈ encodedGlyphs directions context.map .leftToRight) := by
    funext encoded
    rw [mem_encodedGlyphs]
    simp only [CharacterMap.HasKey, directions, List.mem_singleton, eq_comm]
  unfold leftToRightGlyphs classesBy LeftToRight
  rw [given]
  by_cases listed : .leftToRight ∈
      (closedClasses directions context.map file.substitutions).keys
  · rw [SortedMap.findD_of_find?_eq_some (find?_closedClasses listed), mem_closeGlyphs]
  · have missing : (closedClasses directions context.map file.substitutions).findD
        .leftToRight ∅ = ∅ := by
      by_contra found
      exact listed (SortedMap.mem_keys_of_findD_ne found)
    rw [missing]
    refine iff_of_false SortedSet.not_mem_empty fun derivable => ?_
    obtain ⟨encoded, held⟩ := derivable.exists_given
    obtain ⟨codepoint, mapped, directed⟩ := mem_encodedGlyphs.mp held
    exact listed (mem_keys_closedClasses.mpr ⟨codepoint, encoded, mapped, directed⟩)

theorem LayoutContext.isEmpty_leftToRightGlyphs :
    (context.leftToRightGlyphs file).isEmpty = true ↔ ∀ glyph, ¬ context.LeftToRight file glyph := by
  rw [SortedSet.isEmpty, List.isEmpty_iff, List.eq_nil_iff_forall_not_mem]
  exact forall_congr' fun glyph => not_congr mem_leftToRightGlyphs

instance (context : LayoutContext α) (file : FeatureFile) (glyph : GlyphName) :
    Decidable (context.LeftToRight file glyph) :=
  decidable_of_iff _ LayoutContext.mem_leftToRightGlyphs

end Directions

/-! ## Rules of glyphs -/

section Rules

variable {α : Type} [Coordinate α] {view : FontView α} {suffix : Option String}
  {rightToLeft : Bool} {glyphs : List (Glyph α)} {glyph : Glyph α} {lookups : List Statement}

theorem Anchor.entrySuffix?_eq_some_iff {α : Type} {anchor : Anchor α} {suffix : Option String} :
    anchor.entrySuffix? = some suffix ↔ anchor.role? = some (.entry suffix) := by
  unfold entrySuffix?
  split
  · next same => simp [same]
  · next other => simpa using other suffix

theorem Anchor.exitSuffix?_eq_some_iff {α : Type} {anchor : Anchor α} {suffix : Option String} :
    anchor.exitSuffix? = some suffix ↔ anchor.role? = some (.exit suffix) := by
  unfold exitSuffix?
  split
  · next same => simp [same]
  · next other => simpa using other suffix

theorem Glyph.hasFirst_find? (glyph : Glyph α) (role : AnchorRole) :
    glyph.HasFirst role ((glyph.anchors.find? fun anchor =>
      decide (anchor.role? = some role)).map Anchor.roundedPlace) := by
  cases found : glyph.anchors.find? fun anchor => decide (anchor.role? = some role) with
  | none =>
      intro anchor listed
      simpa using List.find?_eq_none.mp found anchor listed
  | some anchor =>
      obtain ⟨isRole, before, after, same, earlier⟩ := List.find?_eq_some_iff_append.mp found
      exact ⟨before, anchor, after, same, by simpa using isRole,
        fun other listed => by simpa using earlier other listed, rfl, rfl⟩

theorem Glyph.hasFirst_entry? (suffix : Option String) (glyph : Glyph α) :
    glyph.HasFirst (.entry suffix) (glyph.entry? suffix) := by
  unfold entry?
  simp only [Anchor.entrySuffix?_eq_some_iff]
  exact glyph.hasFirst_find? _

theorem Glyph.hasFirst_exit? (suffix : Option String) (glyph : Glyph α) :
    glyph.HasFirst (.exit suffix) (glyph.exit? suffix) := by
  unfold exit?
  simp only [Anchor.exitSuffix?_eq_some_iff]
  exact glyph.hasFirst_find? _

/-- A glyph has a place for a role exactly when it has an anchor with the role. -/
theorem Glyph.HasFirst.isSome_iff {role : AnchorRole} {place : Option Place}
    (first : glyph.HasFirst role place) :
    place.isSome = true ↔ ∃ anchor ∈ glyph.anchors, anchor.role? = some role := by
  cases place with
  | none => exact iff_of_false nofun fun ⟨anchor, listed, same⟩ => first anchor listed same
  | some place =>
      obtain ⟨before, anchor, after, same, isRole, -⟩ := first
      refine iff_of_true rfl ⟨anchor, ?_, isRole⟩
      rw [same]
      exact List.mem_append_right _ List.mem_cons_self

theorem Glyph.isJoined_iff : glyph.isJoined suffix = true ↔
    (glyph.entry? suffix).isSome = true ∨ (glyph.exit? suffix).isSome = true := by
  rw [(glyph.hasFirst_entry? suffix).isSome_iff, (glyph.hasFirst_exit? suffix).isSome_iff]
  simp only [isJoined, List.any_eq_true, Bool.or_eq_true, decide_eq_true_iff, ← exists_or,
    ← and_or_left]

/-- The rule of a glyph joins it by its first entry and exit. -/
theorem cursiveRule?_of_isJoined (joined : glyph.isJoined suffix = true) :
    ∃ rule, cursiveRule? suffix glyph = some rule ∧ IsCursiveRule suffix glyph rule := by
  refine ⟨.position (.cursive glyph.name (glyph.entry? suffix) (glyph.exit? suffix)), ?_,
    _, _, glyph.hasFirst_entry? suffix, glyph.hasFirst_exit? suffix, rfl⟩
  rw [Glyph.isJoined_iff] at joined
  unfold cursiveRule?
  split
  · next noEntry noExit => simp [noEntry, noExit] at joined
  · rfl

theorem cursiveRule?_of_not_isJoined (apart : glyph.isJoined suffix = false) :
    cursiveRule? suffix glyph = none := by
  have neither := Glyph.isJoined_iff.not.mp (Bool.not_eq_true _ ▸ apart)
  simp only [not_or, Option.not_isSome_iff_eq_none] at neither
  rw [cursiveRule?, neither.1, neither.2]

/-- The lookup of some glyphs has a rule for each of them that is joined. -/
theorem areCursiveRules_cursiveLookup (name : String) (suffix : Option String)
    (direction : Direction) (glyphs : List (Glyph α)) :
    AreCursiveRules suffix (decide (direction ≠ .leftToRight))
      (glyphs.filter (Glyph.isJoined suffix)) (cursiveLookup name suffix direction glyphs) := by
  have related : List.Forall₂ (IsCursiveRule suffix) (glyphs.filter (Glyph.isJoined suffix))
      (glyphs.filterMap (cursiveRule? suffix)) :=
    forall₂_filter_filterMap (fun glyph _ joined => cursiveRule?_of_isJoined joined)
      fun glyph _ apart => cursiveRule?_of_not_isJoined apart
  unfold cursiveLookup
  dsimp only
  split
  · next none =>
      rw [List.isEmpty_iff.mp none, List.forall₂_nil_right_iff] at related
      exact .inl ⟨related, rfl⟩
  · next some =>
      exact .inr ⟨name, _, fun none => some (List.isEmpty_iff.mpr none), rfl, related⟩

theorem AreCursiveRules.eq_singleton (rules : AreCursiveRules suffix rightToLeft glyphs lookups)
    (some : glyphs ≠ []) : ∃ lookup, lookups = [lookup] := by
  rcases rules with ⟨none, -⟩ | ⟨name, made, -, same, -⟩
  · exact absurd none some
  · exact ⟨_, same⟩

/-- In a lookup of some glyphs, the rules of those with a name are found by the name. -/
theorem AreCursiveRules.filter (rules : AreCursiveRules suffix rightToLeft glyphs lookups)
    (name : GlyphName) :
    List.Forall₂ (IsCursiveRule suffix) (glyphs.filter fun glyph => decide (glyph.name = name))
      ((lookups.flatMap children).filter (isCursiveOf name)) := by
  rcases rules with ⟨rfl, rfl⟩ | ⟨lookupName, rules, -, rfl, related⟩
  · exact .nil
  · have flagged : ([.block .lookup lookupName (.lookupFlag
        { rightToLeft := rightToLeft, ignoreMarks := true } :: rules)].flatMap children).filter
          (isCursiveOf name) = rules.filter (isCursiveOf name) := by
      rw [List.flatMap_singleton]
      exact List.filter_cons_of_neg nofun
    rw [flagged]
    refine List.rel_filter (fun glyph rule isRule => ?_) related
    obtain ⟨entry, exit, -, -, rfl⟩ := isRule
    exact Iff.rfl

end Rules

/-! ## Lookups of suffixes -/

section Suffixes

variable {α : Type} {context : LayoutContext α} {file : FeatureFile} {suffix : Option String}
  {lookups : List Statement}

/-- Whether some lookups are those of a suffix in a file. Each glyph that the suffix joins has
one rule in them. They are one lookup, or one for the glyphs of scripts from left to right and
another for the rest, each left out where it would have no rules. -/
structure SuffixLookups [Coordinate α] (context : LayoutContext α) (file : FeatureFile)
    (suffix : Option String) (lookups : List Statement) : Prop where
  once : ∀ glyph ∈ context.view.glyphs.entries, glyph.isJoined suffix = true →
    ∃ rule, (lookups.flatMap children).filter (isCursiveOf glyph.name) = [rule] ∧
      IsCursiveRule suffix glyph rule
  single : ¬ context.Divides file suffix → ∃ lookup rightToLeft, lookups = [lookup] ∧
    (rightToLeft = false ↔ SaysDirection "LTR" suffix) ∧
      AreCursiveRules suffix rightToLeft (context.view.joinedGlyphs suffix) lookups
  divided : context.Divides file suffix → ∃ first second, lookups = first ++ second ∧
    AreCursiveRules suffix false ((context.view.joinedGlyphs suffix).filter fun glyph =>
      decide (context.LeftToRight file glyph.name)) first ∧
    AreCursiveRules suffix true ((context.view.joinedGlyphs suffix).filter fun glyph =>
      decide (¬ context.LeftToRight file glyph.name)) second

theorem exists_anchor_iff {view : FontView α} {role : AnchorRole} :
    (∃ anchor ∈ view.glyphsInOrder.flatMap Glyph.anchors, anchor.role? = some role) ↔
      ∃ glyph ∈ view.glyphs.entries, ∃ anchor ∈ glyph.anchors, anchor.role? = some role := by
  constructor
  · rintro ⟨anchor, listed, same⟩
    obtain ⟨glyph, ordered, carried⟩ := List.mem_flatMap.mp listed
    exact ⟨glyph, FontView.mem_glyphsInOrder_iff_mem_entries.mp ordered, anchor, carried, same⟩
  · rintro ⟨glyph, listed, anchor, carried, same⟩
    have ordered := FontView.mem_glyphsInOrder_iff_mem_entries.mpr listed
    exact ⟨anchor, List.mem_flatMap.mpr ⟨glyph, ordered, carried⟩, same⟩

/-- The suffixes that have lookups are those with an entry and an exit. -/
theorem mem_joinedSuffixes :
    suffix ∈ joinedSuffixes context.view.glyphsInOrder ↔ context.view.JoinsBy suffix := by
  unfold joinedSuffixes FontView.JoinsBy
  rw [← exists_anchor_iff, ← exists_anchor_iff, ← SortedSet.mem_def, SortedSet.mem_filter,
    SortedSet.mem_ofList, List.contains_iff_mem, List.mem_filterMap, List.mem_filterMap]
  simp only [Anchor.entrySuffix?_eq_some_iff, Anchor.exitSuffix?_eq_some_iff]

theorem nodup_names_joinedGlyphs (view : FontView α) (suffix : Option String) :
    ((view.joinedGlyphs suffix).map Glyph.name).Nodup :=
  view.nodup_names_glyphsInOrder.sublist (List.filter_sublist.map _)

theorem FontView.JoinsBy.exists_isJoined {view : FontView α} (joins : view.JoinsBy suffix) :
    ∃ glyph ∈ view.glyphs.entries, glyph.isJoined suffix = true := by
  obtain ⟨⟨glyph, listed, anchor, carried, isEntry⟩, -⟩ := joins
  exact ⟨glyph, listed, List.any_eq_true.mpr ⟨anchor, carried, by simp [isEntry]⟩⟩

theorem mem_joinedGlyphs {view : FontView α} {glyph : Glyph α} :
    glyph ∈ view.joinedGlyphs suffix ↔
      glyph ∈ view.glyphs.entries ∧ glyph.isJoined suffix = true := by
  rw [FontView.joinedGlyphs, List.mem_filter, FontView.mem_glyphsInOrder_iff_mem_entries]

theorem saysDirection_some_iff {word text : String} : SaysDirection word (some text) ↔
    text = word ∨ ("." ++ word).toList.isSuffixOf text.toList = true := by
  simp only [SaysDirection, Option.some.injEq, exists_eq_left', List.isSuffixOf_iff_suffix]
  refine or_congr_right ⟨?_, ?_⟩
  · rintro ⟨stem, rfl⟩
    exact ⟨stem.toList, by simp⟩
  · rintro ⟨stem, same⟩
    refine ⟨String.ofList stem, String.toList_injective ?_⟩
    simpa using same.symm

/-- A suffix pins its lookup to a direction where it says the word of the direction. -/
theorem suffixDirection?_eq_leftToRight_iff :
    suffixDirection? suffix = some .leftToRight ↔ SaysDirection "LTR" suffix := by
  cases suffix with
  | none => exact iff_of_false nofun nofun
  | some text =>
      rw [saysDirection_some_iff]
      unfold suffixDirection?
      dsimp only
      split
      · next said => exact iff_of_true rfl said
      · next unsaid =>
          refine iff_of_false (fun same => ?_) unsaid
          split at same <;> cases same

theorem suffixDirection?_eq_none_iff : suffixDirection? suffix = none ↔
    ¬ SaysDirection "LTR" suffix ∧ ¬ SaysDirection "RTL" suffix := by
  cases suffix with
  | none => exact iff_of_true rfl ⟨nofun, nofun⟩
  | some text =>
      rw [saysDirection_some_iff, saysDirection_some_iff]
      unfold suffixDirection?
      dsimp only
      split
      · next said => exact iff_of_false nofun fun unsaid => unsaid.1 said
      · next unsaid =>
          split
          · next said => exact iff_of_false nofun fun unsaid => unsaid.2 said
          · next unsaidToo => exact iff_of_true rfl ⟨unsaid, unsaidToo⟩

theorem LayoutContext.divides_iff : ((suffixDirection? suffix).isNone &&
    !(context.leftToRightGlyphs file).isEmpty) = true ↔ context.Divides file suffix := by
  rw [Bool.and_eq_true_iff, Option.isNone_iff_eq_none, suffixDirection?_eq_none_iff,
    Bool.not_eq_true', ← Bool.not_eq_true, isEmpty_leftToRightGlyphs, not_forall_not, and_assoc]
  rfl

variable [Coordinate α]

/-- Some rules of glyphs that make up the joined ones have one rule for each of these. -/
theorem exists_rule_of_parts {parts : List (Glyph α)}
    (same : parts.Perm (context.view.joinedGlyphs suffix))
    (related : ∀ name, List.Forall₂ (IsCursiveRule suffix)
      (parts.filter fun glyph => decide (glyph.name = name))
      ((lookups.flatMap children).filter (isCursiveOf name))) :
    ∀ glyph ∈ context.view.glyphs.entries, glyph.isJoined suffix = true →
      ∃ rule, (lookups.flatMap children).filter (isCursiveOf glyph.name) = [rule] ∧
        IsCursiveRule suffix glyph rule := by
  intro glyph listed joined
  have one : parts.filter (fun other => decide (other.name = glyph.name)) = [glyph] := by
    rw [← List.perm_singleton, ← filter_eq_singleton_of_nodup (nodup_names_joinedGlyphs _ suffix)
      (mem_joinedGlyphs.mpr ⟨listed, joined⟩)]
    exact same.filter _
  have isRule := related glyph.name
  rw [one] at isRule
  obtain ⟨rule, rest, isRule, none, same⟩ := List.forall₂_cons_left_iff.mp isRule
  rw [List.forall₂_nil_left_iff.mp none] at same
  exact ⟨rule, same, isRule⟩

/-- A lookup of all glyphs of a suffix runs from left to right only where the suffix says so. -/
theorem getD_suffixDirection?_eq_leftToRight_iff :
    (suffixDirection? suffix).getD .rightToLeft = .leftToRight ↔ SaysDirection "LTR" suffix := by
  rw [← suffixDirection?_eq_leftToRight_iff]
  cases suffixDirection? suffix with
  | none => exact iff_of_false nofun nofun
  | some direction => simp

theorem suffixLookups_single (joins : context.view.JoinsBy suffix)
    (whole : ¬ context.Divides file suffix) (name : String) :
    SuffixLookups context file suffix (cursiveLookup name suffix
      ((suffixDirection? suffix).getD .rightToLeft) context.view.glyphsInOrder) := by
  have rules := areCursiveRules_cursiveLookup name suffix
    ((suffixDirection? suffix).getD .rightToLeft) context.view.glyphsInOrder
  refine ⟨exists_rule_of_parts (.refl _) rules.filter, fun _ => ?_,
    fun divides => absurd divides whole⟩
  obtain ⟨glyph, joined⟩ := joins.exists_isJoined
  obtain ⟨lookup, one⟩ := rules.eq_singleton (List.ne_nil_of_mem (mem_joinedGlyphs.mpr joined))
  refine ⟨lookup, _, one, ?_, rules⟩
  rw [decide_eq_false_iff_not, not_not, getD_suffixDirection?_eq_leftToRight_iff]

theorem suffixLookups_divided (divides : context.Divides file suffix) (first second : String) :
    SuffixLookups context file suffix
      (cursiveLookup first suffix .leftToRight (context.view.glyphsInOrder.filter fun glyph =>
          decide (context.LeftToRight file glyph.name)) ++
        cursiveLookup second suffix .rightToLeft (context.view.glyphsInOrder.filter fun glyph =>
          decide (¬ context.LeftToRight file glyph.name))) := by
  have before := areCursiveRules_cursiveLookup first suffix .leftToRight
    (context.view.glyphsInOrder.filter fun glyph =>
      decide (context.LeftToRight file glyph.name))
  have after := areCursiveRules_cursiveLookup second suffix .rightToLeft
    (context.view.glyphsInOrder.filter fun glyph =>
      decide (¬ context.LeftToRight file glyph.name))
  rw [List.filter_comm, ← FontView.joinedGlyphs] at before after
  have parts := List.filter_append_perm
    (fun glyph => decide (context.LeftToRight file glyph.name)) (context.view.joinedGlyphs suffix)
  simp only [← decide_not] at parts
  refine ⟨exists_rule_of_parts parts fun name => ?_, fun whole => absurd divides whole,
    fun _ => ⟨_, _, rfl, before, after⟩⟩
  rw [List.flatMap_append, List.filter_append, List.filter_append]
  exact List.rel_append (before.filter name) (after.filter name)

/-- The planned lookups of a suffix that joins glyphs are those of the suffix. -/
theorem suffixLookups_ofSuffix (taken : SortedSet String)
    (joins : context.view.JoinsBy suffix) :
    SuffixLookups context file suffix (CursivePlan.lookups taken
      (CursivePlan.ofSuffix context.view.glyphsInOrder (context.leftToRightGlyphs file)
        suffix)) := by
  unfold CursivePlan.ofSuffix
  dsimp only
  split
  · next divides =>
      rw [LayoutContext.divides_iff] at divides
      simp only [CursivePlan.lookups, CursivePlan.lookup, List.append_nil,
        LayoutContext.mem_leftToRightGlyphs]
      exact suffixLookups_divided divides _ _
  · next whole =>
      rw [LayoutContext.divides_iff] at whole
      simp only [CursivePlan.lookups, CursivePlan.lookup, List.append_nil]
      exact suffixLookups_single joins whole _

/-- The lookups of suffixes that join glyphs are those of each suffix in turn. -/
theorem exists_groups (context : LayoutContext α) (file : FeatureFile) (taken : SortedSet String)
    {suffixes : List (Option String)} (joins : ∀ suffix ∈ suffixes, context.view.JoinsBy suffix) :
    ∃ groups, List.Forall₂ (SuffixLookups context file) suffixes groups ∧
      CursivePlan.lookups taken (suffixes.flatMap (CursivePlan.ofSuffix
        context.view.glyphsInOrder (context.leftToRightGlyphs file))) = groups.flatten := by
  -- The names that the lookups of one suffix take are taken for those of the next.
  induction suffixes generalizing taken with
  | nil => exact ⟨[], .nil, rfl⟩
  | cons suffix rest ih =>
      obtain ⟨groups, related, same⟩ := ih (CursivePlan.takenAfter taken (CursivePlan.ofSuffix
        context.view.glyphsInOrder (context.leftToRightGlyphs file) suffix))
          fun other listed => joins other (List.mem_cons_of_mem _ listed)
      refine ⟨_, .cons (suffixLookups_ofSuffix taken (joins suffix List.mem_cons_self)) related,
        ?_⟩
      rw [List.flatMap_cons, CursivePlan.lookups_append, same, List.flatten_cons]

/-- A suffix that joins glyphs has a lookup. -/
theorem SuffixLookups.ne_nil (made : SuffixLookups context file suffix lookups)
    (joins : context.view.JoinsBy suffix) : lookups ≠ [] := by
  obtain ⟨glyph, listed, joined⟩ := joins.exists_isJoined
  obtain ⟨rule, one, -⟩ := made.once glyph listed joined
  rintro rfl
  cases one

theorem flatten_ne_nil_iff {suffixes : List (Option String)} {groups : List (List Statement)}
    (joins : ∀ suffix ∈ suffixes, context.view.JoinsBy suffix)
    (related : List.Forall₂ (SuffixLookups context file) suffixes groups) :
    groups.flatten ≠ [] ↔ suffixes ≠ [] := by
  cases related with
  | nil => simp
  | cons first rest =>
      have some := first.ne_nil (joins _ List.mem_cons_self)
      simp [some]

end Suffixes

/-! ## The feature -/

namespace CursiveWriter

variable {α : Type} [Coordinate α]

/-- The cursive feature has the lookups of each suffix with an entry and an exit, where it is
wanted and there is such a suffix. -/
theorem partitions_glyphs (writer : CursiveWriter) (context : LayoutContext α)
    (file : FeatureFile) :
    ∃ body, (writer.write context file).file = file.append (featureBlock "curs" body) ∧
      (writer.write context file).wrote = !body.isEmpty ∧
      (body ≠ [] ↔ "curs" ∈ wantedFeatures writer.overlap file features ∧
        ∃ suffix, context.view.JoinsBy suffix) ∧
      (body ≠ [] → ∃ suffixes groups, suffixes.Nodup ∧
        (∀ suffix, suffix ∈ suffixes ↔ context.view.JoinsBy suffix) ∧
          List.Forall₂ (SuffixLookups context file) suffixes groups ∧
            body = groups.flatten) := by
  obtain ⟨notices, written⟩ := @write_eq_appending α _ writer context file
  by_cases wanted : "curs" ∈ wantedFeatures writer.overlap file features
  · have joins : ∀ suffix ∈ joinedSuffixes context.view.glyphsInOrder,
        context.view.JoinsBy suffix := fun suffix => mem_joinedSuffixes.mp
    obtain ⟨groups, related, same⟩ := exists_groups context file file.lookupNames joins
    have added : writer.additions context file = featureBlock "curs" groups.flatten := by
      unfold additions featureBlock plans
      rw [if_neg fun none => List.ne_nil_of_mem wanted (List.isEmpty_iff.mp none), same]
    refine ⟨groups.flatten, ?_, ?_, ?_,
      fun _ => ⟨_, groups, SortedSet.nodup _, fun suffix => mem_joinedSuffixes, related, rfl⟩⟩
    · rw [written, Written.file_appending, added]
    · rw [written, added]
      unfold Written.appending featureBlock
      cases groups.flatten <;> rfl
    · rw [flatten_ne_nil_iff joins related, and_iff_right wanted, ne_eq,
        List.eq_nil_iff_forall_not_mem, not_forall_not]
      exact exists_congr fun suffix => mem_joinedSuffixes
  · have none : writer.additions context file = [] := by
      by_contra some
      exact wanted (additions_ne_nil_iff.mp some).1
    refine ⟨[], ?_, ?_, iff_of_false (· rfl) fun held => wanted held.1, fun some => absurd rfl some⟩
    · rw [written, Written.file_appending, none]
      rfl
    · rw [written, none]
      rfl

end CursiveWriter

/-- Letters that run both ways. One suffix pins its direction, and one has no exit. -/
def joiningFont : Font Rat where
  glyphs := .ofList [
    { name := "beh", width := 700, height := 0, codepoints := [0x628],
      anchors := [⟨some "exit", ⟨3 / 2, -5 / 2⟩⟩, ⟨some "exit.x.LTR", ⟨0, 1 / 4⟩⟩] },
    { name := "a", width := 500, height := 0, codepoints := [0x61],
      anchors := [⟨some "entry", ⟨21 / 2, -1 / 2⟩⟩, ⟨some "exit", ⟨1999 / 4, 0⟩⟩,
        ⟨some "entry", ⟨9, 9⟩⟩, ⟨some "entry.lone", ⟨1, 1⟩⟩] },
    { name := "a.alt", width := 500, height := 0,
      anchors := [⟨some "entry", ⟨12, 3 / 4⟩⟩, ⟨some "entry.x.LTR", ⟨7, 7⟩⟩] }]

def joiningContext : LayoutContext Rat where
  view := joiningFont.whole
  characters := .builtin
  map := joiningFont.whole.characterMap.toOption.getD ∅

/-- A file that derives a glyph without a codepoint. -/
def joiningFile : FeatureFile where
  statements := [.substitution (.single ["a"] ["a.alt"])]

theorem partitions_glyphs_joiningContext :
    (CursiveWriter.write {} joiningContext joiningFile).file.text = "\n".intercalate [
      "sub a by a.alt;",
      "feature curs \x7b",
      "    lookup curs_ltr \x7b",
      "        lookupflag IgnoreMarks;",
      "        pos cursive a <anchor 11 0> <anchor 500 0>;",
      "        pos cursive a.alt <anchor 12 1> <anchor NULL>;",
      "    \x7d curs_ltr;",
      "    lookup curs_rtl \x7b",
      "        lookupflag RightToLeft IgnoreMarks;",
      "        pos cursive beh <anchor NULL> <anchor 2 -2>;",
      "    \x7d curs_rtl;",
      "    lookup curs_x.LTR \x7b",
      "        lookupflag IgnoreMarks;",
      "        pos cursive a.alt <anchor 7 7> <anchor NULL>;",
      "        pos cursive beh <anchor NULL> <anchor 0 0>;",
      "    \x7d curs_x.LTR;",
      "\x7d curs;",
      ""] ∧
      joiningContext.Divides joiningFile none ∧
      ∃ body, (CursiveWriter.write {} joiningContext joiningFile).file =
          joiningFile.append (featureBlock "curs" body) ∧
        (CursiveWriter.write {} joiningContext joiningFile).wrote = !body.isEmpty ∧
        (body ≠ [] ↔ "curs" ∈ wantedFeatures .skip joiningFile CursiveWriter.features ∧
          ∃ suffix, joiningContext.view.JoinsBy suffix) ∧
        (body ≠ [] → ∃ suffixes groups, suffixes.Nodup ∧
          (∀ suffix, suffix ∈ suffixes ↔ joiningContext.view.JoinsBy suffix) ∧
            List.Forall₂ (SuffixLookups joiningContext joiningFile) suffixes groups ∧
              body = groups.flatten) := by
  have divides : joiningContext.Divides joiningFile none :=
    LayoutContext.divides_iff.mp (by decide +kernel)
  exact ⟨by decide +kernel, divides,
    CursiveWriter.partitions_glyphs {} joiningContext joiningFile⟩

end FontCompiler
