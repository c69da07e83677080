import Mathlib.Logic.Function.Iterate
import FontCompiler.Substitution.Closure
import FontCompiler.Unicode.Script

/-!
# Classes hold what can be derived

The closed class under a key consists of the glyphs that the rules derive, in
finitely many steps, from the encoded glyphs with the key. Closing a set gives
the least set that holds it and is closed under the rules, whatever the order
and the repetition of the rules.
-/

namespace FontCompiler

namespace SubstitutionRule

/-- What a rule makes of which glyphs. -/
inductive Makes : SubstitutionRule → List GlyphName → GlyphName → Prop where
  /-- A single replacement stands for every target. -/
  | single {targets : List GlyphName} {target replacement : GlyphName}
      (listed : target ∈ targets) : Makes (.single targets [replacement]) [target] replacement
  /-- Otherwise a target and the replacement at the same place belong together. -/
  | paired {targets replacements : List GlyphName} {target replacement : GlyphName} {place : Nat}
      (several : replacements.length ≠ 1) (here : targets[place]? = some target)
      (there : replacements[place]? = some replacement) :
      Makes (.single targets replacements) [target] replacement
  | multiple {target replacement : GlyphName} {replacements : List GlyphName}
      (listed : replacement ∈ replacements) :
      Makes (.multiple target replacements) [target] replacement
  | alternate {target alternative : GlyphName} {alternates : List GlyphName}
      (listed : alternative ∈ alternates) :
      Makes (.alternate target alternates) [target] alternative
  | ligature {parts : List GlyphName} {result : GlyphName} (formed : parts ≠ []) :
      Makes (.ligature parts result) parts result

theorem of_mem_outputs {glyphs : SortedSet GlyphName} {rule : SubstitutionRule}
    {glyph : GlyphName} (output : glyph ∈ rule.outputs glyphs) :
    ∃ parts, rule.Makes parts glyph ∧ ∀ part ∈ parts, part ∈ glyphs := by
  have alone {target : GlyphName} (held : target ∈ glyphs) : ∀ part ∈ [target], part ∈ glyphs :=
    fun _ listed => List.mem_singleton.mp listed ▸ held
  unfold outputs at output
  split at output
  · next targets replacement =>
      split at output
      · next some =>
          obtain ⟨target, listed, held⟩ := List.any_eq_true.mp some
          obtain rfl := List.mem_singleton.mp output
          exact ⟨[target], .single listed, alone (of_decide_eq_true held)⟩
      · cases output
  · next targets replacements other =>
      obtain ⟨step, kept, rfl⟩ := List.mem_map.mp output
      obtain ⟨zipped, held⟩ := List.mem_filter.mp kept
      obtain ⟨place, found⟩ := List.mem_iff_getElem?.mp zipped
      obtain ⟨here, there⟩ := List.getElem?_zip_eq_some.mp found
      have several : replacements.length ≠ 1 := fun one => by
        obtain ⟨replacement, only⟩ := List.length_eq_one_iff.mp one
        exact other replacement only
      exact ⟨[step.1], .paired several here there, alone (of_decide_eq_true held)⟩
  · split at output
    · next held => exact ⟨_, .multiple output, alone held⟩
    · cases output
  · split at output
    · next held => exact ⟨_, .alternate output, alone held⟩
    · cases output
  · split at output
    · next complete =>
        rw [Bool.and_eq_true, Bool.not_eq_true', List.isEmpty_eq_false_iff, List.all_eq_true]
          at complete
        obtain rfl := List.mem_singleton.mp output
        exact ⟨_, .ligature complete.1, fun part listed =>
          of_decide_eq_true (complete.2 part listed)⟩
    · cases output

theorem outputs_single (glyphs : SortedSet GlyphName) (targets : List GlyphName)
    {replacements : List GlyphName} (several : replacements.length ≠ 1) :
    (single targets replacements).outputs glyphs =
      ((targets.zip replacements).filter fun step => decide (step.1 ∈ glyphs)).map Prod.snd := by
  match replacements with
  | [] => rfl
  | [_] => exact absurd rfl several
  | _ :: _ :: _ => rfl

theorem Makes.mem_outputs {glyphs : SortedSet GlyphName} {rule : SubstitutionRule}
    {parts : List GlyphName} {glyph : GlyphName} (makes : rule.Makes parts glyph)
    (held : ∀ part ∈ parts, part ∈ glyphs) : glyph ∈ rule.outputs glyphs := by
  cases makes with
  | @single targets target _ listed =>
      have some : (targets.any fun target => decide (target ∈ glyphs)) = true :=
        List.any_eq_true.mpr ⟨target, listed, decide_eq_true (held target List.mem_cons_self)⟩
      rw [outputs, if_pos some]
      exact List.mem_cons_self
  | @paired targets replacements target _ place several here there =>
      have zipped : (targets.zip replacements)[place]? = some (target, glyph) :=
        List.getElem?_zip_eq_some.mpr ⟨here, there⟩
      rw [outputs_single glyphs targets several]
      exact List.mem_map.mpr ⟨(target, glyph), List.mem_filter.mpr
        ⟨List.mem_of_getElem? zipped, decide_eq_true (held target List.mem_cons_self)⟩, rfl⟩
  | multiple listed =>
      rw [outputs, if_pos (held _ List.mem_cons_self)]
      exact listed
  | alternate listed =>
      rw [outputs, if_pos (held _ List.mem_cons_self)]
      exact listed
  | ligature formed =>
      have complete : (!parts.isEmpty && parts.all fun part => decide (part ∈ glyphs)) = true := by
        rw [Bool.and_eq_true, Bool.not_eq_true', List.isEmpty_eq_false_iff, List.all_eq_true]
        exact ⟨formed, fun part listed => decide_eq_true (held part listed)⟩
      rw [outputs, if_pos complete]
      exact List.mem_cons_self

theorem Makes.parts_ne_nil {rule : SubstitutionRule} {parts : List GlyphName} {glyph : GlyphName}
    (makes : rule.Makes parts glyph) : parts ≠ [] := by
  cases makes with
  | ligature formed => exact formed
  | _ => exact List.cons_ne_nil _ _

end SubstitutionRule

/-- What rules derive from given glyphs in finitely many steps. -/
inductive Derivable (rules : List SubstitutionRule) (given : GlyphName → Prop) :
    GlyphName → Prop where
  | start {glyph : GlyphName} (here : given glyph) : Derivable rules given glyph
  | made {rule : SubstitutionRule} {parts : List GlyphName} {glyph : GlyphName}
      (listed : rule ∈ rules) (makes : rule.Makes parts glyph)
      (derived : ∀ part ∈ parts, Derivable rules given part) : Derivable rules given glyph

/-- Whether a set holds all that rules make of its members. -/
def IsClosedUnder (rules : List SubstitutionRule) (glyphs : SortedSet GlyphName) : Prop :=
  ∀ rule ∈ rules, ∀ parts glyph, rule.Makes parts glyph → (∀ part ∈ parts, part ∈ glyphs) →
    glyph ∈ glyphs

/-- Whether a set is the least one that holds given glyphs and is closed under rules. -/
structure IsLeastClosed (rules : List SubstitutionRule) (glyphs closure : SortedSet GlyphName) :
    Prop where
  holds : ∀ glyph ∈ glyphs, glyph ∈ closure
  closed : IsClosedUnder rules closure
  least : ∀ other : SortedSet GlyphName, (∀ glyph ∈ glyphs, glyph ∈ other) →
    IsClosedUnder rules other → ∀ glyph ∈ closure, glyph ∈ other

section Closing

variable {rules others : List SubstitutionRule} {glyphs : SortedSet GlyphName}

namespace Derivable

variable {given : GlyphName → Prop} {glyph : GlyphName}

/-- A derivation is carried over to more rules and to glyphs that derive the given ones. -/
theorem lift {further : GlyphName → Prop} (kept : ∀ rule ∈ rules, rule ∈ others)
    (reached : ∀ glyph, given glyph → Derivable others further glyph)
    (derivable : Derivable rules given glyph) : Derivable others further glyph := by
  induction derivable with
  | start here => exact reached _ here
  | made listed makes _ ih => exact .made (kept _ listed) makes ih

/-- Every rule needs a part, so nothing is derived from nothing. -/
theorem exists_given (derivable : Derivable rules given glyph) : ∃ part, given part := by
  induction derivable with
  | start here => exact ⟨_, here⟩
  | made _ makes _ ih =>
      obtain ⟨part, listed⟩ := List.exists_mem_of_ne_nil _ makes.parts_ne_nil
      exact ih part listed

theorem mem_of_closed (closed : IsClosedUnder rules glyphs)
    (holds : ∀ glyph, given glyph → glyph ∈ glyphs) (derivable : Derivable rules given glyph) :
    glyph ∈ glyphs := by
  induction derivable with
  | start here => exact holds _ here
  | made listed makes _ ih => exact closed _ listed _ _ makes ih

end Derivable

theorem freshOutputs_eq_nil_iff : freshOutputs rules glyphs = [] ↔ IsClosedUnder rules glyphs := by
  rw [List.eq_nil_iff_forall_not_mem]
  constructor
  · intro settled rule listed parts glyph makes held
    by_contra new
    exact settled glyph (mem_freshOutputs.mpr ⟨⟨rule, listed, makes.mem_outputs held⟩, new⟩)
  · intro closed glyph fresh
    obtain ⟨⟨rule, listed, output⟩, new⟩ := mem_freshOutputs.mp fresh
    obtain ⟨parts, makes, held⟩ := SubstitutionRule.of_mem_outputs output
    exact new (closed rule listed parts glyph makes held)

theorem subset_closeGlyphs : ∀ glyph ∈ glyphs, glyph ∈ closeGlyphs rules glyphs := by
  fun_induction closeGlyphs rules glyphs with
  | case1 => exact fun _ held => held
  | case2 _ _ ih => exact fun glyph held => ih glyph (SortedSet.mem_insertAll.mpr (.inl held))

theorem isClosedUnder_closeGlyphs : IsClosedUnder rules (closeGlyphs rules glyphs) := by
  fun_induction closeGlyphs rules glyphs with
  | case1 _ settled => exact freshOutputs_eq_nil_iff.mp settled
  | case2 _ _ ih => exact ih

/-- Closing a set adds only what can be derived: each round makes its outputs of glyphs
derived before. -/
theorem derivable_of_mem_closeGlyphs {glyph : GlyphName}
    (held : glyph ∈ closeGlyphs rules glyphs) : Derivable rules (· ∈ glyphs) glyph := by
  fun_induction closeGlyphs rules glyphs with
  | case1 => exact .start held
  | case2 glyphs _ ih =>
      refine (ih held).lift (fun _ listed => listed) fun other added => ?_
      rcases SortedSet.mem_insertAll.mp added with old | fresh
      · exact .start old
      · obtain ⟨⟨rule, listed, output⟩, -⟩ := mem_freshOutputs.mp fresh
        obtain ⟨parts, makes, partsHeld⟩ := SubstitutionRule.of_mem_outputs output
        exact .made listed makes fun part inParts => .start (partsHeld part inParts)

theorem mem_closeGlyphs {glyph : GlyphName} :
    glyph ∈ closeGlyphs rules glyphs ↔ Derivable rules (· ∈ glyphs) glyph :=
  ⟨derivable_of_mem_closeGlyphs,
    Derivable.mem_of_closed isClosedUnder_closeGlyphs subset_closeGlyphs⟩

theorem isLeastClosed_closeGlyphs : IsLeastClosed rules glyphs (closeGlyphs rules glyphs) where
  holds := subset_closeGlyphs
  closed := isClosedUnder_closeGlyphs
  least _ holds closed _ held := (derivable_of_mem_closeGlyphs held).mem_of_closed closed holds

theorem closeGlyphs_of_closed (closed : IsClosedUnder rules glyphs) :
    closeGlyphs rules glyphs = glyphs := by
  rw [closeGlyphs, if_pos (freshOutputs_eq_nil_iff.mpr closed)]

/-- More rules and more glyphs give a larger set. -/
theorem closeGlyphs_mono {more : SortedSet GlyphName} (kept : ∀ rule ∈ rules, rule ∈ others)
    (held : ∀ glyph ∈ glyphs, glyph ∈ more) :
    ∀ glyph ∈ closeGlyphs rules glyphs, glyph ∈ closeGlyphs others more := fun _ found =>
  mem_closeGlyphs.mpr ((derivable_of_mem_closeGlyphs found).lift kept fun glyph given =>
    .start (held glyph given))

theorem closeGlyphs_congr (same : ∀ rule, rule ∈ rules ↔ rule ∈ others) :
    closeGlyphs rules glyphs = closeGlyphs others glyphs :=
  SortedSet.ext fun glyph =>
    ⟨closeGlyphs_mono (fun rule => (same rule).mp) (fun _ held => held) glyph,
      closeGlyphs_mono (fun rule => (same rule).mpr) (fun _ held => held) glyph⟩

/-- A set with all that rules produce from it in one round. -/
def addOutputs (rules : List SubstitutionRule) (glyphs : SortedSet GlyphName) :
    SortedSet GlyphName :=
  glyphs.insertAll (rules.flatMap (SubstitutionRule.outputs glyphs))

theorem insertAll_freshOutputs : glyphs.insertAll (freshOutputs rules glyphs) =
    addOutputs rules glyphs := by
  refine SortedSet.ext fun glyph => ?_
  rw [addOutputs, SortedSet.mem_insertAll, SortedSet.mem_insertAll, mem_freshOutputs,
    List.mem_flatMap]
  by_cases held : glyph ∈ glyphs <;> simp [held]

/-- One more round adds nothing to a closed set. -/
theorem addOutputs_closeGlyphs :
    addOutputs rules (closeGlyphs rules glyphs) = closeGlyphs rules glyphs := by
  rw [← insertAll_freshOutputs, freshOutputs_eq_nil_iff.mpr isClosedUnder_closeGlyphs]
  rfl

variable (rules glyphs) in
/-- A set is closed after at most as many rounds as there are results to come. -/
theorem exists_rounds : ∃ rounds ≤ remaining (rules.flatMap SubstitutionRule.results) glyphs.toList,
    closeGlyphs rules glyphs = (addOutputs rules)^[rounds] glyphs := by
  fun_induction closeGlyphs rules glyphs with
  | case1 => exact ⟨0, Nat.zero_le _, rfl⟩
  | case2 glyphs more ih =>
      obtain ⟨rounds, few, same⟩ := ih
      refine ⟨rounds + 1, Nat.lt_of_le_of_lt few (remaining_results_lt more), ?_⟩
      rw [same, insertAll_freshOutputs, Function.iterate_succ_apply]

end Closing

section Classes

variable {κ : Type} [Ord κ] [DecidableEq κ]

/-- Whether a codepoint with a key is mapped to a glyph. -/
def CharacterMap.HasKey (map : CharacterMap) (classes : Codepoint → List κ) (key : κ)
    (glyph : GlyphName) : Prop :=
  ∃ codepoint, map.find? codepoint = some glyph ∧ key ∈ classes codepoint

variable {classes : Codepoint → List κ} {map : CharacterMap} {rules : List SubstitutionRule}
  {key : κ}

omit [Ord κ] in
theorem mem_encodedGlyphs {glyph : GlyphName} :
    glyph ∈ encodedGlyphs classes map key ↔ map.HasKey classes key glyph := by
  simp only [encodedGlyphs, CharacterMap.HasKey, SortedSet.mem_ofList, List.mem_map,
    List.mem_filter, List.contains_iff_mem, SortedMap.find?_eq_some_iff, Prod.exists,
    exists_eq_right]

variable [Std.TransOrd κ] [Std.LawfulEqOrd κ]

theorem mem_keys_closedClasses : key ∈ (closedClasses classes map rules).keys ↔
    ∃ codepoint glyph, map.find? codepoint = some glyph ∧ key ∈ classes codepoint := by
  simp only [closedClasses, SortedMap.keys_tabulate, SortedSet.mem_ofList, List.mem_flatMap,
    SortedMap.find?_eq_some_iff, Prod.exists]

omit [Std.LawfulEqOrd κ] in
theorem find?_closedClasses (listed : key ∈ (closedClasses classes map rules).keys) :
    (closedClasses classes map rules).find? key =
      some (closeGlyphs rules (encodedGlyphs classes map key)) := by
  rw [closedClasses, SortedMap.keys_tabulate] at listed
  rw [closedClasses, SortedMap.find?_tabulate, if_pos listed]

/-- Glyphs are classed under the keys of the mapped codepoints, and the class under a key
holds exactly what the rules derive from the encoded glyphs with the key. Closing a set takes
a bounded number of rounds and gives the least set that holds it and is closed under the
rules; it is idempotent, monotone, and blind to the order and repetition of rules. -/
theorem closedClasses_exact (classes : Codepoint → List κ) (map : CharacterMap)
    (rules : List SubstitutionRule) :
    (∀ key, key ∈ (closedClasses classes map rules).keys ↔
        ∃ codepoint glyph, map.find? codepoint = some glyph ∧ key ∈ classes codepoint) ∧
      (∀ key ∈ (closedClasses classes map rules).keys, ∃ stored,
        (closedClasses classes map rules).find? key = some stored ∧
          ∀ glyph, glyph ∈ stored ↔ Derivable rules (map.HasKey classes key) glyph) ∧
      ∀ glyphs,
        (∃ rounds ≤ (rules.flatMap SubstitutionRule.results).length,
          closeGlyphs rules glyphs = (addOutputs rules)^[rounds] glyphs ∧
            addOutputs rules (closeGlyphs rules glyphs) = closeGlyphs rules glyphs) ∧
        IsLeastClosed rules glyphs (closeGlyphs rules glyphs) ∧
        closeGlyphs rules (closeGlyphs rules glyphs) = closeGlyphs rules glyphs ∧
        (∀ more : SortedSet GlyphName, (∀ glyph ∈ glyphs, glyph ∈ more) →
          ∀ glyph ∈ closeGlyphs rules glyphs, glyph ∈ closeGlyphs rules more) ∧
        ∀ others : List SubstitutionRule, (∀ rule, rule ∈ rules ↔ rule ∈ others) →
          closeGlyphs rules glyphs = closeGlyphs others glyphs := by
  refine ⟨fun key => mem_keys_closedClasses, fun key listed => ?_, fun glyphs =>
    ⟨?_, isLeastClosed_closeGlyphs, closeGlyphs_of_closed isClosedUnder_closeGlyphs,
      fun more held => closeGlyphs_mono (fun _ listed => listed) held,
      fun others same => closeGlyphs_congr same⟩⟩
  · have given : (· ∈ encodedGlyphs classes map key) = map.HasKey classes key :=
      funext fun glyph => propext mem_encodedGlyphs
    refine ⟨_, find?_closedClasses listed, fun glyph => ?_⟩
    rw [mem_closeGlyphs, given]
  · obtain ⟨rounds, few, same⟩ := exists_rounds rules glyphs
    exact ⟨rounds, Nat.le_trans few (List.length_filter_le _ _), same, addOutputs_closeGlyphs⟩

/-- Small capitals, and a ligature made of a small capital and another ligature, are in the
class of the letters that they come from. -/
theorem closedClasses_smallCapitals :
    let classes : Codepoint → List Direction := fun codepoint =>
      if codepoint < 0x100 then [.leftToRight] else [.rightToLeft]
    let map : CharacterMap :=
      (((∅ : CharacterMap).insert 0x41 "A").insert 0x66 "f").insert 0x5D0 "alef"
    let rules : List SubstitutionRule := [.ligature ["A.sc", "f_f"] "A_f_f",
      .ligature ["f", "f"] "f_f", .single ["B", "A"] ["B.sc", "A.sc"], .single ["A.sc"] ["A"]]
    ∃ stored, (closedClasses classes map rules).find? .leftToRight = some stored ∧
      "A_f_f" ∈ stored := by
  intro classes map rules
  obtain ⟨keys, stored, -⟩ := closedClasses_exact classes map rules
  obtain ⟨glyphs, found, members⟩ :=
    stored .leftToRight ((keys .leftToRight).mpr ⟨0x41, "A", by decide, by decide⟩)
  have capital : Derivable rules (map.HasKey classes .leftToRight) "A" :=
    .start ⟨0x41, by decide, by decide⟩
  have letter : Derivable rules (map.HasKey classes .leftToRight) "f" :=
    .start ⟨0x66, by decide, by decide⟩
  have small : Derivable rules (map.HasKey classes .leftToRight) "A.sc" :=
    .made (.tail _ (.tail _ (.head _)))
      (.paired (by decide) (show ["B", "A"][1]? = some "A" from rfl) rfl) (by simpa using capital)
  have ligature : Derivable rules (map.HasKey classes .leftToRight) "f_f" :=
    .made (.tail _ (.head _)) (.ligature (by decide)) (by simpa using letter)
  refine ⟨glyphs, found, (members "A_f_f").mpr ?_⟩
  exact .made (.head _) (.ligature (by decide)) (by simpa using ⟨small, ligature⟩)

end Classes

end FontCompiler
