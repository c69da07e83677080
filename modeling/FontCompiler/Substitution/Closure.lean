import FontCompiler.Collection.Remaining
import FontCompiler.Collection.SortedSet
import FontCompiler.Feature.Statement
import FontCompiler.Font.CharacterMap

/-!
# What substitutions can produce

A set of glyphs is closed under substitution rules by adding what the rules
produce from it, until they produce nothing new. A ligature is produced once all
of its parts are there. Encoded glyphs are classed by their codepoints, and each
class is closed, so that a glyph reached only through rules shares the classes
of what it is made from.
-/

namespace FontCompiler

namespace SubstitutionRule

/-- The glyphs that the rule produces from a set of glyphs. -/
def outputs (glyphs : SortedSet GlyphName) : SubstitutionRule → List GlyphName
  | single targets [replacement] =>
      if targets.any fun target => decide (target ∈ glyphs) then [replacement] else []
  | single targets replacements =>
      ((targets.zip replacements).filter fun step => decide (step.1 ∈ glyphs)).map Prod.snd
  | multiple target replacements => if target ∈ glyphs then replacements else []
  | alternate target alternates => if target ∈ glyphs then alternates else []
  | ligature parts result =>
      if !parts.isEmpty && parts.all fun part => decide (part ∈ glyphs) then [result] else []

def results : SubstitutionRule → List GlyphName
  | single _ replacements => replacements
  | multiple _ replacements => replacements
  | alternate _ alternates => alternates
  | ligature _ result => [result]

theorem outputs_subset_results (glyphs : SortedSet GlyphName) (rule : SubstitutionRule)
    {glyph : GlyphName} (output : glyph ∈ rule.outputs glyphs) : glyph ∈ rule.results := by
  unfold outputs at output
  split at output
  · split at output
    · exact output
    · cases output
  · obtain ⟨step, kept, rfl⟩ := List.mem_map.mp output
    exact (List.of_mem_zip (List.mem_filter.mp kept).1).2
  · split at output
    · exact output
    · cases output
  · split at output
    · exact output
    · cases output
  · split at output
    · exact output
    · cases output

end SubstitutionRule

/-- What rules produce from a set of glyphs and the set does not hold. -/
def freshOutputs (rules : List SubstitutionRule) (glyphs : SortedSet GlyphName) : List GlyphName :=
  (rules.flatMap (SubstitutionRule.outputs glyphs)).filter fun glyph => decide (glyph ∉ glyphs)

theorem mem_freshOutputs {rules : List SubstitutionRule} {glyphs : SortedSet GlyphName}
    {glyph : GlyphName} : glyph ∈ freshOutputs rules glyphs ↔
      (∃ rule ∈ rules, glyph ∈ rule.outputs glyphs) ∧ glyph ∉ glyphs := by
  rw [freshOutputs, List.mem_filter, List.mem_flatMap, decide_eq_true_iff]

/-- Something new leaves fewer results to come. -/
theorem remaining_results_lt {rules : List SubstitutionRule} {glyphs : SortedSet GlyphName}
    (more : freshOutputs rules glyphs ≠ []) :
    remaining (rules.flatMap SubstitutionRule.results)
        (glyphs.insertAll (freshOutputs rules glyphs)).toList <
      remaining (rules.flatMap SubstitutionRule.results) glyphs.toList := by
  obtain ⟨glyph, fresh⟩ := List.exists_mem_of_ne_nil _ more
  obtain ⟨⟨rule, listed, produced⟩, new⟩ := mem_freshOutputs.mp fresh
  refine remaining_lt
    (List.mem_flatMap.mpr ⟨rule, listed, rule.outputs_subset_results glyphs produced⟩)
    new ?_ fun other held => ?_
  · exact SortedSet.mem_insertAll.mpr (.inr fresh)
  · exact SortedSet.mem_insertAll.mpr (.inl held)

/-- The least set that holds the given glyphs and what the rules produce from its members. -/
def closeGlyphs (rules : List SubstitutionRule) (glyphs : SortedSet GlyphName) :
    SortedSet GlyphName :=
  if freshOutputs rules glyphs = [] then glyphs
  else closeGlyphs rules (glyphs.insertAll (freshOutputs rules glyphs))
termination_by remaining (rules.flatMap SubstitutionRule.results) glyphs.toList
decreasing_by exact remaining_results_lt ‹_›

section

variable {κ : Type} [Ord κ] [DecidableEq κ] [Std.TransOrd κ]

def encodedGlyphs (classes : Codepoint → List κ) (map : CharacterMap) (key : κ) :
    SortedSet GlyphName :=
  .ofList ((map.entries.filter fun entry => (classes entry.1).contains key).map Prod.snd)

/-- The closed class of glyphs under each key that some codepoint has. -/
def closedClasses (classes : Codepoint → List κ) (map : CharacterMap)
    (rules : List SubstitutionRule) : SortedMap κ (SortedSet GlyphName) :=
  .tabulate (.ofList (map.entries.flatMap fun entry => classes entry.1)) fun key =>
    closeGlyphs rules (encodedGlyphs classes map key)

def keysByGlyph (classes : SortedMap κ (SortedSet GlyphName)) :
    SortedMap GlyphName (SortedSet κ) :=
  .tabulate (.ofList (classes.entries.flatMap fun entry => entry.2.toList)) fun glyph =>
    .ofList ((classes.entries.filter fun entry => decide (glyph ∈ entry.2)).map Prod.fst)

end

end FontCompiler
