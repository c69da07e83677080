import FontCompiler.Proofs.Feature.Coherence
import FontCompiler.Proofs.Kerning.Additions

/-!
# What the rules of kerning stand for

A rule that the kerning writer adds stands for a pair that the splitting by scripts
left. It does so in every file with distinct class names that has the classes of
the draft, so also after other writers have added to the file.
-/

namespace FontCompiler

open Statement

/-- Whether a selector stands for a side in a file: a glyph for itself, and the name
of a class for a group, if the class is defined with the members of the group and
with nothing else. -/
def FeatureFile.StandsFor (file : FeatureFile) : KernSide → PairSide → Prop
  | .glyph name, selector => selector = .glyph name
  | .group _ members, selector => ∃ name, selector = .named name ∧
      ∀ definition : GlyphClass, definition.name = name →
        (.glyphClass definition ∈ file.allStatements ↔ definition.glyphs = members.toList)

/-- A selector of a kerning draft stands for its side in a file that has the classes
of the draft. -/
theorem FeatureFile.standsFor_of_names {file : FeatureFile} {names : KernClassNames}
    (distinct : (definedGlyphClasses file.statements).Nodup)
    (defined : ∀ statement ∈ names.definitions, statement ∈ file.allStatements)
    {position : KernPosition} {script : Script} {side : KernSide} {selector : PairSide}
    (stands : names.StandsFor position script side selector) : file.StandsFor side selector := by
  cases side with
  | glyph name => exact stands
  | group group members =>
      obtain ⟨name, same, named⟩ := stands
      have listed : .glyphClass ⟨name, members.toList⟩ ∈ file.allStatements :=
        defined _ (KernClassNames.mem_definitions.mpr ⟨_, named, rfl⟩)
      refine ⟨name, same, fun definition called => ?_⟩
      subst called
      constructor
      · intro other
        exact (classMembers_eq distinct other).symm.trans (classMembers_eq distinct listed)
      · intro glyphs
        rw [← glyphs] at listed
        exact listed

namespace KernSetting

variable {α : Type} [Coordinate α] {setting : KernSetting α} {context : LayoutContext α}
  {file final : FeatureFile} {features : List String}

/-- Whether a rule stands in a file for a pair in a script. -/
def RuleIn (setting : KernSetting α) (file : FeatureFile) (script : Script) (rule : Statement)
    (pair : KerningPair α) : Prop :=
  ∃ first second enumerated,
    rule = .position (.pair first second (setting.valueRecord script pair) enumerated) ∧
      file.StandsFor pair.first first ∧ file.StandsFor pair.second second

/-- Whether the rules among added statements are those of lookups, and each lookup
has one rule for each pair left in a half, in the order of the pairs. -/
structure StandsIn (setting : KernSetting α) (file : FeatureFile) (added : List Statement) :
    Prop where
  rules : ∀ rule, .position rule ∈ visit added →
    ∃ name body, .block .lookup name body ∈ added ∧ .position rule ∈ body
  lookups : ∀ name body, .block .lookup name body ∈ added → ∃ half opening rules,
    body = opening ++ rules ∧ (∀ rule, .position rule ∉ opening) ∧
      List.Forall₂ (setting.RuleIn file half.1) rules (setting.keptPairs half)

theorem standsIn_nil (setting : KernSetting α) (file : FeatureFile) : setting.StandsIn file [] where
  rules rule listed := by
    rw [visit_nil] at listed
    cases listed
  lookups _ _ listed := nomatch listed

/-- The rules that are written are those of the lookups. -/
theorem exists_lookup_of_mem_visit_additions {rule : PositionRule}
    (listed : .position rule ∈ visit (setting.additions context file features)) :
    ∃ lookup ∈ (setting.draft file).lookups, .position rule ∈ lookup.body := by
  rw [visit_additions] at listed
  simp only [List.mem_append, List.mem_singleton] at listed
  rcases listed with ((named | wrong) | lookups) | featured
  · obtain ⟨row, -, wrong⟩ := KernClassNames.mem_definitions.mp named
    cases wrong
  · cases wrong
  · obtain ⟨lookup, member, inside⟩ := List.mem_flatMap.mp lookups
    rcases List.mem_cons.mp inside with wrong | inside
    · cases wrong
    · exact ⟨lookup, member, inside⟩
  · rcases of_mem_visit_blocks featured with
      ⟨_, _, wrong, -⟩ | wrong | ⟨_, wrong⟩ | ⟨_, wrong⟩ | ⟨_, wrong, -⟩ <;> cases wrong

/-- What is written stands for the pairs of its halves in every file that has its classes. -/
theorem standsIn_additions (distinct : (definedGlyphClasses final.statements).Nodup)
    (defined : ∀ statement ∈ (setting.draft file).classNames.definitions,
      statement ∈ final.allStatements) :
    setting.StandsIn final (setting.additions context file features) where
  rules rule listed := by
    obtain ⟨lookup, member, inside⟩ := exists_lookup_of_mem_visit_additions listed
    exact ⟨lookup.name, lookup.body,
      mem_additions.mpr (.inr (.inr (.inl ⟨lookup, member, rfl⟩))), inside⟩
  lookups name body listed := by
    rcases mem_additions.mp listed with named | wrong | ⟨lookup, member, same⟩ | featured
    · obtain ⟨row, -, wrong⟩ := KernClassNames.mem_definitions.mp named
      cases wrong
    · cases wrong
    · cases same
      obtain ⟨half, matched⟩ := exists_row_of_mem_lookups member
      obtain ⟨opening, rules, same, opens, rulesStand⟩ := (of_mem_rows matched).2.2.body_eq
      refine ⟨half, opening, rules, same, fun rule opened => ?_, rulesStand.imp ?_⟩
      · rcases opens _ opened with ⟨flag, wrong⟩ | ⟨definition, wrong, -⟩
        · cases wrong
        · cases wrong
      · rintro rule pair ⟨first, second, enumerated, same, firstStands, secondStands⟩
        exact ⟨first, second, enumerated, same,
          FeatureFile.standsFor_of_names distinct defined firstStands,
          FeatureFile.standsFor_of_names distinct defined secondStands⟩
    · obtain ⟨_, _, wrong, -⟩ := of_mem_blocks featured
      cases wrong

end KernSetting

end FontCompiler
