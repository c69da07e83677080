import FontCompiler.Feature.File

/-!
# What the rules of a feature file do

A pair rule applies to two glyphs when each is among the glyphs of its selector.
A lookup gives two glyphs the value of its first rule that applies to them. A
feature gives each script the lookups that it refers to below the script.
-/

namespace FontCompiler

/-- How the record changes the advance of the first glyph. -/
def ValueRecord.xAdvance : ValueRecord → Int
  | advance value => value
  | full _ _ xAdvance _ => xAdvance

theorem Statement.eq_block_of_body? {kind : BlockKind} {name : String} {statement : Statement}
    {body : List Statement} (found : statement.body? kind name = some body) :
    statement = .block kind name body := by
  unfold body? at found
  split at found
  · split at found
    · next same =>
        cases found
        rw [same.1, same.2]
    · cases found
  · cases found

namespace FeatureFile

/-- The glyphs of the classes that the file defines under a name. -/
def classMembers (file : FeatureFile) (name : String) : List GlyphName :=
  file.allStatements.flatMap fun
    | .glyphClass definition => if definition.name = name then definition.glyphs else []
    | _ => []

theorem mem_classMembers {file : FeatureFile} {name : String} {glyph : GlyphName} :
    glyph ∈ file.classMembers name ↔ ∃ definition, .glyphClass definition ∈ file.allStatements ∧
      definition.name = name ∧ glyph ∈ definition.glyphs := by
  unfold classMembers
  rw [List.mem_flatMap]
  constructor
  · rintro ⟨statement, listed, found⟩
    split at found
    · next definition =>
        split at found
        · next same => exact ⟨definition, listed, same, found⟩
        · cases found
    · cases found
  · rintro ⟨definition, listed, rfl, found⟩
    exact ⟨.glyphClass definition, listed, by simpa using found⟩

/-- The glyphs of a selector. -/
def selected (file : FeatureFile) : PairSide → List GlyphName
  | .glyph name => [name]
  | .named name => file.classMembers name
  | .listed glyphs => glyphs

/-- The value that a statement gives two glyphs, if it is a pair rule that applies to them. -/
def ruleValue? (file : FeatureFile) (first second : GlyphName) : Statement → Option Int
  | .position (.pair firstSide secondSide value _) =>
      if first ∈ file.selected firstSide ∧ second ∈ file.selected secondSide then
        some value.xAdvance
      else none
  | _ => none

/-- The value that a lookup gives two glyphs, that of its first rule that applies to them. -/
def lookupValue? (file : FeatureFile) (body : List Statement) (first second : GlyphName) :
    Option Int :=
  body.findSome? (file.ruleValue? first second)

/-- Whether a lookup of the file has a rule for two glyphs. -/
def LookupKerns (file : FeatureFile) (lookup : String) (first second : GlyphName) : Prop :=
  ∃ body, .block .lookup lookup body ∈ file.allStatements ∧
    (file.lookupValue? body first second).isSome = true

theorem any_statement_iff_lookupKerns {file : FeatureFile} {lookup : String}
    {first second : GlyphName} :
    (file.allStatements.any fun
      | .block .lookup name body =>
          decide (name = lookup) && (file.lookupValue? body first second).isSome
      | _ => false) = true ↔ file.LookupKerns lookup first second := by
  rw [List.any_eq_true]
  constructor
  · rintro ⟨statement, listed, found⟩
    split at found
    · next name body =>
        obtain ⟨rfl, kerned⟩ := (Bool.and_eq_true _ _ ▸ found).imp_left of_decide_eq_true
        exact ⟨body, listed, kerned⟩
    · cases found
  · rintro ⟨body, listed, kerned⟩
    exact ⟨_, listed, by simpa using kerned⟩

instance (file : FeatureFile) (lookup : String) (first second : GlyphName) :
    Decidable (file.LookupKerns lookup first second) :=
  decidable_of_iff _ any_statement_iff_lookupKerns

end FeatureFile

/-- The lookups referred to before the first script statement, and those below
each script statement. -/
def scriptSections : List Statement → List String × List (Tag × List String)
  | [] => ([], [])
  | .script tag :: rest =>
      let (lookups, sections) := scriptSections rest
      ([], (tag, lookups) :: sections)
  | .lookupReference lookup :: rest =>
      let (lookups, sections) := scriptSections rest
      (lookup :: lookups, sections)
  | _ :: rest => scriptSections rest

end FontCompiler
