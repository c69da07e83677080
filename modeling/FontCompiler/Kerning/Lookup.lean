import FontCompiler.Kerning.ClassNames
import FontCompiler.Layout.Writer
import FontCompiler.Number.Coordinate

/-!
# Kerning lookups

The pairs of each script become a lookup, and those with marks a second one.
Pairs that mix characters of both strong directions are left out. Lookups and
the classes that they use get names that the feature file does not have yet.
-/

namespace FontCompiler

structure KernWriter where
  overlap : OverlapPolicy := .skip
  /-- The step of the grid to which values are rounded. -/
  quantization : Nat := 1
  /-- Whether pairs apply across marks, which then are kerned in lookups of their own. -/
  ignoreMarks : Bool := true
  deriving DecidableEq, Repr

abbrev DirectionsByGlyph := SortedMap GlyphName (SortedSet Direction)

namespace LayoutContext

variable {α : Type}

/-- The scripts with which each glyph is used; characters of unknown script count as common. -/
def scriptsByGlyph (context : LayoutContext α) (file : FeatureFile) : ScriptsByGlyph :=
  keysByGlyph (context.classesBy file fun codepoint =>
    (context.characters.extensions codepoint).toList.map fun script =>
      if script = .unknown then .common else script)

def directionsByGlyph (context : LayoutContext α) (file : FeatureFile) : DirectionsByGlyph :=
  keysByGlyph (context.classesBy file fun codepoint =>
    (context.characters.strongDirection? codepoint).toList)

end LayoutContext

structure KernLookup where
  script : Script
  name : String
  body : List Statement

def KernLookup.statement (lookup : KernLookup) : Statement := .block .lookup lookup.name lookup.body

/-- What the lookups of kerning are made from. -/
structure KernSetting (α : Type) where
  writer : KernWriter
  directions : DirectionsByGlyph
  /-- The marks with an advance, which lookups must not ignore. -/
  spacingMarks : List GlyphName
  basePairs : SortedMap Script (List (KerningPair α))
  markPairs : SortedMap Script (List (KerningPair α))

/-- The names in use, and what was made with them. -/
structure KernDraft (α : Type) where
  lookupNames : SortedSet String
  classNames : KernClassNames
  lookups : List KernLookup := []
  notices : List (Notice α) := []

namespace KerningPair

variable {α : Type}

def hasDirection (directions : DirectionsByGlyph) (direction : Direction) (pair : KerningPair α) :
    Bool :=
  (pair.first.glyphs ++ pair.second.glyphs).any fun glyph =>
    (directions.find? glyph).any fun known => decide (direction ∈ known)

def mixesDirections (directions : DirectionsByGlyph) (pair : KerningPair α) : Bool :=
  pair.hasDirection directions .leftToRight && pair.hasDirection directions .rightToLeft

/-- Whether the pair is laid out from right to left in a script. -/
def runsRightToLeft (directions : DirectionsByGlyph) (script : Script)
    (pair : KerningPair α) : Bool :=
  match script.direction with
  | .rightToLeft => !pair.hasDirection directions .leftToRight
  | .neutral => pair.hasDirection directions .rightToLeft
  | .leftToRight => false

end KerningPair

namespace KernSetting

variable {α : Type} [Coordinate α]

def valueRecord (setting : KernSetting α) (script : Script) (pair : KerningPair α) : ValueRecord :=
  let value := nearestMultiple pair.value setting.writer.quantization
  if pair.runsRightToLeft setting.directions script then .rightToLeft value else .advance value

/-- The rules of pairs, and the class names after them. -/
def rules (setting : KernSetting α) (script : Script) (names : KernClassNames) :
    List (KerningPair α) → List Statement × KernClassNames
  | [] => ([], names)
  | pair :: rest =>
      let (first, names) := names.select .first script pair.first
      let (second, names) := names.select .second script pair.second
      let (later, names) := rules setting script names rest
      (.position (.pair first second (setting.valueRecord script pair)
        (pair.first.isGroup != pair.second.isGroup)) :: later, names)

/-- Add the lookup of a script's pairs, unless all of them mix directions. -/
def addLookup (setting : KernSetting α) (script : Script) (name : String) (opening : List Statement)
    (pairs : List (KerningPair α)) (draft : KernDraft α) : KernDraft α :=
  let kept := pairs.filter fun pair => !pair.mixesDirections setting.directions
  let mixed := pairs.filter fun pair => pair.mixesDirections setting.directions
  let (rules, names) := setting.rules script draft.classNames kept
  let notices := draft.notices ++ mixed.map fun pair => .mixedDirections pair name
  if rules.isEmpty then { draft with classNames := names, notices := notices }
  else
    { lookupNames := draft.lookupNames.insert name
      classNames := names
      lookups := draft.lookups ++ [⟨script, name, opening ++ rules⟩]
      notices := notices }

/-- The statements before the rules of a lookup between bases, and the class
names after them. -/
def opening (setting : KernSetting α) (name : String) (names : KernClassNames) :
    List Statement × KernClassNames :=
  if !setting.writer.ignoreMarks then ([], names)
  else if setting.spacingMarks.isEmpty then ([.lookupFlag { ignoreMarks := true }], names)
  else
    let className := freshClassName ("MFS_" ++ name) names.taken
    ([.glyphClass ⟨className, setting.spacingMarks⟩, .lookupFlag { filterClass := some className }],
      names.take className)

def addScript (setting : KernSetting α) (draft : KernDraft α) (script : Script) : KernDraft α :=
  let draft :=
    match setting.basePairs.find? script with
    | some pairs =>
        let name := freshName ("kern_" ++ script.tag.text) draft.lookupNames
        let (opening, names) := setting.opening name draft.classNames
        setting.addLookup script name opening pairs { draft with classNames := names }
    | none => draft
  match setting.markPairs.find? script with
  | some pairs =>
      let name := freshName ("kern_" ++ script.tag.text ++ "_marks") draft.lookupNames
      setting.addLookup script name [] pairs draft
  | none => draft

omit [Coordinate α] in
def scripts (setting : KernSetting α) : SortedSet Script :=
  setting.basePairs.keys.union setting.markPairs.keys

def draft (setting : KernSetting α) (file : FeatureFile) : KernDraft α :=
  setting.scripts.toList.foldl setting.addScript
    { lookupNames := file.lookupNames, classNames := { taken := file.classNames } }

end KernSetting

end FontCompiler
