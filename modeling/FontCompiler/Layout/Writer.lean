import FontCompiler.Kerning.Groups
import FontCompiler.Kerning.Split
import FontCompiler.Layout.Context

/-!
# Writers of features

A writer adds statements to a feature file and says whether it added any. On the
way it may leave notices for the author of the font.
-/

namespace FontCompiler

/-- What a writer does about features that the file has already. -/
inductive OverlapPolicy where
  /-- Write only the features that are missing. -/
  | skip
  /-- Write all features after what is there. -/
  | append
  deriving DecidableEq, Repr

/-- Something that the author of a font may want to know. -/
inductive Notice (α : Type) where
  | repeatedMember (repeated : RepeatedMember)
  | mixedScripts (part : ScriptPart α)
  | mixedDirections (pair : KerningPair α) (lookup : String)
  | featureExists (writer feature : String)
  | tableExists (writer table : String)
  | unnamedAnchor (glyph : GlyphName)
  | repeatedAnchor (glyph : GlyphName) (anchor : String)
  deriving DecidableEq

namespace Notice

variable {α : Type}

/-- Whether the notice is about a fault of the font. -/
def isWarning : Notice α → Bool
  | repeatedMember _ => true
  | mixedScripts _ => false
  | mixedDirections _ _ => false
  | featureExists _ _ => false
  | tableExists _ _ => false
  | unnamedAnchor _ => true
  | repeatedAnchor _ _ => true

def message [DecimalText α] : Notice α → String
  | repeatedMember repeated => repeated.message
  | mixedScripts part => part.message
  | mixedDirections pair lookup =>
      "Skipping kerning pair " ++ pair.text ++ " with conflicting bidi directions in " ++ lookup
  | featureExists writer feature =>
      writer ++ ": feature '" ++ feature ++ "' already exists, skipping"
  | tableExists writer table => writer ++ ": table " ++ table ++ " already exists, skipping"
  | unnamedAnchor glyph =>
      "glyph '" ++ glyph ++ "' has an anchor without a name, excluding the glyph"
  | repeatedAnchor glyph anchor =>
      "glyph '" ++ glyph ++ "' has more than one '" ++ anchor ++ "' anchor, keeping the first"

end Notice

inductive WriterError where
  | font (error : FontError)
  | unknownWriter (name : String)
  | zeroQuantization
  deriving DecidableEq, Repr

def WriterError.message : WriterError → String
  | font error => error.message
  | unknownWriter name => "unknown feature writer '" ++ name ++ "'"
  | zeroQuantization => "quantization step must be a positive integer, got 0"

/-- What a writer leaves behind. -/
structure Written (α : Type) where
  file : FeatureFile
  wrote : Bool
  notices : List (Notice α)

namespace Written

variable {α : Type}

def unchanged (file : FeatureFile) (notices : List (Notice α)) : Written α := ⟨file, false, notices⟩

/-- The file with statements at its end, or as it was if there are none. -/
def appending (statements : List Statement) (file : FeatureFile) (notices : List (Notice α)) :
    Written α :=
  if statements.isEmpty then unchanged file notices else ⟨file.append statements, true, notices⟩

end Written

/-- A writer of features, for one table of the compiled font. -/
structure Writer (α : Type) where
  name : String
  table : Tag
  write : LayoutContext α → FeatureFile → Except WriterError (Written α)

def Writer.ofStatements {α : Type} (name : String) (table : Tag) (statements : List Statement) :
    Writer α :=
  ⟨name, table, fun _ file => .ok (.appending statements file [])⟩

def substitutionTable : Tag := Tag.ofChars 'G' 'S' 'U' 'B'

def positionTable : Tag := Tag.ofChars 'G' 'P' 'O' 'S'

def definitionTable : Tag := Tag.ofChars 'G' 'D' 'E' 'F'

/-- The features among the given ones that a writer is to write. -/
def wantedFeatures (overlap : OverlapPolicy) (file : FeatureFile) (features : List String) :
    List String :=
  match overlap with
  | .append => features
  | .skip => features.filter fun feature => !file.hasFeature feature

def existingFeatures {α : Type} (writer : String) (overlap : OverlapPolicy) (file : FeatureFile)
    (features : List String) : List (Notice α) :=
  match overlap with
  | .append => []
  | .skip => (features.filter file.hasFeature).map (Notice.featureExists writer)

end FontCompiler
