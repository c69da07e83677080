import FontCompiler.Names

/-!
# Feature statements

A feature file is a sequence of statements. Some of them are blocks, which hold
statements in turn. Coordinates and values are whole numbers here.
-/

namespace FontCompiler

/-- The place at which something attaches. -/
structure Place where
  x : Int
  y : Int
  deriving DecidableEq, Repr

/-- The glyphs on one side of a pair rule. -/
inductive PairSide where
  | glyph (name : GlyphName)
  /-- A defined class, by its name. -/
  | named (name : String)
  | listed (glyphs : List GlyphName)
  deriving DecidableEq, Repr

def PairSide.isClass : PairSide → Bool
  | glyph _ => false
  | named _ => true
  | listed _ => true

/-- How a pair rule moves the first glyph and its advance. -/
inductive ValueRecord where
  | advance (value : Int)
  | full (xPlacement yPlacement xAdvance yAdvance : Int)
  deriving DecidableEq, Repr

/-- The record for runs from right to left, in which the first glyph moves too. -/
def ValueRecord.rightToLeft (value : Int) : ValueRecord := full value 0 value 0

structure GlyphClass where
  name : String
  glyphs : List GlyphName
  deriving DecidableEq, Repr

/-- One glyph of a mark class, and the place by which it attaches. -/
structure MarkClassEntry where
  glyph : GlyphName
  place : Place
  className : String
  deriving DecidableEq, Repr

/-- The glyphs of each layout class. -/
structure GlyphClassLists where
  base : List GlyphName := []
  ligature : List GlyphName := []
  mark : List GlyphName := []
  component : List GlyphName := []
  deriving DecidableEq, Repr

/-- What a lookup passes over, and which way it runs. -/
structure LookupFlag where
  rightToLeft : Bool := false
  ignoreMarks : Bool := false
  /-- The class of the only marks that the lookup sees. -/
  filterClass : Option String := none
  deriving DecidableEq, Repr

/-- A place to which the marks of a class attach. -/
structure AttachmentPoint where
  place : Place
  className : String
  deriving DecidableEq, Repr

inductive PositionRule where
  /-- Kerning between two glyphs; an enumerated rule stands for all pairs of its members. -/
  | pair (first second : PairSide) (value : ValueRecord) (enumerated : Bool)
  | markToBase (base : GlyphName) (marks : List AttachmentPoint)
  /-- One list of attachments for each part of the ligature. -/
  | markToLigature (ligature : GlyphName) (parts : List (List AttachmentPoint))
  | markToMark (base : GlyphName) (marks : List AttachmentPoint)
  | cursive (glyph : GlyphName) (entry exit : Option Place)
  deriving DecidableEq, Repr

inductive SubstitutionRule where
  /-- One glyph for one. A single replacement stands for every target. -/
  | single (targets replacements : List GlyphName)
  | multiple (target : GlyphName) (replacements : List GlyphName)
  | alternate (target : GlyphName) (alternates : List GlyphName)
  | ligature (parts : List GlyphName) (ligature : GlyphName)
  deriving DecidableEq, Repr

inductive BlockKind where
  | feature
  | lookup
  | table
  deriving DecidableEq, Repr

inductive Statement where
  /-- An empty comment stands for an empty line. -/
  | comment (text : String)
  | languageSystem (script language : Tag)
  | glyphClass (definition : GlyphClass)
  | markClass (entry : MarkClassEntry)
  | block (kind : BlockKind) (name : String) (body : List Statement)
  | lookupFlag (flag : LookupFlag)
  | lookupReference (name : String)
  | script (tag : Tag)
  | language (tag : Tag)
  | position (rule : PositionRule)
  | substitution (rule : SubstitutionRule)
  | glyphClassLists (lists : GlyphClassLists)
  | ligatureCarets (glyph : GlyphName) (positions : List Int)

namespace Statement

def children : Statement → List Statement
  | block _ _ body => body
  | _ => []

def body? (wantedKind : BlockKind) (wantedName : String) : Statement → Option (List Statement)
  | block kind name body => if kind = wantedKind ∧ name = wantedName then some body else none
  | _ => none

end Statement

structure FeatureFile where
  statements : List Statement := []

/-- The script tag that stands for every script without one of its own. -/
def defaultScriptTag : Tag := Tag.ofChars 'D' 'F' 'L' 'T'

/-- The language tag that stands for every language without one of its own. -/
def defaultLanguageTag : Tag := Tag.ofChars 'd' 'f' 'l' 't'

end FontCompiler
