import FontCompiler.Feature.Statement

/-!
# The text of a feature file

Each statement takes a line, and the statements of a block are indented by four
more spaces than the block. An empty comment is an empty line without any
indentation.
-/

namespace FontCompiler

def joinTexts {α : Type} (separator : String) (text : α → String) (values : List α) : String :=
  separator.intercalate (values.map text)

def bracketed (glyphs : List GlyphName) : String := "[" ++ " ".intercalate glyphs ++ "]"

def Place.text (place : Place) : String :=
  "<anchor " ++ toString place.x ++ " " ++ toString place.y ++ ">"

/-- The text for a place that is missing. -/
def missingPlace : String := "<anchor NULL>"

def optionalPlace : Option Place → String
  | some place => place.text
  | none => missingPlace

def PairSide.text : PairSide → String
  | glyph name => name
  | named name => "@" ++ name
  | listed glyphs => bracketed glyphs

def ValueRecord.text : ValueRecord → String
  | advance value => toString value
  | full xPlacement yPlacement xAdvance yAdvance =>
      "<" ++ joinTexts " " toString [xPlacement, yPlacement, xAdvance, yAdvance] ++ ">"

def GlyphClass.text (definition : GlyphClass) : String :=
  "@" ++ definition.name ++ " = " ++ bracketed definition.glyphs ++ ";"

def MarkClassEntry.text (entry : MarkClassEntry) : String :=
  "markClass " ++ entry.glyph ++ " " ++ entry.place.text ++ " @" ++ entry.className ++ ";"

/-- The text of the four lists; an empty list is left out between its commas. -/
def GlyphClassLists.text (lists : GlyphClassLists) : String :=
  "GlyphClassDef " ++ joinTexts ", " (fun glyphs => if glyphs.isEmpty then "" else bracketed glyphs)
    [lists.base, lists.ligature, lists.mark, lists.component] ++ ";"

def LookupFlag.text (flag : LookupFlag) : String :=
  let parts :=
    (if flag.rightToLeft then ["RightToLeft"] else []) ++
    (if flag.ignoreMarks then ["IgnoreMarks"] else []) ++
    flag.filterClass.toList.map fun name => "UseMarkFilteringSet @" ++ name
  if parts.isEmpty then "lookupflag 0;" else "lookupflag " ++ " ".intercalate parts ++ ";"

def AttachmentPoint.text (attachment : AttachmentPoint) : String :=
  attachment.place.text ++ " mark @" ++ attachment.className

def attachmentsText (marks : List AttachmentPoint) : String :=
  if marks.isEmpty then missingPlace else joinTexts " " AttachmentPoint.text marks

def PositionRule.text : PositionRule → String
  | pair first second value enumerated =>
      (if enumerated then "enum " else "") ++ "pos " ++ first.text ++ " " ++ second.text ++ " " ++
        value.text ++ ";"
  | markToBase base marks => "pos base " ++ base ++ " " ++ attachmentsText marks ++ ";"
  | markToLigature ligature parts =>
      "pos ligature " ++ ligature ++ " " ++ joinTexts " ligComponent " attachmentsText parts ++ ";"
  | markToMark base marks => "pos mark " ++ base ++ " " ++ attachmentsText marks ++ ";"
  | cursive glyph entry exit =>
      "pos cursive " ++ glyph ++ " " ++ optionalPlace entry ++ " " ++ optionalPlace exit ++ ";"

/-- A single glyph by its name, any other list in brackets. -/
def glyphOrBracketed : List GlyphName → String
  | [glyph] => glyph
  | glyphs => bracketed glyphs

def SubstitutionRule.text : SubstitutionRule → String
  | single targets replacements =>
      "sub " ++ glyphOrBracketed targets ++ " by " ++ glyphOrBracketed replacements ++ ";"
  | multiple target replacements =>
      "sub " ++ target ++ " by " ++ " ".intercalate replacements ++ ";"
  | alternate target alternates => "sub " ++ target ++ " from " ++ bracketed alternates ++ ";"
  | ligature parts result => "sub " ++ " ".intercalate parts ++ " by " ++ result ++ ";"

def BlockKind.text : BlockKind → String
  | feature => "feature"
  | lookup => "lookup"
  | table => "table"

namespace Statement

def line : Statement → String
  | comment text => "# " ++ text
  | languageSystem scriptTag languageTag =>
      "languagesystem " ++ scriptTag.trimmedText ++ " " ++ languageTag.trimmedText ++ ";"
  | glyphClass definition => definition.text
  | markClass entry => entry.text
  | block _ _ _ => ""
  | lookupFlag flag => flag.text
  | lookupReference name => "lookup " ++ name ++ ";"
  | script tag => "script " ++ tag.trimmedText ++ ";"
  | language tag => "language " ++ tag.trimmedText ++ ";"
  | position rule => rule.text
  | substitution rule => rule.text
  | glyphClassLists lists => lists.text
  | ligatureCarets glyph positions =>
      "LigatureCaretByPos " ++ glyph ++ " " ++ joinTexts " " toString positions ++ ";"

def indentation (depth : Nat) : String := String.ofList (List.replicate (4 * depth) ' ')

mutual

/-- The lines of a statement, the last line feed included. -/
def render (depth : Nat) : Statement → String
  | comment text => if text.isEmpty then "\n" else indentation depth ++ "# " ++ text ++ "\n"
  | block kind name body =>
      indentation depth ++ kind.text ++ " " ++ name ++ " \x7b\n" ++ renderAll (depth + 1) body ++
        indentation depth ++ "\x7d " ++ name ++ ";\n"
  | statement => indentation depth ++ statement.line ++ "\n"

def renderAll (depth : Nat) : List Statement → String
  | [] => ""
  | first :: rest => render depth first ++ renderAll depth rest

end

def text (statement : Statement) : String :=
  String.ofList
    ((statement.render 0).toList.reverse.dropWhile fun char => decide (char = '\n')).reverse

end Statement

def FeatureFile.text (file : FeatureFile) : String := Statement.renderAll 0 file.statements

end FontCompiler
