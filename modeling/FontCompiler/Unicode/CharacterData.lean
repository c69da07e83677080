import FontCompiler.Unicode.ScriptTables

/-!
# Properties of characters

Layout asks three things about a character: its script, the scripts it is used
with, and its bidirectional type. The answers come from the built-in tables or
from tables that the caller brings.
-/

namespace FontCompiler

/-- The answers about each character. -/
structure CharacterData where
  script : Codepoint → Script
  extensions : Codepoint → SortedSet Script
  bidi : Codepoint → BidiClass

namespace CharacterData

def builtinScript (codepoint : Codepoint) : Script :=
  (scriptRanges.value? codepoint).getD .unknown

def bidiOfScript (codepoint : Codepoint) (script : Script) : BidiClass :=
  if script = .inherited then .nonspacingMark
  else if script = .common then BidiClass.ofCommon codepoint
  else if script = .arabic ∨ script = .ofChars 'S' 'y' 'r' 'c' ∨
      script = .ofChars 'T' 'h' 'a' 'a' then .arabicLetter
  else if script.direction = .rightToLeft then .rightToLeft
  else .leftToRight

def builtin : CharacterData where
  script := builtinScript
  extensions codepoint :=
    match extensionRanges.value? codepoint with
    | some scripts => SortedSet.ofList scripts
    | none => SortedSet.singleton (builtinScript codepoint)
  bidi codepoint :=
    match bidiRanges.value? codepoint with
    | some type => type
    | none => bidiOfScript codepoint (builtinScript codepoint)

/-- Tables given entry by entry. A later entry wins, a character without an
entry has the unknown script and is neutral, and no character is shared. -/
def ofTables (scripts : List (Codepoint × Script)) (bidis : List (Codepoint × BidiClass)) :
    CharacterData :=
  let script codepoint := ((scripts.reverse.find? (fun row => decide (row.1 = codepoint))).map
    Prod.snd).getD Script.unknown
  { script
    extensions := fun codepoint => SortedSet.singleton (script codepoint)
    bidi := fun codepoint => ((bidis.reverse.find? (fun row => decide (row.1 = codepoint))).map
      Prod.snd).getD BidiClass.otherNeutral }

def scriptDirection (characters : CharacterData) (codepoint : Codepoint) : Direction :=
  (characters.script codepoint).direction

/-- The direction that a character imposes on what stands beside it. Numbers
count as left to right, since they are laid out so in every run. -/
def strongDirection? (characters : CharacterData) (codepoint : Codepoint) : Option Direction :=
  match characters.bidi codepoint with
  | .rightToLeft | .arabicLetter => some .rightToLeft
  | .leftToRight | .europeanNumber | .arabicNumber => some .leftToRight
  | _ => none

end CharacterData

end FontCompiler
