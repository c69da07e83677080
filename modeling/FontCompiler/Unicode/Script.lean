import FontCompiler.Collection.SortedSet
import FontCompiler.Names

/-!
# Scripts

A script is named by the four letters of its ISO 15924 code. OpenType layout
knows scripts under tags of its own: mostly the code with a small first letter,
and for some scripts one or two registered tags, the preferred one first.
-/

namespace FontCompiler

/-- The way in which a run of text goes. -/
inductive Direction where
  | neutral
  | leftToRight
  | rightToLeft
  deriving DecidableEq, Repr

namespace Direction

def rank : Direction → Nat
  | neutral => 0
  | leftToRight => 1
  | rightToLeft => 2

theorem rank_injective {first second : Direction} (same : first.rank = second.rank) :
    first = second := by
  cases first <;> cases second <;> simp_all [rank]

instance : Ord Direction where
  compare := compareOn rank

instance : Std.TransOrd Direction :=
  inferInstanceAs (Std.TransCmp (compareOn rank))

instance : Std.LawfulEqOrd Direction where
  compare_self {direction} :=
    (Std.ReflCmp.compare_self : compare direction.rank direction.rank = .eq)
  eq_of_compare {first second} same := by
    have ranks : compare first.rank second.rank = .eq := same
    exact rank_injective (Std.LawfulEqCmp.eq_of_compare ranks)

def text : Direction → String
  | neutral => "Neutral"
  | leftToRight => "LTR"
  | rightToLeft => "RTL"

end Direction

/-- A script, by its four-letter code. -/
structure Script where
  tag : Tag
  deriving DecidableEq, Inhabited

namespace Script

def ofChars (first second third fourth : Char) : Script :=
  ⟨Tag.ofChars first second third fourth⟩

instance : Ord Script where
  compare first second := compare first.tag second.tag

instance : Std.TransOrd Script where
  eq_swap {first second} :=
    (Std.OrientedCmp.eq_swap : compare first.tag second.tag = (compare second.tag first.tag).swap)
  isLE_trans {first second third} below above := by
    have lower : (compare first.tag second.tag).isLE := below
    have upper : (compare second.tag third.tag).isLE := above
    exact (Std.TransCmp.isLE_trans lower upper : (compare first.tag third.tag).isLE)

instance : Std.LawfulEqOrd Script where
  compare_self {script} := (Std.ReflCmp.compare_self : compare script.tag script.tag = .eq)
  eq_of_compare {first second} same := by
    have tags : compare first.tag second.tag = .eq := same
    have equal : first.tag = second.tag := Std.LawfulEqCmp.eq_of_compare tags
    cases first
    cases second
    cases equal
    rfl

def common : Script := ofChars 'Z' 'y' 'y' 'y'

def inherited : Script := ofChars 'Z' 'i' 'n' 'h'

def unknown : Script := ofChars 'Z' 'z' 'z' 'z'

def latin : Script := ofChars 'L' 'a' 't' 'n'

def greek : Script := ofChars 'G' 'r' 'e' 'k'

def cyrillic : Script := ofChars 'C' 'y' 'r' 'l'

def hebrew : Script := ofChars 'H' 'e' 'b' 'r'

def arabic : Script := ofChars 'A' 'r' 'a' 'b'

def devanagari : Script := ofChars 'D' 'e' 'v' 'a'

/-- The scripts whose characters are at home in runs of every script. -/
def defaults : List Script := [common, inherited]

/-- Whether a character of the script takes the script of the run it sits in. -/
def isDefault (script : Script) : Bool := defaults.contains script

def rightToLeft : List Script :=
  [ofChars 'A' 'd' 'l' 'm', ofChars 'A' 'r' 'a' 'b', ofChars 'A' 'r' 'm' 'i',
    ofChars 'A' 'v' 's' 't', ofChars 'C' 'h' 'r' 's', ofChars 'C' 'p' 'r' 't',
    ofChars 'E' 'l' 'y' 'm', ofChars 'H' 'a' 't' 'r', ofChars 'H' 'e' 'b' 'r',
    ofChars 'H' 'u' 'n' 'g', ofChars 'K' 'h' 'a' 'r', ofChars 'L' 'y' 'd' 'i',
    ofChars 'M' 'a' 'n' 'd', ofChars 'M' 'a' 'n' 'i', ofChars 'M' 'e' 'n' 'd',
    ofChars 'M' 'e' 'r' 'c', ofChars 'M' 'e' 'r' 'o', ofChars 'N' 'a' 'r' 'b',
    ofChars 'N' 'b' 'a' 't', ofChars 'N' 'k' 'o' 'o', ofChars 'O' 'r' 'k' 'h',
    ofChars 'O' 'u' 'g' 'r', ofChars 'P' 'a' 'l' 'm', ofChars 'P' 'h' 'l' 'i',
    ofChars 'P' 'h' 'l' 'p', ofChars 'P' 'h' 'n' 'x', ofChars 'P' 'r' 't' 'i',
    ofChars 'R' 'o' 'h' 'g', ofChars 'S' 'a' 'm' 'r', ofChars 'S' 'a' 'r' 'b',
    ofChars 'S' 'o' 'g' 'd', ofChars 'S' 'o' 'g' 'o', ofChars 'S' 'y' 'r' 'c',
    ofChars 'T' 'h' 'a' 'a', ofChars 'Y' 'e' 'z' 'i']

def direction (script : Script) : Direction :=
  if script.isDefault || script == unknown then .neutral
  else if rightToLeft.contains script then .rightToLeft
  else .leftToRight

/-- The scripts whose shaping engines kern through the feature for distances. -/
def distanceKerned : List Script :=
  [ofChars 'A' 'h' 'o' 'm', ofChars 'B' 'a' 'l' 'i', ofChars 'B' 'a' 't' 'k',
    ofChars 'B' 'e' 'n' 'g', ofChars 'B' 'h' 'k' 's', ofChars 'B' 'r' 'a' 'h',
    ofChars 'B' 'u' 'g' 'i', ofChars 'B' 'u' 'h' 'd', ofChars 'C' 'a' 'k' 'm',
    ofChars 'C' 'h' 'a' 'm', ofChars 'D' 'e' 'v' 'a', ofChars 'D' 'o' 'g' 'r',
    ofChars 'D' 'u' 'p' 'l', ofChars 'E' 'g' 'y' 'p', ofChars 'G' 'o' 'n' 'g',
    ofChars 'G' 'o' 'n' 'm', ofChars 'G' 'r' 'a' 'n', ofChars 'G' 'u' 'j' 'r',
    ofChars 'G' 'u' 'r' 'u', ofChars 'H' 'a' 'n' 'o', ofChars 'H' 'm' 'n' 'g',
    ofChars 'J' 'a' 'v' 'a', ofChars 'K' 'a' 'l' 'i', ofChars 'K' 'h' 'a' 'r',
    ofChars 'K' 'h' 'm' 'r', ofChars 'K' 'h' 'o' 'j', ofChars 'K' 'n' 'd' 'a',
    ofChars 'K' 't' 'h' 'i', ofChars 'L' 'a' 'n' 'a', ofChars 'L' 'e' 'p' 'c',
    ofChars 'L' 'i' 'm' 'b', ofChars 'M' 'a' 'h' 'j', ofChars 'M' 'a' 'k' 'a',
    ofChars 'M' 'a' 'r' 'c', ofChars 'M' 'l' 'y' 'm', ofChars 'M' 'o' 'd' 'i',
    ofChars 'M' 't' 'e' 'i', ofChars 'M' 'u' 'l' 't', ofChars 'M' 'y' 'm' 'r',
    ofChars 'N' 'e' 'w' 'a', ofChars 'O' 'r' 'y' 'a', ofChars 'R' 'j' 'n' 'g',
    ofChars 'S' 'a' 'u' 'r', ofChars 'S' 'h' 'r' 'd', ofChars 'S' 'i' 'd' 'd',
    ofChars 'S' 'i' 'n' 'd', ofChars 'S' 'i' 'n' 'h', ofChars 'S' 'o' 'y' 'o',
    ofChars 'S' 'u' 'n' 'd', ofChars 'S' 'y' 'l' 'o', ofChars 'T' 'a' 'g' 'b',
    ofChars 'T' 'a' 'k' 'r', ofChars 'T' 'a' 'l' 'e', ofChars 'T' 'a' 'v' 't',
    ofChars 'T' 'e' 'l' 'u', ofChars 'T' 'f' 'n' 'g', ofChars 'T' 'g' 'l' 'g',
    ofChars 'T' 'i' 'r' 'h', ofChars 'Z' 'a' 'n' 'b']

/-- The scripts whose tags differ from the code with a small first letter. -/
def registeredTags : List (Script × List Tag) :=
  [(common, [Tag.ofChars 'D' 'F' 'L' 'T']), (inherited, [Tag.ofChars 'D' 'F' 'L' 'T']),
    (ofChars 'B' 'e' 'n' 'g', [Tag.ofChars 'b' 'n' 'g' '2', Tag.ofChars 'b' 'e' 'n' 'g']),
    (ofChars 'D' 'e' 'v' 'a', [Tag.ofChars 'd' 'e' 'v' '2', Tag.ofChars 'd' 'e' 'v' 'a']),
    (ofChars 'G' 'u' 'j' 'r', [Tag.ofChars 'g' 'j' 'r' '2', Tag.ofChars 'g' 'u' 'j' 'r']),
    (ofChars 'G' 'u' 'r' 'u', [Tag.ofChars 'g' 'u' 'r' '2', Tag.ofChars 'g' 'u' 'r' 'u']),
    (ofChars 'H' 'a' 'n' 'g', [Tag.ofChars 'h' 'a' 'n' 'g']),
    (ofChars 'H' 'a' 'n' 'i', [Tag.ofChars 'h' 'a' 'n' 'i']),
    (ofChars 'H' 'i' 'r' 'a', [Tag.ofChars 'k' 'a' 'n' 'a']),
    (ofChars 'K' 'a' 'n' 'a', [Tag.ofChars 'k' 'a' 'n' 'a']),
    (ofChars 'K' 'n' 'd' 'a', [Tag.ofChars 'k' 'n' 'd' '2', Tag.ofChars 'k' 'n' 'd' 'a']),
    (ofChars 'L' 'a' 'o' 'o', [Tag.ofChars 'l' 'a' 'o' ' ']),
    (ofChars 'M' 'l' 'y' 'm', [Tag.ofChars 'm' 'l' 'm' '2', Tag.ofChars 'm' 'l' 'y' 'm']),
    (ofChars 'M' 'y' 'm' 'r', [Tag.ofChars 'm' 'y' 'm' '2', Tag.ofChars 'm' 'y' 'm' 'r']),
    (ofChars 'N' 'k' 'o' 'o', [Tag.ofChars 'n' 'k' 'o' ' ']),
    (ofChars 'O' 'r' 'y' 'a', [Tag.ofChars 'o' 'r' 'y' '2', Tag.ofChars 'o' 'r' 'y' 'a']),
    (ofChars 'T' 'a' 'm' 'l', [Tag.ofChars 't' 'm' 'l' '2', Tag.ofChars 't' 'a' 'm' 'l']),
    (ofChars 'T' 'e' 'l' 'u', [Tag.ofChars 't' 'e' 'l' '2', Tag.ofChars 't' 'e' 'l' 'u']),
    (ofChars 'V' 'a' 'i' 'i', [Tag.ofChars 'v' 'a' 'i' ' ']),
    (ofChars 'Y' 'i' 'i' 'i', [Tag.ofChars 'y' 'i' ' ' ' '])]

def lowerByte (byte : UInt8) : UInt8 := if 65 ≤ byte ∧ byte ≤ 90 then byte + 32 else byte

def upperByte (byte : UInt8) : UInt8 := if 97 ≤ byte ∧ byte ≤ 122 then byte - 32 else byte

def isLetterByte (byte : UInt8) : Bool :=
  (65 ≤ byte && byte ≤ 90) || (97 ≤ byte && byte ≤ 122)

/-- The layout tags of the script, the preferred one first. -/
def layoutTags (script : Script) : List Tag :=
  match registeredTags.find? (fun row => decide (row.1 = script)) with
  | some row => row.2
  | none => [{ script.tag with first := lowerByte script.tag.first }]

def ofLayoutTag? (tag : Tag) : Option Script :=
  if tag = Tag.ofChars 'D' 'F' 'L' 'T' then some common
  else
    match registeredTags.find? (fun row => !row.1.isDefault && row.2.contains tag) with
    | some row => some row.1
    | none =>
        if tag.bytes.all isLetterByte then some ⟨{ tag with first := upperByte tag.first }⟩
        else none

/-- A text that is no script code. -/
structure Invalid where
  text : String
  deriving DecidableEq

def Invalid.message (invalid : Invalid) : String :=
  "'" ++ invalid.text ++ "' is not a four-letter script code"

def read (text : String) : Except Invalid Script :=
  match text.toUTF8.toList with
  | [first, second, third, fourth] =>
      let tag : Tag := ⟨first, second, third, fourth⟩
      if tag.bytes.all isLetterByte then .ok ⟨tag⟩ else .error ⟨text⟩
  | _ => .error ⟨text⟩

end Script

end FontCompiler
