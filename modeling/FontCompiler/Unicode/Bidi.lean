import FontCompiler.Unicode.CodeRange

/-!
# Bidirectional character types

The fourteen types under which the bidirectional algorithm knows characters,
with their short names and the direction that the strong ones impose.
-/

namespace FontCompiler

inductive BidiClass where
  | leftToRight
  | rightToLeft
  | arabicLetter
  | europeanNumber
  | europeanSeparator
  | europeanTerminator
  | arabicNumber
  | commonSeparator
  | nonspacingMark
  | boundaryNeutral
  | paragraphSeparator
  | segmentSeparator
  | whiteSpace
  | otherNeutral
  deriving DecidableEq, Repr

namespace BidiClass

def names : List (BidiClass × String) :=
  [(leftToRight, "L"), (rightToLeft, "R"), (arabicLetter, "AL"), (europeanNumber, "EN"),
    (europeanSeparator, "ES"), (europeanTerminator, "ET"), (arabicNumber, "AN"),
    (commonSeparator, "CS"), (nonspacingMark, "NSM"), (boundaryNeutral, "BN"),
    (paragraphSeparator, "B"), (segmentSeparator, "S"), (whiteSpace, "WS"), (otherNeutral, "ON")]

def text (type : BidiClass) : String :=
  ((names.find? (fun row => decide (row.1 = type))).map Prod.snd).getD ""

def ofText? (text : String) : Option BidiClass :=
  (names.find? (fun row => decide (row.2 = text))).map Prod.fst

/-- The types of characters common to all scripts; those not listed are other neutrals. -/
def commonRanges : List (CodeRange BidiClass) :=
  [⟨0x30, 0x39, europeanNumber⟩,
    ⟨0x09, 0x09, segmentSeparator⟩, ⟨0x0B, 0x0B, segmentSeparator⟩,
    ⟨0x1F, 0x1F, segmentSeparator⟩,
    ⟨0x0A, 0x0A, paragraphSeparator⟩, ⟨0x0D, 0x0D, paragraphSeparator⟩,
    ⟨0x1C, 0x1E, paragraphSeparator⟩, ⟨0x85, 0x85, paragraphSeparator⟩,
    ⟨0x2029, 0x2029, paragraphSeparator⟩,
    ⟨0x20, 0x20, whiteSpace⟩, ⟨0x0C, 0x0C, whiteSpace⟩, ⟨0x2000, 0x200A, whiteSpace⟩,
    ⟨0x2028, 0x2028, whiteSpace⟩,
    ⟨0x2B, 0x2B, europeanSeparator⟩, ⟨0x2D, 0x2D, europeanSeparator⟩,
    ⟨0x23, 0x25, europeanTerminator⟩, ⟨0xA2, 0xA5, europeanTerminator⟩,
    ⟨0xB0, 0xB1, europeanTerminator⟩, ⟨0x20A0, 0x20CF, europeanTerminator⟩,
    ⟨0x2C, 0x2C, commonSeparator⟩, ⟨0x2E, 0x2F, commonSeparator⟩, ⟨0x3A, 0x3A, commonSeparator⟩,
    ⟨0xA0, 0xA0, commonSeparator⟩,
    ⟨0x00, 0x08, boundaryNeutral⟩, ⟨0x0E, 0x1B, boundaryNeutral⟩, ⟨0x7F, 0x84, boundaryNeutral⟩,
    ⟨0x86, 0x9F, boundaryNeutral⟩, ⟨0xAD, 0xAD, boundaryNeutral⟩,
    ⟨0x200B, 0x200B, boundaryNeutral⟩,
    ⟨0x200E, 0x200E, leftToRight⟩, ⟨0x200F, 0x200F, rightToLeft⟩]

def ofCommon (codepoint : Codepoint) : BidiClass :=
  match commonRanges.find? (fun range => range.covers codepoint) with
  | some range => range.value
  | none => otherNeutral

end BidiClass

end FontCompiler
