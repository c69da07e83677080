/-!
# Tags and names

Tables, scripts and languages are identified by four bytes. A shorter name is
filled up with spaces, and tags are ordered by their bytes. A glyph is known by
its name, and names are ordered by their characters.
-/

namespace FontCompiler

/-- The name of a glyph, unique within its font. -/
abbrev GlyphName := String

/-- The glyph with which every font is expected to begin. -/
def notdef : GlyphName := ".notdef"

structure Tag where
  first : UInt8
  second : UInt8
  third : UInt8
  fourth : UInt8
  deriving DecidableEq, Inhabited

namespace Tag

/-- The tag of four characters, each taken as its low byte. -/
def ofChars (first second third fourth : Char) : Tag :=
  ⟨first.toUInt8, second.toUInt8, third.toUInt8, fourth.toUInt8⟩

def bytes (tag : Tag) : List UInt8 := [tag.first, tag.second, tag.third, tag.fourth]

/-- The tag of a name with at most four bytes. -/
def ofString? (name : String) : Option Tag :=
  match name.toUTF8.toList with
  | [] => some ⟨32, 32, 32, 32⟩
  | [first] => some ⟨first, 32, 32, 32⟩
  | [first, second] => some ⟨first, second, 32, 32⟩
  | [first, second, third] => some ⟨first, second, third, 32⟩
  | [first, second, third, fourth] => some ⟨first, second, third, fourth⟩
  | _ => none

/-- The tag's bytes as one number. -/
def rank (tag : Tag) : Nat :=
  ((tag.first.toNat * 256 + tag.second.toNat) * 256 + tag.third.toNat) * 256 + tag.fourth.toNat

theorem rank_injective {first second : Tag} (same : first.rank = second.rank) :
    first = second := by
  cases first with
  | mk a b c d =>
      cases second with
      | mk e f g h =>
          simp only [rank] at same
          have bounds :=
            And.intro a.toNat_lt (And.intro b.toNat_lt (And.intro c.toNat_lt d.toNat_lt))
          have others :=
            And.intro e.toNat_lt (And.intro f.toNat_lt (And.intro g.toNat_lt h.toNat_lt))
          simp only [Tag.mk.injEq, ← UInt8.toNat_inj]
          omega

instance : Ord Tag where
  compare := compareOn rank

instance : Std.TransOrd Tag :=
  inferInstanceAs (Std.TransCmp (compareOn rank))

instance : Std.LawfulEqOrd Tag where
  compare_self {tag} := (Std.ReflCmp.compare_self : compare tag.rank tag.rank = .eq)
  eq_of_compare {first second} same := by
    have ranks : compare first.rank second.rank = .eq := same
    exact rank_injective (Std.LawfulEqCmp.eq_of_compare ranks)

def hexDigit (digit : Nat) : Char := (Nat.digitChar digit).toUpper

def byteText (byte : UInt8) : String :=
  if 0x20 ≤ byte ∧ byte ≤ 0x7E then String.ofList [Char.ofNat byte.toNat]
  else "\x7b0x" ++ String.ofList [hexDigit (byte.toNat / 16), hexDigit (byte.toNat % 16)] ++ "\x7d"

def text (tag : Tag) : String := String.join (tag.bytes.map byteText)

def unpadded (tag : Tag) : List UInt8 :=
  (tag.bytes.reverse.dropWhile fun byte => byte == 32).reverse

def trimmedText (tag : Tag) : String := String.join (tag.unpadded.map byteText)

end Tag

end FontCompiler
