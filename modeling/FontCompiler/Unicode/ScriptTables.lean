import FontCompiler.Unicode.Bidi
import FontCompiler.Unicode.Script

/-!
# Built-in character tables

The scripts of the characters that fonts most often kern and attach marks to,
the scripts that share a character, and the bidirectional types that differ
from what a character's script says.
-/

namespace FontCompiler

def scriptRanges : CodeTable Script :=
  #[⟨0x0000, 0x0040, .common⟩, ⟨0x0041, 0x005A, .latin⟩, ⟨0x005B, 0x0060, .common⟩,
    ⟨0x0061, 0x007A, .latin⟩, ⟨0x007B, 0x00A9, .common⟩, ⟨0x00AA, 0x00AA, .latin⟩,
    ⟨0x00AB, 0x00B9, .common⟩, ⟨0x00BA, 0x00BA, .latin⟩, ⟨0x00BB, 0x00BF, .common⟩,
    ⟨0x00C0, 0x00D6, .latin⟩, ⟨0x00D7, 0x00D7, .common⟩, ⟨0x00D8, 0x00F6, .latin⟩,
    ⟨0x00F7, 0x00F7, .common⟩, ⟨0x00F8, 0x02B8, .latin⟩, ⟨0x02B9, 0x02FF, .common⟩,
    ⟨0x0300, 0x036F, .inherited⟩, ⟨0x0370, 0x03FF, .greek⟩, ⟨0x0400, 0x052F, .cyrillic⟩,
    ⟨0x0531, 0x058F, .ofChars 'A' 'r' 'm' 'n'⟩, ⟨0x0591, 0x05FF, .hebrew⟩,
    ⟨0x0600, 0x060B, .arabic⟩, ⟨0x060C, 0x060C, .common⟩, ⟨0x060D, 0x061A, .arabic⟩,
    ⟨0x061B, 0x061B, .common⟩, ⟨0x061C, 0x061E, .arabic⟩, ⟨0x061F, 0x061F, .common⟩,
    ⟨0x0620, 0x063F, .arabic⟩, ⟨0x0640, 0x0640, .common⟩, ⟨0x0641, 0x064A, .arabic⟩,
    ⟨0x064B, 0x0655, .inherited⟩, ⟨0x0656, 0x066F, .arabic⟩, ⟨0x0670, 0x0670, .inherited⟩,
    ⟨0x0671, 0x06DC, .arabic⟩, ⟨0x06DD, 0x06DD, .common⟩, ⟨0x06DE, 0x06FF, .arabic⟩,
    ⟨0x0700, 0x074F, .ofChars 'S' 'y' 'r' 'c'⟩, ⟨0x0750, 0x077F, .arabic⟩,
    ⟨0x0780, 0x07BF, .ofChars 'T' 'h' 'a' 'a'⟩, ⟨0x07C0, 0x07FF, .ofChars 'N' 'k' 'o' 'o'⟩,
    ⟨0x0800, 0x083F, .ofChars 'S' 'a' 'm' 'r'⟩, ⟨0x08A0, 0x08FF, .arabic⟩,
    ⟨0x0900, 0x0950, .devanagari⟩, ⟨0x0951, 0x0954, .inherited⟩, ⟨0x0955, 0x0963, .devanagari⟩,
    ⟨0x0964, 0x0965, .common⟩, ⟨0x0966, 0x097F, .devanagari⟩,
    ⟨0x0980, 0x09FF, .ofChars 'B' 'e' 'n' 'g'⟩, ⟨0x0A00, 0x0A7F, .ofChars 'G' 'u' 'r' 'u'⟩,
    ⟨0x0A80, 0x0AFF, .ofChars 'G' 'u' 'j' 'r'⟩, ⟨0x0B00, 0x0B7F, .ofChars 'O' 'r' 'y' 'a'⟩,
    ⟨0x0B80, 0x0BFF, .ofChars 'T' 'a' 'm' 'l'⟩, ⟨0x0C00, 0x0C7F, .ofChars 'T' 'e' 'l' 'u'⟩,
    ⟨0x0C80, 0x0CFF, .ofChars 'K' 'n' 'd' 'a'⟩, ⟨0x0D00, 0x0D7F, .ofChars 'M' 'l' 'y' 'm'⟩,
    ⟨0x0D80, 0x0DFF, .ofChars 'S' 'i' 'n' 'h'⟩, ⟨0x0E01, 0x0E3A, .ofChars 'T' 'h' 'a' 'i'⟩,
    ⟨0x0E3F, 0x0E3F, .common⟩, ⟨0x0E40, 0x0E5B, .ofChars 'T' 'h' 'a' 'i'⟩,
    ⟨0x0E80, 0x0EFF, .ofChars 'L' 'a' 'o' 'o'⟩, ⟨0x0F00, 0x0FFF, .ofChars 'T' 'i' 'b' 't'⟩,
    ⟨0x1000, 0x109F, .ofChars 'M' 'y' 'm' 'r'⟩, ⟨0x10A0, 0x10FF, .ofChars 'G' 'e' 'o' 'r'⟩,
    ⟨0x1100, 0x11FF, .ofChars 'H' 'a' 'n' 'g'⟩, ⟨0x1780, 0x17FF, .ofChars 'K' 'h' 'm' 'r'⟩,
    ⟨0x1E00, 0x1EFF, .latin⟩, ⟨0x1F00, 0x1FFF, .greek⟩, ⟨0x2000, 0x200B, .common⟩,
    ⟨0x200C, 0x200D, .inherited⟩, ⟨0x200E, 0x20CF, .common⟩, ⟨0x20D0, 0x20F0, .inherited⟩,
    ⟨0x20F1, 0x2BFF, .common⟩, ⟨0x2C60, 0x2C7F, .latin⟩, ⟨0x2DE0, 0x2DFF, .cyrillic⟩,
    ⟨0x3000, 0x3004, .common⟩, ⟨0x3005, 0x3005, .ofChars 'H' 'a' 'n' 'i'⟩,
    ⟨0x3006, 0x3006, .common⟩, ⟨0x3007, 0x3007, .ofChars 'H' 'a' 'n' 'i'⟩,
    ⟨0x3008, 0x3020, .common⟩, ⟨0x3041, 0x3096, .ofChars 'H' 'i' 'r' 'a'⟩,
    ⟨0x30A1, 0x30FA, .ofChars 'K' 'a' 'n' 'a'⟩, ⟨0x30FB, 0x30FC, .common⟩,
    ⟨0x3131, 0x318E, .ofChars 'H' 'a' 'n' 'g'⟩, ⟨0x4E00, 0x9FFF, .ofChars 'H' 'a' 'n' 'i'⟩,
    ⟨0xA640, 0xA69F, .cyrillic⟩, ⟨0xA720, 0xA7FF, .latin⟩,
    ⟨0xAC00, 0xD7A3, .ofChars 'H' 'a' 'n' 'g'⟩, ⟨0xFB00, 0xFB06, .latin⟩,
    ⟨0xFB1D, 0xFB4F, .hebrew⟩, ⟨0xFB50, 0xFDFF, .arabic⟩, ⟨0xFE70, 0xFEFE, .arabic⟩,
    ⟨0xFF21, 0xFF3A, .latin⟩, ⟨0xFF41, 0xFF5A, .latin⟩]

/-- The scripts with which a shared character is used. -/
def extensionRanges : CodeTable (List Script) :=
  #[⟨0x060C, 0x060C, [.ofChars 'A' 'r' 'a' 'b', .ofChars 'N' 'k' 'o' 'o',
      .ofChars 'R' 'o' 'h' 'g', .ofChars 'S' 'y' 'r' 'c', .ofChars 'T' 'h' 'a' 'a',
      .ofChars 'Y' 'e' 'z' 'i']⟩,
    ⟨0x061B, 0x061B, [.ofChars 'A' 'r' 'a' 'b', .ofChars 'N' 'k' 'o' 'o',
      .ofChars 'R' 'o' 'h' 'g', .ofChars 'S' 'y' 'r' 'c', .ofChars 'T' 'h' 'a' 'a',
      .ofChars 'Y' 'e' 'z' 'i']⟩,
    ⟨0x061F, 0x061F, [.ofChars 'A' 'd' 'l' 'm', .ofChars 'A' 'r' 'a' 'b',
      .ofChars 'N' 'k' 'o' 'o', .ofChars 'R' 'o' 'h' 'g', .ofChars 'S' 'y' 'r' 'c',
      .ofChars 'T' 'h' 'a' 'a', .ofChars 'Y' 'e' 'z' 'i']⟩,
    ⟨0x0640, 0x0640, [.ofChars 'A' 'd' 'l' 'm', .ofChars 'A' 'r' 'a' 'b',
      .ofChars 'M' 'a' 'n' 'd', .ofChars 'M' 'a' 'n' 'i', .ofChars 'O' 'u' 'g' 'r',
      .ofChars 'P' 'h' 'l' 'p', .ofChars 'R' 'o' 'h' 'g', .ofChars 'S' 'o' 'g' 'd',
      .ofChars 'S' 'y' 'r' 'c']⟩,
    ⟨0x064B, 0x0655, [.ofChars 'A' 'r' 'a' 'b', .ofChars 'S' 'y' 'r' 'c']⟩,
    ⟨0x0660, 0x0669, [.ofChars 'A' 'r' 'a' 'b', .ofChars 'T' 'h' 'a' 'a',
      .ofChars 'Y' 'e' 'z' 'i']⟩,
    ⟨0x0670, 0x0670, [.ofChars 'A' 'r' 'a' 'b', .ofChars 'S' 'y' 'r' 'c']⟩,
    ⟨0x0951, 0x0952, [.ofChars 'B' 'e' 'n' 'g', .ofChars 'D' 'e' 'v' 'a',
      .ofChars 'G' 'r' 'a' 'n', .ofChars 'G' 'u' 'j' 'r', .ofChars 'G' 'u' 'r' 'u',
      .ofChars 'K' 'n' 'd' 'a', .ofChars 'L' 'a' 't' 'n', .ofChars 'M' 'l' 'y' 'm',
      .ofChars 'O' 'r' 'y' 'a', .ofChars 'S' 'h' 'r' 'd', .ofChars 'T' 'a' 'm' 'l',
      .ofChars 'T' 'e' 'l' 'u', .ofChars 'T' 'i' 'r' 'h']⟩,
    ⟨0x0964, 0x0965, [.ofChars 'B' 'e' 'n' 'g', .ofChars 'D' 'e' 'v' 'a',
      .ofChars 'D' 'o' 'g' 'r', .ofChars 'G' 'o' 'n' 'g', .ofChars 'G' 'o' 'n' 'm',
      .ofChars 'G' 'r' 'a' 'n', .ofChars 'G' 'u' 'j' 'r', .ofChars 'G' 'u' 'r' 'u',
      .ofChars 'K' 'n' 'd' 'a', .ofChars 'M' 'a' 'h' 'j', .ofChars 'M' 'l' 'y' 'm',
      .ofChars 'N' 'a' 'n' 'd', .ofChars 'O' 'r' 'y' 'a', .ofChars 'S' 'i' 'n' 'd',
      .ofChars 'S' 'i' 'n' 'h', .ofChars 'S' 'y' 'l' 'o', .ofChars 'T' 'a' 'k' 'r',
      .ofChars 'T' 'a' 'm' 'l', .ofChars 'T' 'e' 'l' 'u', .ofChars 'T' 'i' 'r' 'h']⟩,
    ⟨0x3001, 0x3003, [.ofChars 'B' 'o' 'p' 'o', .ofChars 'H' 'a' 'n' 'g',
      .ofChars 'H' 'a' 'n' 'i', .ofChars 'H' 'i' 'r' 'a', .ofChars 'K' 'a' 'n' 'a',
      .ofChars 'Y' 'i' 'i' 'i']⟩,
    ⟨0x30FB, 0x30FC, [.ofChars 'H' 'i' 'r' 'a', .ofChars 'K' 'a' 'n' 'a']⟩]

/-- The types of characters whose script does not tell their type. -/
def bidiRanges : CodeTable BidiClass :=
  #[⟨0x0591, 0x05BD, .nonspacingMark⟩, ⟨0x0600, 0x0605, .arabicNumber⟩,
    ⟨0x0610, 0x061A, .nonspacingMark⟩, ⟨0x064B, 0x065F, .nonspacingMark⟩,
    ⟨0x0660, 0x0669, .arabicNumber⟩, ⟨0x066B, 0x066C, .arabicNumber⟩,
    ⟨0x0670, 0x0670, .nonspacingMark⟩, ⟨0x06D6, 0x06DC, .nonspacingMark⟩,
    ⟨0x06DF, 0x06E4, .nonspacingMark⟩, ⟨0x06E7, 0x06E8, .nonspacingMark⟩,
    ⟨0x06EA, 0x06ED, .nonspacingMark⟩, ⟨0x06F0, 0x06F9, .europeanNumber⟩]

end FontCompiler
