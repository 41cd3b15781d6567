import Literate.Text.Utf8

/-!
# White space

The white space of Unicode, and the first field of a text: the first run of characters that are
none of it.
-/

namespace Literate.Text

/-- Is this character white space? -/
def isBlank (c : Char) : Bool :=
  let n := c.toNat
  (9 ≤ n && n ≤ 13) || n == 0x20 || n == 0x85 || n == 0xA0 || n == 0x1680 ||
    (0x2000 ≤ n && n ≤ 0x200A) || n == 0x2028 || n == 0x2029 || n == 0x202F || n == 0x205F ||
    n == 0x3000

/-- Is this glyph white space? A stray byte is not. -/
def Glyph.isBlank : Glyph → Bool
  | .char c => Text.isBlank c
  | .stray _ => false

/-- The first field of a text, or nothing if the text is all white space. -/
def firstField (s : Bytes) : Bytes :=
  encode (((decode s).dropWhile Glyph.isBlank).takeWhile fun g => !g.isBlank)

end Literate.Text
