import Literate.Text.Printable

/-!
# Quoted text

A text between quotes, with everything that cannot be printed written as an escape: the usual
letters for the common controls, `\x7f` for the other ASCII controls and for stray bytes, and
`\u200b` or `\U0001f3fb` for the rest.
-/

namespace Literate.Text

open Bytes

/-- The letter that stands for a control character after a backslash. -/
def controlLetter? (c : Char) : Option UInt8 :=
  match c.toNat with
  | 7 => some 97
  | 8 => some 98
  | 9 => some 116
  | 10 => some 110
  | 11 => some 118
  | 12 => some 102
  | 13 => some 114
  | _ => none

/-- The number of an unprintable character as an escape of the least fitting width. -/
def numericEscape (n : Nat) : Bytes :=
  if n < 0x80 then utf8 "\\x" ++ hex 2 n
  else if n < 0x10000 then utf8 "\\u" ++ hex 4 n
  else utf8 "\\U" ++ hex 8 n

/-- A glyph as it stands between two quote characters `quote`. -/
def escapeGlyph (quote : Char) : Glyph → Bytes
  | .stray b => utf8 "\\x" ++ hex 2 b.toNat
  | .char c =>
    if c = quote ∨ c = '\\' then 92 :: encodeChar c
    else if isPrintable c then encodeChar c
    else match controlLetter? c with
      | some letter => [92, letter]
      | none => numericEscape c.toNat

/-- The double quote. -/
def doubleQuote : Char := Char.ofNat 34

/-- The single quote. -/
def singleQuote : Char := Char.ofNat 39

/-- A text between double quotes. -/
def quoted (s : Bytes) : Bytes :=
  34 :: (decode s).flatMap (escapeGlyph doubleQuote) ++ [34]

/-- A single character, given by its code point, between single quotes. -/
def quotedChar (c : Char) : Bytes := 39 :: escapeGlyph singleQuote (.char c) ++ [39]

end Literate.Text
