import Literate.Bytes

/-!
# Reading bytes as UTF-8

A byte string is read as a list of glyphs: characters in their shortest UTF-8 form, and stray
bytes that belong to no such form. Nothing is lost: writing the glyphs gives the bytes back.
-/

namespace Literate.Text

open Bytes

/-- A character, or a byte that is not part of valid UTF-8. -/
inductive Glyph where
  | char (c : Char)
  | stray (b : UInt8)
deriving DecidableEq, Repr

/-- The UTF-8 form of one character. -/
def encodeChar (c : Char) : Bytes := String.utf8EncodeChar c

/-- The bytes a glyph was read from. -/
def Glyph.bytes : Glyph → Bytes
  | .char c => encodeChar c
  | .stray b => [b]

/-- Write glyphs as bytes. -/
def encode (gs : List Glyph) : Bytes := gs.flatMap Glyph.bytes

/-- The six value bits of a continuation byte. -/
def continuation? (b : UInt8) : Option Nat :=
  if 0x80 ≤ b && b ≤ 0xBF then some (b.toNat - 0x80) else none

/-- The character with code point `v` if it needs the form that starts at `least`. -/
def charAtLeast? (least v : Nat) : Option Char :=
  if least ≤ v && (v < 0xD800 || (0xDFFF < v && v < 0x110000)) then some (Char.ofNat v) else none

/-- The character of more than one byte that starts with `b`, and the number of bytes it takes
from what follows. -/
def longChar? (b : UInt8) (rest : Bytes) : Option (Char × Nat) :=
  if 0xC0 ≤ b && b ≤ 0xDF then
    match rest with
    | b₁ :: _ => do
      let v₁ ← continuation? b₁
      let c ← charAtLeast? 0x80 ((b.toNat - 0xC0) * 64 + v₁)
      some (c, 1)
    | _ => none
  else if 0xE0 ≤ b && b ≤ 0xEF then
    match rest with
    | b₁ :: b₂ :: _ => do
      let v₁ ← continuation? b₁
      let v₂ ← continuation? b₂
      let c ← charAtLeast? 0x800 (((b.toNat - 0xE0) * 64 + v₁) * 64 + v₂)
      some (c, 2)
    | _ => none
  else if 0xF0 ≤ b && b ≤ 0xF7 then
    match rest with
    | b₁ :: b₂ :: b₃ :: _ => do
      let v₁ ← continuation? b₁
      let v₂ ← continuation? b₂
      let v₃ ← continuation? b₃
      let c ← charAtLeast? 0x10000 ((((b.toNat - 0xF0) * 64 + v₁) * 64 + v₂) * 64 + v₃)
      some (c, 3)
    | _ => none
  else none

/-- The glyph at the front of `b :: rest`, and the number of bytes it takes from `rest`. A byte
that starts no valid character stands alone. -/
def glyphAt (b : UInt8) (rest : Bytes) : Glyph × Nat :=
  if b < 0x80 then (.char (Char.ofNat b.toNat), 0)
  else match longChar? b rest with
    | some (c, n) => (.char c, n)
    | none => (.stray b, 0)

/-- Read glyphs; those read so far are in `done`, last one first. -/
def decodeFrom (done : List Glyph) : Bytes → List Glyph
  | [] => done.reverse
  | b :: rest => decodeFrom ((glyphAt b rest).1 :: done) (rest.drop (glyphAt b rest).2)
termination_by s => s.length
decreasing_by simp only [List.length_cons, List.length_drop]; omega

/-- Read bytes as glyphs. -/
def decode (s : Bytes) : List Glyph := decodeFrom [] s

/-- Is every byte part of a character? -/
def isValid (s : Bytes) : Bool := (decode s).all fun
  | .char _ => true
  | .stray _ => false

/-- U+FFFD, which takes the place of what cannot be read. -/
def replacement : Char := '�'

/-- The character a glyph is shown as. -/
def Glyph.shown : Glyph → Char
  | .char c => c
  | .stray _ => replacement

/-- Every stray byte replaced by U+FFFD. -/
def repair (s : Bytes) : Bytes := (decode s).flatMap fun g => encodeChar g.shown

end Literate.Text
