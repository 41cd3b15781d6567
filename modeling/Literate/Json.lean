import Literate.Text.Utf8

/-!
# JSON

JSON values with their fields in order, and how they are written. Two kinds of output write
strings differently, so the writer takes the set of escapes as an argument. What cannot be read
as UTF-8 is written as U+FFFD.
-/

namespace Literate

open Bytes Text

/-- A JSON value. A number is kept as it is written. -/
inductive Json where
  | null
  | bool (b : Bool)
  | number (literal : Bytes)
  | string (s : Bytes)
  | array (items : List Json)
  | object (fields : List (Bytes × Json))

namespace Json

/-- A whole number. -/
def int (n : Int) : Json := .number (decimalInt n)

/-- Which characters a string writes as escapes beyond those that every string has to. -/
structure Escapes where
  /-- Write `<`, `>` and `&` by number, so that the text can stand in a web page. -/
  markup : Bool
  /-- Write backspace and form feed as `\b` and `\f`. -/
  letters : Bool

/-- An escape by number. -/
def unicodeEscape (n : Nat) : Bytes := utf8 "\\u" ++ hex 4 n

/-- A character inside a string. -/
def escapeChar (e : Escapes) (c : Char) : Bytes :=
  let n := c.toNat
  if n = 34 ∨ n = 92 then 92 :: encodeChar c
  else if n = 10 then utf8 "\\n"
  else if n = 13 then utf8 "\\r"
  else if n = 9 then utf8 "\\t"
  else if n = 8 ∧ e.letters then utf8 "\\b"
  else if n = 12 ∧ e.letters then utf8 "\\f"
  else if n < 32 then unicodeEscape n
  else if e.markup ∧ (n = 38 ∨ n = 60 ∨ n = 62) then unicodeEscape n
  else if n = 0x2028 ∨ n = 0x2029 then unicodeEscape n
  else encodeChar c

/-- A string between quotes. A byte that belongs to no character becomes the character U+FFFD itself,
three bytes long, and not an escape for it. -/
def renderString (e : Escapes) (s : Bytes) : Bytes :=
  34 :: (decode s).flatMap (fun g => escapeChar e g.shown) ++ [34]

/-- Pieces with commas between them. -/
def joinCommas : List Bytes → Bytes
  | [] => []
  | piece :: others => piece ++ others.flatMap (44 :: ·)

/-- A value without any blanks. -/
def render (e : Escapes) : Json → Bytes
  | .null => utf8 "null"
  | .bool true => utf8 "true"
  | .bool false => utf8 "false"
  | .number literal => literal
  | .string s => renderString e s
  | .array items => 91 :: joinCommas (items.map fun item => render e item) ++ [93]
  | .object fields =>
    123 :: joinCommas (fields.attach.map fun f =>
      renderString e f.1.1 ++ 58 :: render e f.1.2) ++ [125]
termination_by v => sizeOf v
decreasing_by
  · rename_i h
    have := List.sizeOf_lt_of_mem h
    simp only [Json.array.sizeOf_spec]
    omega
  · have h := List.sizeOf_lt_of_mem f.2
    have : sizeOf f.1.2 < sizeOf f.1 := by
      cases f.1; simp only [Prod.mk.sizeOf_spec]; omega
    simp only [Json.object.sizeOf_spec]
    omega

end Json

end Literate
