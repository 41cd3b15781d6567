import Literate.Json
import Literate.Text.Integer

/-!
# Reading JSON

What a client makes of a JSON text, by the rules of the format: white space between the parts is
skipped, strings are written in quotes with escapes, a character beyond 16 bits may be written as a
pair of escapes, and the whole is UTF-8. There is no value if any rule is broken.

    text ──read?──▶ value

A number keeps its literal; `toInt?` gives its value if it is a whole number.
-/

namespace Literate.Json

open Bytes Text

/-- Is this byte white space between the parts of a text? -/
def isBlank (b : UInt8) : Bool := b == 32 || b == 9 || b == 10 || b == 13

def skipBlanks (s : Bytes) : Bytes := s.dropWhile isBlank

/-! ### Numbers -/

def isDigits (s : Bytes) : Bool := !s.isEmpty && s.all isDigit

/-- Digits without a leading zero. -/
def isWhole (s : Bytes) : Bool := isDigits s && (s.length == 1 || s.head? != some 48)

/-- Is this nothing, or an exponent? -/
def isExponent : Bytes → Bool
  | [] => true
  | b :: s =>
    (b == 101 || b == 69) &&
      isDigits (if s.head? = some 43 ∨ s.head? = some 45 then s.drop 1 else s)

/-- Is this what may follow the whole part of a number: a fraction, an exponent, both or none? -/
def isFraction (s : Bytes) : Bool :=
  if s.head? = some 46 then
    isDigits ((s.drop 1).takeWhile isDigit) && isExponent ((s.drop 1).dropWhile isDigit)
  else isExponent s

/-- Is this a number, perhaps with a minus sign? -/
def isNumber (s : Bytes) : Bool :=
  let unsigned := if s.head? = some 45 then s.drop 1 else s
  isWhole (unsigned.takeWhile isDigit) && isFraction (unsigned.dropWhile isDigit)

/-- May this byte stand in a number? -/
def isNumeric (b : UInt8) : Bool :=
  isDigit b || b == 43 || b == 45 || b == 46 || b == 69 || b == 101

/-! ### Strings -/

/-- The byte that a short escape stands for. -/
def shortEscape? (b : UInt8) : Option UInt8 :=
  ([(34, 34), (92, 92), (47, 47), (98, 8), (102, 12), (110, 10), (114, 13), (116, 9)] :
    List (UInt8 × UInt8)).lookup b

/-- The number that four hexadecimal digits make. -/
def codeUnit? (a b c d : UInt8) : Option Nat := do
  let a ← hexValue? a
  let b ← hexValue? b
  let c ← hexValue? c
  let d ← hexValue? d
  some (((a.toNat * 16 + b.toNat) * 16 + c.toNat) * 16 + d.toNat)

/-- The text `s` before what else is read. -/
def before (s : Bytes) (read : Option (Bytes × Bytes)) : Option (Bytes × Bytes) :=
  read.map fun r => (s ++ r.1, r.2)

/-- Read a string up to its closing quote, and what follows it. Code units from `D800` to `DFFF`
come in pairs only. -/
def readString : Bytes → Option (Bytes × Bytes)
  | [] => none
  | b :: rest =>
    if b = 34 then some ([], rest)
    else if b < 32 then none
    else if b ≠ 92 then before [b] (readString rest)
    else
      match rest with
      | 117 :: a :: b :: c :: d :: rest =>
        match codeUnit? a b c d with
        | none => none
        | some n =>
          if n < 0xD800 ∨ 0xDFFF < n then before (encodeChar (Char.ofNat n)) (readString rest)
          else
            match rest with
            | 92 :: 117 :: a :: b :: c :: d :: rest =>
              match codeUnit? a b c d with
              | none => none
              | some m =>
                if n < 0xDC00 ∧ 0xDC00 ≤ m ∧ m < 0xE000 then
                  before (encodeChar (Char.ofNat (0x10000 + (n - 0xD800) * 0x400 + (m - 0xDC00))))
                    (readString rest)
                else none
            | _ => none
      | e :: rest =>
        match shortEscape? e with
        | none => none
        | some b => before [b] (readString rest)
      | [] => none

/-! ### Values -/

/-- Read one of the three names or a number. -/
def readAtom (s : Bytes) : Option (Json × Bytes) :=
  match afterPrefix? (utf8 "null") s, afterPrefix? (utf8 "true") s,
      afterPrefix? (utf8 "false") s with
  | some rest, _, _ => some (.null, rest)
  | _, some rest, _ => some (.bool true, rest)
  | _, _, some rest => some (.bool false, rest)
  | none, none, none =>
    if isNumber (s.takeWhile isNumeric) then
      some (.number (s.takeWhile isNumeric), s.dropWhile isNumeric)
    else none

/-- Read what else a list holds, each after a comma, and its end. A step reads at least one byte, so
the number of bytes is calls enough. -/
def readRest {α : Type} (one : Bytes → Option (α × Bytes)) (close : UInt8) :
    Nat → Bytes → Option (List α × Bytes)
  | 0, _ => none
  | calls + 1, s =>
    match skipBlanks s with
    | [] => none
    | b :: rest =>
      if b = close then some ([], rest)
      else if b = 44 then do
        let (x, rest) ← one rest
        let (xs, rest) ← readRest one close calls rest
        some (x :: xs, rest)
      else none

/-- Read a list with commas between what it holds, and its end. -/
def readList {α : Type} (one : Bytes → Option (α × Bytes)) (close : UInt8) (s : Bytes) :
    Option (List α × Bytes) :=
  if (skipBlanks s).head? = some close then some ([], (skipBlanks s).drop 1)
  else do
    let (x, rest) ← one s
    let (xs, rest) ← readRest one close rest.length rest
    some (x :: xs, rest)

/-- Read a name in quotes and, after a colon, its value. -/
def readField (value : Bytes → Option (Json × Bytes)) (s : Bytes) :
    Option ((Bytes × Json) × Bytes) :=
  match skipBlanks s with
  | [] => none
  | b :: rest =>
    if b = 34 then do
      let (name, rest) ← readString rest
      match skipBlanks rest with
      | [] => none
      | b :: rest =>
        if b = 58 then (value rest).map fun r => ((name, r.1), r.2) else none
    else none

/-- Read a value, and what follows it. A value inside of another one follows a bracket, so the
number of bytes is calls enough. -/
def readValue : Nat → Bytes → Option (Json × Bytes)
  | 0, _ => none
  | calls + 1, s =>
    match skipBlanks s with
    | [] => none
    | b :: rest =>
      if b = 34 then (readString rest).map fun r => (.string r.1, r.2)
      else if b = 91 then (readList (readValue calls) 93 rest).map fun r => (.array r.1, r.2)
      else if b = 123 then
        (readList (readField (readValue calls)) 125 rest).map fun r => (.object r.1, r.2)
      else readAtom (b :: rest)

/-- The value that a text stands for, if it is a JSON text. -/
def read? (text : Bytes) : Option Json :=
  if isValid text then
    match readValue text.length text with
    | some (v, rest) => if skipBlanks rest = [] then some v else none
    | none => none
  else none

/-! ### Looking into a value -/

/-- The value of the first field of this name. -/
def field? (name : Bytes) : Json → Option Json
  | .object fields => fields.lookup name
  | _ => none

def toString? : Json → Option Bytes
  | .string s => some s
  | _ => none

def toArray? : Json → Option (List Json)
  | .array items => some items
  | _ => none

def toInt? : Json → Option Int
  | .number literal => readInt? literal
  | _ => none

end Literate.Json
