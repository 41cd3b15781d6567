import Literate.Text.Blank

/-!
# Files of settings

A `.env` file assigns values to names, one after the other:

    # where to listen
    PORT=9000
    export GREETING="hello\n$NAME"
    MOTTO: 'taken as it stands'   # a comment

`assignments` gives the assignments in order, or nothing if any of them is malformed. A value may
refer to names assigned earlier in the same file.
-/

namespace Literate.Dotenv

open Bytes Text

/-! ### Characters -/

/-- White space that does not end a line. -/
def isInlineBlank (c : Char) : Bool :=
  let n := c.toNat
  n == 9 || n == 11 || n == 12 || n == 13 || n == 32 || n == 0x85 || n == 0xA0

/-- Drop the characters at the front that satisfy `p`. -/
def dropChars (p : Char → Bool) : Bytes → Bytes
  | [] => []
  | b :: rest =>
    match glyphAt b rest with
    | (.char c, n) => if p c then dropChars p (rest.drop n) else b :: rest
    | (.stray _, _) => b :: rest
termination_by s => s.length
decreasing_by simp only [List.length_cons, List.length_drop]; omega

/-- Drop the characters at the end that satisfy `p`. -/
def dropCharsRight (p : Char → Bool) (s : Bytes) : Bytes :=
  encode (((decode s).reverse.dropWhile fun
    | .char c => p c
    | .stray _ => false).reverse)

/-- May this byte stand in a name? Bytes beyond ASCII count as the character of the same
number. -/
def isNameByte (b : UInt8) : Bool :=
  (48 ≤ b && b ≤ 57) || (65 ≤ b && b ≤ 90) || (97 ≤ b && b ≤ 122) || b == 95 || b == 46 ||
    isInlineBlank (Char.ofNat b.toNat) ||
    b == 0xAA || b == 0xB2 || b == 0xB3 || b == 0xB5 || b == 0xB9 || b == 0xBA ||
    (0xBC ≤ b && b ≤ 0xBE) || (0xC0 ≤ b && b != 0xD7 && b != 0xF7)

/-! ### Values -/

/-- Names with their values, newest first. -/
abbrev Bindings := List (Bytes × Bytes)

/-- The value of a name, empty if there is none. -/
def Bindings.value (bindings : Bindings) (name : Bytes) : Bytes := (bindings.lookup name).getD []

/-- May this byte stand in the name of a reference? -/
def isReferenceByte (b : UInt8) : Bool := (48 ≤ b && b ≤ 57) || (65 ≤ b && b ≤ 90) || b == 95

/-- What follows a dollar sign as part of a reference. -/
structure Reference where
  /-- All of it. -/
  text : Bytes
  /-- The name alone. -/
  name : Bytes

/-- The byte `b` if it is at the front. -/
def optional (b : UInt8) (s : Bytes) : Bytes := if s.head? = some b then [b] else []

/-- Read the rest of a reference: perhaps an opening parenthesis, perhaps an opening brace, a
name, perhaps a closing brace. -/
def Reference.read (s : Bytes) : Reference :=
  let paren := optional 40 s
  let brace := optional 123 (s.drop paren.length)
  let opening := paren ++ brace
  let name := (s.drop opening.length).takeWhile isReferenceByte
  let closing := optional 125 (s.drop (opening.length + name.length))
  ⟨opening ++ name ++ closing, name⟩

/-- Replace references from here on; the result so far is in `done`, last byte first. -/
def expandFrom (bindings : Bindings) (done : Bytes) : Bytes → Bytes
  | [] => done.reverse
  | 92 :: 36 :: rest =>
    let text := (Reference.read rest).text
    expandFrom bindings (text.reverse ++ 36 :: done) (rest.drop text.length)
  | 36 :: rest =>
    let reference := Reference.read rest
    let value :=
      if reference.name.isEmpty then 36 :: reference.text else bindings.value reference.name
    expandFrom bindings (value.reverse ++ done) (rest.drop reference.text.length)
  | b :: rest => expandFrom bindings (b :: done) rest
termination_by s => s.length
decreasing_by all_goals simp only [List.length_cons, List.length_drop]; omega

/-- Replace every reference `$NAME` or `${NAME}` by the value of the name. A reference after a
backslash loses the backslash and stays. -/
def expand (bindings : Bindings) (s : Bytes) : Bytes := expandFrom bindings [] s

/-- Line ends written as `\n` and `\r`; all other escapes stay. -/
def unescapeEnds (done : Bytes) : Bytes → Bytes
  | [] => done.reverse
  | [b] => (b :: done).reverse
  | b :: c :: rest =>
    if b ≠ 92 ∨ c = lf then unescapeEnds (b :: done) (c :: rest)
    else if c = 110 then unescapeEnds (lf :: done) rest
    else if c = 114 then unescapeEnds (cr :: done) rest
    else unescapeEnds (c :: b :: done) rest

/-- Every escaped character but the dollar sign without its backslash. -/
def unescapeOthers (done : Bytes) : Bytes → Bytes
  | [] => done.reverse
  | [b] => (b :: done).reverse
  | b :: c :: rest =>
    if b ≠ 92 ∨ c = 36 then unescapeOthers (b :: done) (c :: rest)
    else unescapeOthers (c :: done) rest

/-- What a value in double quotes means, references aside. -/
def unescape (s : Bytes) : Bytes := unescapeOthers [] (unescapeEnds [] s)

/-- The text before the last number sign that follows a blank, both given last character first. -/
def beforeComment : List Char → Option (List Char)
  | [] => none
  | c :: rest =>
    if c = '#' ∧ (rest.head?.map isInlineBlank).getD false then some rest else beforeComment rest

/-- The value of an unquoted text: without a comment at its end and blanks around it. -/
def bareValue (bindings : Bindings) (s : Bytes) : Bytes :=
  let reversed := ((decode s).map Glyph.shown).reverse
  let kept := (beforeComment reversed).getD reversed
  let trimmed := ((kept.dropWhile isInlineBlank).reverse).dropWhile isInlineBlank
  expand bindings (trimmed.flatMap encodeChar)

/-- The text up to the next `quote` that does not follow a backslash, and the rest after it; what
was passed so far is in `passed`, last byte first. -/
def toClosingQuote (quote : UInt8) (passed : Bytes) : Bytes → Option (Bytes × Bytes)
  | [] => none
  | b :: rest =>
    if b = quote ∧ passed.head? ≠ some 92 then some (passed.reverse, rest)
    else toClosingQuote quote (b :: passed) rest

/-- The value of a text in quotes, given with the opening quote but without the closing one. -/
def quotedValue (bindings : Bindings) (quote : UInt8) (s : Bytes) : Bytes :=
  let inner := (trimRight (· == quote) s).dropWhile (· == quote)
  if quote = 34 then expand bindings (unescape inner) else inner

/-- Does this byte end an unquoted value? -/
def endsValue (b : UInt8) : Bool := b == lf || b == cr

/-- Read a value and the rest after it; there is none if a quote is not closed. -/
def value? (bindings : Bindings) (s : Bytes) : Option (Bytes × Bytes) :=
  match s with
  | [] => some ([], [])
  | b :: rest =>
    if b = 34 ∨ b = 39 then
      (toClosingQuote b [b] rest).map fun (inner, rest) => (quotedValue bindings b inner, rest)
    else
      some (bareValue bindings (s.takeWhile (!endsValue ·)), s.dropWhile (!endsValue ·))

/-! ### Assignments -/

/-- Skip white space and comments; `fuel` bounds the number of comments. -/
def skipComments : Nat → Bytes → Bytes
  | 0, s => s
  | fuel + 1, s =>
    match dropChars isBlank s with
    | 35 :: rest => skipComments fuel (rest.dropWhile (· != lf))
    | s => s

/-- The text without a leading `export` and the blanks after it. -/
def dropExport (s : Bytes) : Bytes :=
  match afterPrefix? (utf8 "export") s with
  | some rest =>
    let trimmed := dropChars isInlineBlank rest
    if trimmed = rest then s else trimmed
  | none => s

/-- Does this byte separate a name from its value? -/
def isSeparator (b : UInt8) : Bool := b == 61 || b == 58

/-- Read a name and the rest after its separator. If the text ends before a separator, the name is
empty and all of the text is left. -/
def name? (s : Bytes) : Option (Bytes × Bytes) :=
  let s := dropExport s
  let name := s.takeWhile (!isSeparator ·)
  if s.isEmpty || !name.all isNameByte then none
  else
    match s.dropWhile (!isSeparator ·) with
    | _ :: rest => some (dropCharsRight isBlank name, dropChars isInlineBlank rest)
    | [] => some ([], s)

/-- Read assignments; every one takes at least a byte, and so does a comment, so `fuel` need not
exceed the length for either. -/
def assignmentsFrom : Nat → Bindings → Bytes → Option Bindings
  | 0, done, _ => some done
  | fuel + 1, done, s =>
    match skipComments (fuel + 1) s with
    | [] => some done
    | s => do
      let (name, rest) ← name? s
      let (value, rest) ← value? done rest
      assignmentsFrom fuel ((name, value) :: done) rest

/-- The assignments of a file, newest first, unless it is malformed. -/
def assignments (file : Bytes) : Option Bindings :=
  assignmentsFrom (file.length + 1) [] (replaceAll [cr, lf] [lf] file)

end Literate.Dotenv
