/-!
# Byte strings

Every text that is read or written is a list of bytes, and nothing asks it to be valid UTF-8.
This module holds the few operations on byte strings that the rest is built from:

* `cut` and `breakOn` split a text at the first separator;
* `replaceAll` substitutes a pattern, left to right and without overlap;
* `decimal` writes numbers;
* `lines` splits a text into lines at `"\n"` or `"\r\n"`.

All of them run in constant stack, since a single line may be as long as the whole input.
-/

namespace Literate

/-- A byte string. -/
abbrev Bytes := List UInt8

instance : LawfulBEq Bytes := inferInstance

/-- The UTF-8 bytes of a text. -/
def utf8 (s : String) : Bytes := s.toUTF8.data.toList

namespace Bytes

/-- Horizontal tab. -/
abbrev tab : UInt8 := 9

/-- Line feed, the end of a line. -/
abbrev lf : UInt8 := 10

/-- Carriage return, which may stand before a line feed. -/
abbrev cr : UInt8 := 13

/-- The space character. -/
abbrev space : UInt8 := 32

/-- The `@` that starts a directive. -/
abbrev atSign : UInt8 := 64

/-! ### Splitting -/

/-- What stands before the first `sep` and what stands after it; the second part is empty when
there is no `sep`. -/
def cut (sep : UInt8) (s : Bytes) : Bytes × Bytes :=
  (s.takeWhile (· != sep), (s.dropWhile (· != sep)).drop 1)

/-- Look for `pattern`; the bytes passed so far are in `passed`, last one first. -/
def breakOnFrom (pattern : Bytes) (passed : Bytes) : Bytes → Option (Bytes × Bytes)
  | [] => if pattern.isEmpty then some (passed.reverse, []) else none
  | b :: rest =>
    if pattern.isPrefixOf (b :: rest) then
      some (passed.reverse, (b :: rest).drop pattern.length)
    else
      breakOnFrom pattern (b :: passed) rest

/-- What stands before and after the first occurrence of `pattern`, if there is one. -/
def breakOn (pattern s : Bytes) : Option (Bytes × Bytes) := breakOnFrom pattern [] s

/-- `s` without the suffix `suffix`, if it ends so. -/
def dropSuffix (suffix s : Bytes) : Bytes :=
  if suffix.isSuffixOf s then s.take (s.length - suffix.length) else s

/-- The rest of `s` after `start`, if it starts so. -/
def afterPrefix? (start s : Bytes) : Option Bytes :=
  if start.isPrefixOf s then some (s.drop start.length) else none

/-- The pieces of `s` between separators; `n` separators make `n + 1` pieces. -/
def splitOn (sep : UInt8) (s : Bytes) : List Bytes :=
  s.foldr (fun b pieces =>
    if b = sep then [] :: pieces
    else match pieces with
      | [] => [[b]]
      | piece :: others => (b :: piece) :: others) [[]]

/-- Drop the bytes at the end that satisfy `p`. -/
def trimRight (p : UInt8 → Bool) (s : Bytes) : Bytes := (s.reverse.dropWhile p).reverse

/-! ### Replacing -/

/-- Replace from here on; `skip` bytes of a replaced occurrence are still to be passed, and `done`
is the result so far, last byte first. -/
def replaceFrom (pattern new : Bytes) : Nat → Bytes → Bytes → Bytes
  | _, done, [] => done.reverse
  | skip + 1, done, _ :: rest => replaceFrom pattern new skip done rest
  | 0, done, b :: rest =>
    if pattern.isPrefixOf (b :: rest) then
      replaceFrom pattern new (pattern.length - 1) (new.reverse ++ done) rest
    else
      replaceFrom pattern new 0 (b :: done) rest

/-- Every occurrence of the non-empty `pattern` replaced by `new`, left to right and without
overlap. -/
def replaceAll (pattern new s : Bytes) : Bytes := replaceFrom pattern new 0 [] s

/-- Every byte `old` replaced by `new`. -/
def replaceByte (old new : UInt8) (s : Bytes) : Bytes := s.map fun b => if b = old then new else b

/-! ### Numbers -/

/-- The ASCII digit of `d < 10`. -/
def digit (d : Nat) : UInt8 := (48 + d).toUInt8

/-- A number in decimal, without leading zeros. -/
def decimal (n : Nat) : Bytes :=
  if n < 10 then [digit n] else decimal (n / 10) ++ [digit (n % 10)]

/-- A signed number in decimal. -/
def decimalInt : Int → Bytes
  | .ofNat n => decimal n
  | .negSucc n => 45 :: decimal (n + 1)

/-- The lower-case hexadecimal digit of `d < 16`. -/
def hexDigit (d : Nat) : UInt8 := if d < 10 then digit d else (87 + d).toUInt8

/-- The last `width` hexadecimal digits of a number, leading zeros included. -/
def hex : Nat → Nat → Bytes
  | 0, _ => []
  | width + 1, n => hex width (n / 16) ++ [hexDigit (n % 16)]

/-- Is this byte an ASCII digit? -/
def isDigit (b : UInt8) : Bool := 48 ≤ b && b ≤ 57

/-- The value of a hexadecimal digit of either case. -/
def hexValue? (b : UInt8) : Option UInt8 :=
  if 48 ≤ b && b ≤ 57 then some (b - 48)
  else if 97 ≤ b && b ≤ 102 then some (b - 87)
  else if 65 ≤ b && b ≤ 70 then some (b - 55)
  else none

/-- ASCII letters in lower case, everything else as it is. -/
def asciiLower (s : Bytes) : Bytes := s.map fun b => if 65 ≤ b && b ≤ 90 then b + 32 else b

/-! ### Lines -/

/-- The lines of a text with the byte `b` in front. -/
def consLine (b : UInt8) (lines : List Bytes) : List Bytes :=
  if b = lf then [] :: lines
  else match lines with
    | [] => [[b]]
    | line :: others => (b :: line) :: others

/-- The lines of a text without their line feeds. What follows the last line feed is a line of
its own unless it is empty. -/
def rawLines (s : Bytes) : List Bytes := s.foldr consLine []

/-- A line without the one carriage return it may end in. -/
def trimCr (line : Bytes) : Bytes := if line.getLast? = some cr then line.dropLast else line

/-- A line without its terminator: one line feed, then one carriage return. -/
def trimEol (line : Bytes) : Bytes := trimCr (if line.getLast? = some lf then line.dropLast else line)

/-- The lines of a text without their terminators. There is no limit on their length. -/
def lines (s : Bytes) : List Bytes := (rawLines s).map trimCr

end Bytes

end Literate
