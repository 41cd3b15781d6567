import Literate.Bytes

/-!
# Request targets

What stands between the method and the version on the first line of a request: a path and a
query, or a whole address. Paths and queries write some bytes as `%` and two hexadecimal digits.
-/

namespace Literate.Http

open Bytes

/-- Undo `%` escapes; there is no result if one is incomplete. The result so far is in `done`,
last byte first, and `plus` is what a plus sign stands for. -/
def unescapeFrom (plus : UInt8) (done : Bytes) : Bytes → Option Bytes
  | [] => some done.reverse
  | 37 :: a :: b :: rest => do
    let hi ← hexValue? a
    let lo ← hexValue? b
    unescapeFrom plus ((hi * 16 + lo) :: done) rest
  | 37 :: _ => none
  | 43 :: rest => unescapeFrom plus (plus :: done) rest
  | b :: rest => unescapeFrom plus (b :: done) rest

/-- Undo the escapes of a path, where a plus sign is itself. -/
def unescapePath? (s : Bytes) : Option Bytes := unescapeFrom 43 [] s

/-- Undo the escapes of a query, where a plus sign is a space. -/
def unescapeQuery? (s : Bytes) : Option Bytes := unescapeFrom space [] s

/-! ### Queries -/

/-- One parameter of a query, unless it holds a semicolon or a bad escape or is empty. -/
def parameter? (piece : Bytes) : Option (Bytes × Bytes) :=
  if piece.isEmpty || piece.contains 59 then none
  else do
    let key ← unescapeQuery? (cut 61 piece).1
    let value ← unescapeQuery? (cut 61 piece).2
    some (key, value)

/-- The largest number of pieces of a query. -/
def pieceLimit : Nat := 10000

/-- The parameters of a query, in order. A query of too many pieces has none. -/
def parameters (query : Bytes) : List (Bytes × Bytes) :=
  let pieces := splitOn 38 query
  if pieceLimit < pieces.length then [] else pieces.filterMap parameter?

/-! ### Targets -/

/-- The target of a request. -/
structure Target where
  /-- The path as it was sent; requests are routed by it. -/
  sentPath : Bytes
  /-- The path without escapes. -/
  path : Bytes
  /-- The query as it was sent. -/
  query : Bytes := []
deriving DecidableEq, Repr

namespace Target

/-- The first value of a parameter, empty if there is none. -/
def parameter (t : Target) (key : Bytes) : Bytes := ((parameters t.query).lookup key).getD []

/-- Is this byte a letter? -/
def isLetter (b : UInt8) : Bool := (65 ≤ b && b ≤ 90) || (97 ≤ b && b ≤ 122)

/-- May this byte stand in the scheme of an address after its first letter? -/
def isSchemeByte (b : UInt8) : Bool :=
  isLetter b || isDigit b || b == 43 || b == 45 || b == 46

/-- The rest of an address after its scheme and the colon, if it has a scheme. -/
def afterScheme? (s : Bytes) : Option Bytes :=
  match s with
  | b :: _ =>
    match s.dropWhile isSchemeByte with
    | 58 :: rest => if isLetter b then some rest else none
    | _ => none
  | [] => none

/-- The path of an address after its scheme: what follows the authority, if there is one, and
nothing if there is no slash. -/
def pathOfAddress (rest : Bytes) : Bytes :=
  match rest with
  | 47 :: 47 :: authority => authority.dropWhile (· != 47)
  | 47 :: _ => rest
  | _ => []

/-- The target with the given path and query. -/
def ofParts? (sentPath query : Bytes) : Option Target := do
  let path ← unescapePath? sentPath
  some { sentPath, path, query }

/-- Read a target. It is a path, an address with a scheme, or an asterisk, and it holds no control
characters. -/
def parse? (s : Bytes) : Option Target :=
  if s.any fun b => b < 0x20 || b == 0x7F then none
  else if s = utf8 "*" then some { sentPath := s, path := s }
  else
    match afterScheme? s with
    | some rest => ofParts? (pathOfAddress (cut 63 rest).1) (cut 63 rest).2
    | none =>
      if s.head? = some 47 then ofParts? (cut 63 s).1 (cut 63 s).2 else none

/-- Read the target of a request with the given method. A tunnel is asked for by its authority
alone. -/
def ofRequest? (method s : Bytes) : Option Target :=
  if method = utf8 "CONNECT" ∧ s.head? ≠ some 47 then parse? (utf8 "http://" ++ s) else parse? s

end Target

end Literate.Http
