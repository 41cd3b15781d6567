import Literate.Bytes

/-!
# Failures of reading and writing

Why a read or a write did not succeed, as a cause, and the text each cause is shown as.
-/

namespace Literate

/-- Why the system refuses an operation on a file. -/
inductive Refusal where
  | notFound
  | notDirectory
  | isDirectory
  | alreadyExists
  | noSpace
  | nameTooLong
  | invalidArgument
  | tooManyLinks
  /-- There is more to read than fits into memory. -/
  | noMemory
  | separatorInPattern
  /-- Something else, in the system's own words. -/
  | other (words : Bytes)
deriving DecidableEq, Repr

/-- The system's words for a refusal. -/
def Refusal.text : Refusal → Bytes
  | .notFound => utf8 "no such file or directory"
  | .notDirectory => utf8 "not a directory"
  | .isDirectory => utf8 "is a directory"
  | .alreadyExists => utf8 "file exists"
  | .noSpace => utf8 "no space left on device"
  | .nameTooLong => utf8 "file name too long"
  | .invalidArgument => utf8 "invalid argument"
  | .tooManyLinks => utf8 "too many levels of symbolic links"
  | .noMemory => utf8 "cannot allocate memory"
  | .separatorInPattern => utf8 "pattern contains path separator"
  | .other words => words

/-- Why bytes could not be read or written. -/
inductive Failure where
  /-- The receiver of the output is full. -/
  | diskFull
  /-- The sender of the input went away. -/
  | connectionReset
  /-- An upload is longer than allowed. -/
  | bodyTooLarge
  /-- An operation on one path was refused. -/
  | file (operation path : Bytes) (why : Refusal)
  /-- Moving a file was refused. -/
  | rename (source target : Bytes) (why : Refusal)
deriving DecidableEq, Repr

/-- The text a failure is shown as. -/
def Failure.text : Failure → Bytes
  | .diskFull => utf8 "disk full"
  | .connectionReset => utf8 "connection reset"
  | .bodyTooLarge => utf8 "http: request body too large"
  | .file operation path why => operation ++ utf8 " " ++ path ++ utf8 ": " ++ why.text
  | .rename source target why =>
    utf8 "rename " ++ source ++ utf8 " " ++ target ++ utf8 ": " ++ why.text

end Literate
