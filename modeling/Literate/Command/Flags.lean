import Literate.Text.Quoted

/-!
# Command lines

Which command a list of arguments names, and what its flags say. The only flag with a value is
`--output`, or `-o` for short; it may stand anywhere before `--`, and the last one counts.
-/

namespace Literate.Command

open Bytes Text

/-- The commands. -/
inductive Verb where
  /-- Convert the named inputs; the command without a name. -/
  | convert
  /-- Show the tagged stream of noweb source. -/
  | markup
  /-- Run the service. -/
  | serve
  /-- Convert a file whenever it changes. -/
  | watch
  /-- Show how to use the program. -/
  | help
deriving DecidableEq, Repr

/-- Why a command line makes no sense. -/
inductive UsageError where
  | badFlag (arg : Bytes)
  | unknownFlag (name : Bytes)
  | unknownShorthand (letter : Char) (group : Bytes)
  | flagNeedsValue (arg : Bytes)
  | shorthandNeedsValue (letter : Char) (group : Bytes)
  /-- Help can be asked for or not, but not like this. -/
  | badHelp (value : Bytes)
  | exactly (want got : Nat)
  | atMost (want got : Nat)
  | unknownCommand (name : Bytes)
deriving DecidableEq, Repr

/-- The text of the error. -/
def UsageError.text : UsageError → Bytes
  | .badFlag arg => utf8 "bad flag syntax: " ++ arg
  | .unknownFlag name => utf8 "unknown flag: --" ++ name
  | .unknownShorthand letter group =>
    utf8 "unknown shorthand flag: " ++ quotedChar letter ++ utf8 " in -" ++ group
  | .flagNeedsValue arg => utf8 "flag needs an argument: " ++ arg
  | .shorthandNeedsValue letter group =>
    utf8 "flag needs an argument: " ++ quotedChar letter ++ utf8 " in -" ++ group
  | .badHelp value =>
    utf8 "invalid argument " ++ quoted value ++
      utf8 " for \"-h, --help\" flag: strconv.ParseBool: parsing " ++ quoted value ++
      utf8 ": invalid syntax"
  | .exactly want got =>
    utf8 "accepts " ++ decimal want ++ utf8 " arg(s), received " ++ decimal got
  | .atMost want got =>
    utf8 "accepts at most " ++ decimal want ++ utf8 " arg(s), received " ++ decimal got
  | .unknownCommand name =>
    utf8 "unknown command " ++ quoted name ++ utf8 " for \"noweb2rst serve\""

/-! ### Which command -/

/-- The command with this name. -/
def Verb.ofName? (name : Bytes) : Option Verb :=
  if name = utf8 "markup" then some .markup
  else if name = utf8 "serve" then some .serve
  else if name = utf8 "watch" then some .watch
  else if name = utf8 "help" ∨ name = utf8 "completion" then some .help
  else none

/-- Does the argument start with a dash? -/
def isDashed (arg : Bytes) : Bool := arg.head? = some 45

/-- The argument that ends the flags. -/
def endOfFlags : Bytes := utf8 "--"

/-- Is the argument after this one its value, as far as one can tell before the command is
known? -/
def takesNext (arg : Bytes) : Bool :=
  isDashed arg && !arg.contains 61 && (endOfFlags.isPrefixOf arg || arg.length == 2)

/-- The first argument that is neither a flag nor the value of one. -/
def firstWord? : List Bytes → Option Bytes
  | [] => none
  | arg :: rest =>
    if arg = endOfFlags then none
    else if takesNext arg then
      match rest with
      | _ :: next :: rest => firstWord? (next :: rest)
      | _ => none
    else if !arg.isEmpty && !isDashed arg then some arg
    else firstWord? rest

/-- The arguments without the first one that is `word` and neither a flag nor the value of one. -/
def dropWord (word : Bytes) : List Bytes → List Bytes
  | [] => []
  | arg :: rest =>
    if arg = endOfFlags then arg :: rest
    else if takesNext arg then
      match rest with
      | value :: rest => arg :: value :: dropWord word rest
      | [] => [arg]
    else if arg = word then rest
    else arg :: dropWord word rest

/-- The command that the arguments name, and the arguments without its name. -/
def Verb.select (args : List Bytes) : Verb × List Bytes :=
  match firstWord? args with
  | none => (.convert, args)
  | some word =>
    match Verb.ofName? word with
    | some verb => (verb, dropWord word args)
    | none => (.convert, args)

/-! ### Flags -/

/-- Does the command have the flag `--output`? -/
def Verb.hasOutput : Verb → Bool
  | .convert => true
  | .watch => true
  | _ => false

/-- A command line without its flags. -/
structure Parsed where
  /-- The value of `--output`, empty if it is not given. -/
  output : Bytes := []
  /-- Was help asked for? -/
  help : Bool := false
  /-- The other arguments, last one first. -/
  words : List Bytes := []
deriving DecidableEq, Repr

/-- The truth value that a text stands for. -/
def readBool? (s : Bytes) : Option Bool :=
  if s ∈ [utf8 "1", utf8 "t", utf8 "T", utf8 "true", utf8 "TRUE", utf8 "True"] then some true
  else if s ∈ [utf8 "0", utf8 "f", utf8 "F", utf8 "false", utf8 "FALSE", utf8 "False"] then
    some false
  else none

/-- The value of the flag for help. -/
def readHelp (value : Bytes) : Except UsageError Bool :=
  match readBool? value with
  | some help => .ok help
  | none => .error (.badHelp value)

/-- What a group of one-letter flags amounts to. -/
inductive Group where
  /-- Nothing but perhaps a call for help. -/
  | done (help : Bool)
  /-- A value for `--output`. -/
  | output (help : Bool) (value : Bytes)
  /-- The next argument is the value for `--output`. -/
  | outputNext (help : Bool) (group : Bytes)
deriving DecidableEq, Repr

/-- The value after the letter of a flag; an equals sign in front of it is dropped. -/
def valueInGroup : Bytes → Bytes
  | 61 :: b :: rest => b :: rest
  | value => value

/-- The letter that a message shows for a byte of a group. The byte is taken for the character of
its number, and of that character's encoding the first byte is shown, again by its number. -/
def shownLetter (b : UInt8) : Char :=
  Char.ofNat ((encodeChar (Char.ofNat b.toNat)).headD b).toNat

/-- Read a group of one-letter flags. A group that starts with `test.` is passed over. -/
def readGroup (hasOutput : Bool) (help : Bool) : Bytes → Except UsageError Group
  | [] => .ok (.done help)
  | b :: rest =>
    if (utf8 "test.").isPrefixOf (b :: rest) then .ok (.done help)
    else if b = 111 ∧ hasOutput then
      if rest.isEmpty then .ok (.outputNext help (b :: rest))
      else .ok (.output help (valueInGroup rest))
    else if b = 104 then
      match rest with
      | 61 :: c :: value => (readHelp (c :: value)).map .done
      | _ => readGroup hasOutput true rest
    else .error (.unknownShorthand (shownLetter b) (b :: rest))

/-- Read arguments, going on from what was read before. -/
def parseFrom (hasOutput : Bool) (p : Parsed) : List Bytes → Except UsageError Parsed
  | [] => .ok p
  | arg :: rest =>
    if !isDashed arg || arg.length == 1 then
      parseFrom hasOutput { p with words := arg :: p.words } rest
    else if arg = endOfFlags then .ok { p with words := rest.reverse ++ p.words }
    else if endOfFlags.isPrefixOf arg then
      let flag := arg.drop 2
      let name := (cut 61 flag).1
      if flag.head? = some 45 ∨ flag.head? = some 61 then .error (.badFlag arg)
      else if name = utf8 "output" ∧ hasOutput then
        if flag.contains 61 then parseFrom hasOutput { p with output := (cut 61 flag).2 } rest
        else
          match rest with
          | value :: rest => parseFrom hasOutput { p with output := value } rest
          | [] => .error (.flagNeedsValue arg)
      else if name = utf8 "help" then
        match if flag.contains 61 then readHelp (cut 61 flag).2 else .ok true with
        | .error e => .error e
        | .ok help => parseFrom hasOutput { p with help } rest
      else .error (.unknownFlag name)
    else
      match readGroup hasOutput p.help (arg.drop 1) with
      | .error e => .error e
      | .ok (.done help) => parseFrom hasOutput { p with help } rest
      | .ok (.output help output) => parseFrom hasOutput { p with help, output } rest
      | .ok (.outputNext help group) =>
        match rest with
        | output :: rest => parseFrom hasOutput { p with help, output } rest
        | [] => .error (.shorthandNeedsValue 'o' group)

/-- Read the arguments of a command. -/
def Verb.parse (verb : Verb) (args : List Bytes) : Except UsageError Parsed :=
  parseFrom verb.hasOutput {} args

/-- The words of a command line, in order. -/
def Parsed.arguments (p : Parsed) : List Bytes := p.words.reverse

/-- What is wrong with the number of words. -/
def Verb.checkWords? (verb : Verb) (words : List Bytes) : Option UsageError :=
  match verb with
  | .markup => if 1 < words.length then some (.atMost 1 words.length) else none
  | .serve => words.head?.map .unknownCommand
  | .watch => if words.length ≠ 1 then some (.exactly 1 words.length) else none
  | _ => none

end Literate.Command
