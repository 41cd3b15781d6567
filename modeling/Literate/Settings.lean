import Literate.Log
import Literate.Settings.Dotenv
import Literate.Settings.Duration
import Literate.Text.Integer
import Literate.Text.Lower

/-!
# Settings

The settings come from the environment and, for names that are not in it, from a `.env` file.
`Settings.load` never fails: a number that cannot be read, or is not positive, gives way to its
default. `Settings.check?` is for those who need the settings to make sense.
-/

namespace Literate

open Bytes Text

/-- The environment: names and values. -/
abbrev Environment := List (Bytes × Bytes)

namespace Environment

/-- The value of a name, empty if there is none. -/
def value (env : Environment) (name : Bytes) : Bytes := (env.lookup name).getD []

/-- The value of a name, or another one if it is empty. -/
def valueOr (env : Environment) (name default : Bytes) : Bytes :=
  let v := env.value name
  if v.isEmpty then default else v

/-- The environment together with the assignments of a file; what is in the environment already,
even if empty, stays. A value with a zero byte cannot be put into an environment. -/
def withFile (env : Environment) (file : Option Bytes) : Environment :=
  match file.bind Dotenv.assignments with
  | none => env
  | some bindings => env ++ bindings.filter fun (name, _) => !(bindings.value name).contains 0

end Environment

/-- The settings of the program. -/
structure Settings where
  /-- Where the service listens. -/
  tcpPort : Bytes := []
  /-- The key that requests must present; there is no check if it is empty. -/
  apiKey : Bytes := []
  /-- The longest upload. -/
  maxUploadBytes : Int := 0
  /-- How long a request may take, in nanoseconds. -/
  requestTimeout : Int := 0
  /-- How long the watcher waits after a change, in nanoseconds. -/
  watchDebounce : Int := 0
  /-- The least important level that is logged. -/
  logLevel : Bytes := []
  /-- The form of the log. -/
  logFormat : Bytes := []
deriving DecidableEq, Repr

/-- Settings that make no sense. -/
inductive SettingsError where
  | tcpPort (got : Bytes)
  | logLevel (got : Bytes)
  | logFormat (got : Bytes)
deriving DecidableEq, Repr

/-- The text of the error. -/
def SettingsError.text : SettingsError → Bytes
  | .tcpPort got => utf8 "PORT must be numeric, got " ++ quoted got
  | .logLevel got =>
    utf8 "NOWEB2RST_LOG_LEVEL must be debug, info, warn or error, got " ++ quoted got
  | .logFormat got => utf8 "NOWEB2RST_LOG_FORMAT must be text or json, got " ++ quoted got

namespace Settings

/-- Ten mebibytes. -/
def defaultMaxUploadBytes : Int := 10485760

/-- Thirty seconds. -/
def defaultRequestTimeout : Int := 30000000000

/-- A tenth of a second. -/
def defaultWatchDebounce : Int := 100000000

/-- A number read from a text if it is positive, or a default. -/
def positiveOr (default : Int) (n : Option Int) : Int :=
  match n with
  | some n => if 0 < n then n else default
  | none => default

/-- The names that settings are read from. -/
def names : List Bytes :=
  [utf8 "PORT", utf8 "NOWEB2RST_API_KEY", utf8 "MAX_UPLOAD_BYTES", utf8 "REQUEST_TIMEOUT",
    utf8 "WATCH_DEBOUNCE", utf8 "NOWEB2RST_LOG_LEVEL", utf8 "NOWEB2RST_LOG_FORMAT"]

/-- The settings given by an environment and the contents of a `.env` file. -/
def load (env : Environment) (file : Option Bytes) : Settings :=
  let env := env.withFile file
  { tcpPort := env.valueOr (utf8 "PORT") (utf8 "8090")
    apiKey := env.value (utf8 "NOWEB2RST_API_KEY")
    maxUploadBytes :=
      positiveOr defaultMaxUploadBytes (readInt64? (env.value (utf8 "MAX_UPLOAD_BYTES")))
    requestTimeout :=
      positiveOr defaultRequestTimeout (Duration.read? (env.value (utf8 "REQUEST_TIMEOUT")))
    watchDebounce :=
      positiveOr defaultWatchDebounce (Duration.read? (env.value (utf8 "WATCH_DEBOUNCE")))
    logLevel := lower (env.valueOr (utf8 "NOWEB2RST_LOG_LEVEL") (utf8 "warn"))
    logFormat := lower (env.valueOr (utf8 "NOWEB2RST_LOG_FORMAT") (utf8 "text")) }

/-- The level of the log. -/
def level (s : Settings) : Except SettingsError Level :=
  if s.logLevel = utf8 "debug" then .ok .debug
  else if s.logLevel = utf8 "info" then .ok .info
  else if s.logLevel = utf8 "warn" ∨ s.logLevel = utf8 "warning" then .ok .warn
  else if s.logLevel = utf8 "error" then .ok .error
  else .error (.logLevel s.logLevel)

/-- The form of the log: pairs, unless JSON is asked for. -/
def form (s : Settings) : Log.Form := if s.logFormat = utf8 "json" then .json else .text

/-- The first setting that makes no sense. -/
def check? (s : Settings) : Option SettingsError :=
  if (readInt64? s.tcpPort).isNone then some (.tcpPort s.tcpPort)
  else
    match s.level with
    | .error e => some e
    | .ok _ =>
      if s.logFormat = utf8 "text" ∨ s.logFormat = utf8 "json" then none
      else some (.logFormat s.logFormat)

end Settings

end Literate
