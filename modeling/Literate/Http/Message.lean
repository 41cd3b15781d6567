import Literate.Http.Target
import Literate.Intake
import Literate.Log

/-!
# Requests and responses

A handler answers a request by a list of actions: it sets the status, and it writes parts of the
body. What these come to depends on who takes them in. There are two such writers:

* `Recorded` is a response that is kept as it is;
* `Sent` is the response that a client gets over a connection.

The access log sits between the handler and either of them (`Observed`) and shows the last status
that was set and the number of bytes that were taken.
-/

namespace Literate.Http

open Bytes

/-- Header fields: names and values, in the order they were added. -/
abbrev Fields := List (Bytes × Bytes)

/-- The first value of a field, empty if there is none. Names are compared without regard to
case. -/
def Fields.first (fields : Fields) (name : Bytes) : Bytes :=
  ((fields.find? fun (n, _) => asciiLower n = asciiLower name).map Prod.snd).getD []

/-- A request. -/
structure Request where
  method : Bytes
  target : Target
  fields : Fields := []
  body : Intake := ⟨[], none⟩
  /-- The length of the body as announced, or -1. -/
  contentLength : Int := 0

/-- The bare request with this method and target. No method stands for GET. -/
def Request.ofLine? (method target : Bytes) : Option Request :=
  let method := if method.isEmpty then utf8 "GET" else method
  (Target.ofRequest? method target).map fun target => { method, target }

/-- One action of a handler. -/
inductive Action where
  | status (code : Int)
  | write (bytes : Bytes)
deriving DecidableEq, Repr

/-! ### Writers -/

/-- Who takes in the actions of a handler. -/
class ResponseWriter (ω : Type) where
  setStatus : ω → Int → ω
  /-- Write a part of the body; the number is that of the bytes taken. -/
  write : ω → Bytes → ω × Nat
  /-- The status of the response. -/
  status : ω → Int
  /-- The body of the response. -/
  body : ω → Bytes

/-- May a response with this status have a body? -/
def allowsBody (code : Int) : Bool := !((100 ≤ code && code < 200) || code == 204 || code == 304)

/-- A response that is recorded. -/
structure Recorded where
  /-- The status, once it is settled. -/
  status? : Option Int := none
  /-- The parts of the body, newest first. -/
  parts : List Bytes := []
deriving DecidableEq, Repr

/-- The first status counts, and writing settles it to 200. What is written where no body may be is
kept all the same, but it is not taken. -/
instance : ResponseWriter Recorded where
  setStatus r code := { r with status? := some (r.status?.getD code) }
  write r bytes :=
    let code := r.status?.getD 200
    ({ status? := some code, parts := bytes :: r.parts },
      if allowsBody code then bytes.length else 0)
  status r := r.status?.getD 200
  body r := r.parts.reverse.flatten

/-- A response on its way to a client. -/
structure Sent where
  /-- Does it answer a HEAD request? -/
  isHead : Bool
  /-- Statuses that were sent ahead of the response, newest first. -/
  ahead : List Int := []
  /-- The status, once it is settled. -/
  status? : Option Int := none
  /-- The parts of the body that were taken, newest first. -/
  parts : List Bytes := []
deriving DecidableEq, Repr

/-- Is this a status that is sent ahead of a response? Switching protocols is a response. -/
def isInformational (code : Int) : Bool := 100 ≤ code && code < 200 && code != 101

/-- The first status that is not informational counts, and writing settles it to 200. What is written
where no body may be is refused. What answers a HEAD request is taken, but not sent. -/
instance : ResponseWriter Sent where
  setStatus r code :=
    if r.status?.isSome then r
    else if isInformational code then { r with ahead := code :: r.ahead }
    else { r with status? := some code }
  write r bytes :=
    let code := r.status?.getD 200
    if allowsBody code then ({ r with status? := some code, parts := bytes :: r.parts }, bytes.length)
    else ({ r with status? := some code }, 0)
  status r := r.status?.getD 200
  body r := if r.isHead then [] else r.parts.reverse.flatten

/-! ### The access log -/

/-- A writer, and what the access log has seen of it. -/
structure Observed (ω : Type) where
  writer : ω
  /-- The status set last. -/
  loggedStatus : Int := 200
  /-- How many bytes were taken. -/
  bytesOut : Nat := 0

namespace Observed

variable {ω : Type} [ResponseWriter ω]

/-- Pass an action on to the writer. -/
def step (o : Observed ω) : Action → Observed ω
  | .status code => { o with writer := ResponseWriter.setStatus o.writer code, loggedStatus := code }
  | .write bytes =>
    match ResponseWriter.write o.writer bytes with
    | (writer, taken) => { o with writer, bytesOut := o.bytesOut + taken }

/-- Pass actions on to a writer that nothing was written to. -/
def ofActions (writer : ω) (actions : List Action) : Observed ω := actions.foldl step { writer }

/-- The record of a request in the access log. Errors of the server are warnings. -/
def accessRecord (o : Observed ω) (requestId : Bytes) (request : Request) : Log.Record :=
  { level := if 500 ≤ o.loggedStatus then .warn else .info
    message := utf8 "request"
    attributes := [(utf8 "request_id", .text requestId), (utf8 "method", .text request.method),
      (utf8 "path", .text request.target.path), (utf8 "status", .int o.loggedStatus),
      (utf8 "bytes_in", .int request.contentLength), (utf8 "bytes_out", .int o.bytesOut),
      (utf8 "duration_ms", .elapsed)] }

end Observed

/-! ### Answers -/

/-- An answer: header fields, and the actions that follow them. -/
structure Reply where
  fields : Fields := []
  actions : List Action
deriving DecidableEq, Repr

/-- A response. -/
structure Response where
  status : Int
  fields : Fields
  body : Bytes
deriving DecidableEq, Repr

/-- The response that a writer is left with. -/
def Response.ofWriter {ω : Type} [ResponseWriter ω] (writer : ω) (fields : Fields) : Response :=
  ⟨ResponseWriter.status writer, fields, ResponseWriter.body writer⟩

/-- The response that is recorded for an answer. -/
def Reply.response (r : Reply) : Response :=
  .ofWriter (Observed.ofActions ({} : Recorded) r.actions).writer r.fields

end Literate.Http
