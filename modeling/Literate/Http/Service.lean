import Literate.Format
import Literate.Http.Message
import Literate.Latency
import Literate.Settings

/-!
# The conversion service

The service answers three routes: `GET /health`, `POST /api/translate` and `GET /api/stats`. The
last two ask for a key if one is configured. `Service.serveTo` gives the service after a request,
the response and the log records, in order; the access record is the last of them. The response is
recorded by `serve` and sent to a client by `serveClient`.
-/

namespace Literate.Http

open Bytes

/-- The service: its settings and what it remembers. -/
structure Service where
  settings : Settings
  stats : Window := .ofMaxAge Window.hour

/-- When a request is served: the time at its end, how long it took, both in nanoseconds, and the
identifier it gets if it brings none. -/
structure Moment where
  now : Int := 0
  duration : Int := 0
  requestId : Bytes := []

/-- The routes. -/
inductive Route where
  | health
  | translate
  | stats
deriving DecidableEq, Repr

namespace Route

/-- All routes. -/
def all : List Route := [.health, .translate, .stats]

/-- The path of a route. -/
def path : Route → Bytes
  | .health => utf8 "/health"
  | .translate => utf8 "/api/translate"
  | .stats => utf8 "/api/stats"

/-- The only method of a route. -/
def method : Route → Bytes
  | .health => utf8 "GET"
  | .translate => utf8 "POST"
  | .stats => utf8 "GET"

/-- Does the route ask for a key? -/
def isProtected : Route → Bool
  | .health => false
  | .translate => true
  | .stats => true

/-- The route with this path. -/
def ofPath? (path : Bytes) : Option Route := all.find? fun r => r.path = path

end Route

/-- The methods that requests may have. -/
def standardMethods : List Bytes :=
  [utf8 "CONNECT", utf8 "DELETE", utf8 "GET", utf8 "HEAD", utf8 "OPTIONS", utf8 "PATCH",
    utf8 "POST", utf8 "PUT", utf8 "TRACE"]

/-! ### Keys -/

/-- The key a request presents: what follows `Bearer ` in its authorization, or else a key field
that is not empty. -/
def requestKey? (fields : Fields) : Option Bytes :=
  match afterPrefix? (utf8 "Bearer ") (fields.first (utf8 "Authorization")) with
  | some key => some key
  | none =>
    let key := fields.first (utf8 "X-API-Key")
    if key.isEmpty then none else some key

/-- Why a request is not let in. -/
inductive Denial where
  | missingKey
  | invalidKey
deriving DecidableEq, Repr

/-- The text of a denial. -/
def Denial.text : Denial → Bytes
  | .missingKey => utf8 "missing api key"
  | .invalidKey => utf8 "invalid api key"

/-- Why a request to a protected route is not let in, if it is not. -/
def denial? (key : Bytes) (fields : Fields) : Option Denial :=
  if key.isEmpty then none
  else
    match requestKey? fields with
    | none => some .missingKey
    | some presented => if presented = key then none else some .invalidKey

/-! ### Answers -/

/-- Response bodies may end up in a web page. -/
def escapes : Json.Escapes := { markup := true, letters := true }

/-- The field that announces JSON. -/
def jsonField : Bytes × Bytes := (utf8 "Content-Type", utf8 "application/json")

/-- A JSON value as a body of its own line. -/
def jsonBody (v : Json) : Bytes := v.render escapes ++ [lf]

/-- An error as a JSON object. -/
def errorReply (status : Int) (message : Bytes) : Reply :=
  { fields := [jsonField]
    actions := [.status status,
      .write (jsonBody (.object [(utf8 "error", .string message)]))] }

/-- The answer to a path that no route has. -/
def notFoundReply : Reply :=
  { fields := [(utf8 "Content-Type", utf8 "text/plain; charset=utf-8"),
      (utf8 "X-Content-Type-Options", utf8 "nosniff")]
    actions := [.status 404, .write (utf8 "404 page not found\n")] }

/-- The answer to a method that the route does not have. -/
def wrongMethodReply (route : Route) : Reply :=
  { fields := [(utf8 "Allow", route.method)], actions := [.status 405] }

/-- The answer to a method that nothing has. -/
def unknownMethodReply : Reply := { actions := [.status 405] }

/-- The answer of the health check. -/
def healthReply : Reply :=
  { fields := [jsonField], actions := [.write (utf8 "\x7b\"status\":\"ok\"\x7d")] }

/-- The statistics as an answer. -/
def statsReply (s : Summary) : Reply :=
  { fields := [jsonField]
    actions := [.write (jsonBody (.object [(utf8 "translations", s.toJson)]))] }

/-- A diagnostic as a JSON object. -/
def diagnosticJson (d : Diagnostic) : Json :=
  .object [(utf8 "line", .int d.line), (utf8 "message", .string d.message)]

/-- A finished conversion as an answer. -/
def conversionReply (output : Bytes) (diagnostics : List Diagnostic) : Reply :=
  { fields := [jsonField]
    actions := [.write (jsonBody (.object [(utf8 "output", .string output),
      (utf8 "diagnostics", .array (diagnostics.map diagnosticJson))]))] }

namespace Service

/-- The answer to an upload that is too long. -/
def tooLargeReply (s : Service) : Reply :=
  errorReply 413
    (utf8 "input exceeds max size (" ++ decimalInt s.settings.maxUploadBytes ++ utf8 " bytes)")

/-- The format of an upload: the one it asks for, or else the one its file name has. -/
def uploadFormat (target : Target) : Except UnsupportedFormat Format :=
  let asked := target.parameter (utf8 "format")
  if asked.isEmpty then
    .ok (.ofFileName (Path.sanitize (target.parameter (utf8 "filename"))))
  else Format.ofName asked

/-- Convert an upload. Only a conversion that succeeds is recorded. -/
def convertUpload (s : Service) (moment : Moment) (request : Request) :
    Service × Reply × List Log.Record :=
  match uploadFormat request.target with
  | .error e => (s, errorReply 400 e.text, [])
  | .ok format =>
    let name := Path.sanitize (request.target.parameter (utf8 "filename"))
    let body := request.body.limited s.settings.maxUploadBytes.toNat
    let c := format.convert name body ({} : Sink)
    let records := c.remarks.map fun r => r.record.under [(utf8 "filename", .text name)]
    match c.error with
    | some e =>
      if e.failure = .bodyTooLarge then (s, s.tooLargeReply, records)
      else
        let record : Log.Record :=
          { level := .error
            message := utf8 "translate failed"
            attributes := [(utf8 "error", .text e.text)] }
        (s, errorReply 400 (utf8 "failed to read input"), records ++ [record])
    | none =>
      let stats := s.stats.record moment.now moment.duration c.diagnostics.length
      ({ s with stats }, conversionReply c.out.contents c.diagnostics, records)

/-- Answer a request that was let in. -/
def handle (s : Service) (moment : Moment) (request : Request) :
    Route → Service × Reply × List Log.Record
  | .health => (s, healthReply, [])
  | .translate => s.convertUpload moment request
  | .stats =>
    let (stats, summary) := s.stats.snapshot moment.now
    ({ s with stats }, statsReply summary, [])

/-- Answer a request to a route, if it has the right method and key. -/
def enter (s : Service) (moment : Moment) (request : Request) (route : Route) :
    Service × Reply × List Log.Record :=
  if request.method ≠ route.method then (s, wrongMethodReply route, [])
  else
    match if route.isProtected then denial? s.settings.apiKey request.fields else none with
    | some denial => (s, errorReply 401 denial.text, [])
    | none => s.handle moment request route

/-- Answer a request. -/
def answer (s : Service) (moment : Moment) (request : Request) :
    Service × Reply × List Log.Record :=
  if request.method ∉ standardMethods then (s, unknownMethodReply, [])
  else
    match Route.ofPath? request.target.sentPath with
    | none => (s, notFoundReply, [])
    | some route => s.enter moment request route

/-- The identifier of a request: the one it brings, or else the one it is given. -/
def requestId (moment : Moment) (request : Request) : Bytes :=
  let brought := request.fields.first (utf8 "X-Request-Id")
  if brought.isEmpty then moment.requestId else brought

/-- Serve a request through a writer: the service afterwards, the response, and the log records in
order. -/
def serveTo {ω : Type} [ResponseWriter ω] (writer : ω) (s : Service) (moment : Moment)
    (request : Request) : Service × Response × List Log.Record :=
  match s.answer moment request with
  | (s, reply, records) =>
    let seen := Observed.ofActions writer reply.actions
    let access := seen.accessRecord (requestId moment request) request
    (s, .ofWriter seen.writer reply.fields, records ++ [access])

/-- Serve a request and record the response. -/
def serve : Service → Moment → Request → Service × Response × List Log.Record :=
  serveTo ({} : Recorded)

/-- Serve a request of a client, who gets the response. -/
def serveClient (s : Service) (moment : Moment) (request : Request) :
    Service × Response × List Log.Record :=
  s.serveTo ({ isHead := request.method = utf8 "HEAD" } : Sent) moment request

end Service

end Literate.Http
