import Literate.Http.Service

/-!
# What an answer depends on

Before a route handles a request, the service looks at its method, its path and its key. Two
requests that agree in these are answered alike if they are handled alike (`serve_congr`). A request
for a route is handled by it unless it is denied (`answer_of_asks`). An upload is handled by
converting it, and from there on only the text written, the diagnostics and the failure matter
(`convertUpload_eq_settle`). The log records are put aside for the most part.
-/

namespace Literate.Http

/-- The request is for this route: it has its method and was sent to its path. -/
structure Request.Asks (r : Request) (route : Route) : Prop where
  method : r.method = route.method
  path : r.target.sentPath = route.path

namespace Service

/-- What comes of a request besides log records. -/
def withoutLog (x : Service × Reply × List Log.Record) : Service × Reply := (x.1, x.2.1)

variable {s : Service} {moment : Moment} {r r' : Request}

/-! ### Requests that are handled alike -/

theorem enter_congr (hmethod : r.method = r'.method) (hfields : r.fields = r'.fields)
    {route : Route}
    (hhandle : withoutLog (s.handle moment r route) = withoutLog (s.handle moment r' route)) :
    withoutLog (s.enter moment r route) = withoutLog (s.enter moment r' route) := by
  unfold enter
  rw [hmethod, hfields]
  by_cases h : r'.method ≠ route.method
  · rw [if_pos h, if_pos h]
  · rw [if_neg h, if_neg h]
    -- the same key is presented for the same route, so both are let in or none
    cases if route.isProtected then denial? s.settings.apiKey r'.fields else none with
    | some denial => rfl
    | none => exact hhandle

theorem answer_congr (hmethod : r.method = r'.method) (hfields : r.fields = r'.fields)
    (hpath : r.target.sentPath = r'.target.sentPath)
    (hhandle : ∀ route,
      withoutLog (s.handle moment r route) = withoutLog (s.handle moment r' route)) :
    withoutLog (s.answer moment r) = withoutLog (s.answer moment r') := by
  unfold answer
  rw [hmethod, hpath]
  by_cases h : r'.method ∉ standardMethods
  · rw [if_pos h, if_pos h]
  · rw [if_neg h, if_neg h]
    cases Route.ofPath? r'.target.sentPath with
    | none => rfl
    | some route => exact enter_congr hmethod hfields (hhandle route)

theorem serve_congr (hmethod : r.method = r'.method) (hfields : r.fields = r'.fields)
    (hpath : r.target.sentPath = r'.target.sentPath)
    (hhandle : ∀ route,
      withoutLog (s.handle moment r route) = withoutLog (s.handle moment r' route)) :
    (s.serve moment r).1 = (s.serve moment r').1 ∧
      (s.serve moment r).2.1 = (s.serve moment r').2.1 := by
  have hanswer := answer_congr hmethod hfields hpath hhandle
  constructor
  · show (withoutLog (s.answer moment r)).1 = (withoutLog (s.answer moment r')).1
    rw [hanswer]
  · show (withoutLog (s.answer moment r)).2.response = (withoutLog (s.answer moment r')).2.response
    rw [hanswer]

/-! ### Requests for a route -/

theorem ofPath?_path (route : Route) : Route.ofPath? route.path = some route := by
  cases route <;> decide

theorem method_mem_standardMethods (route : Route) : route.method ∈ standardMethods := by
  cases route <;> decide

/-- Why the request is not let in, if it is not. Some routes let in everybody. -/
def refusal? (s : Service) (r : Request) (route : Route) : Option Denial :=
  if route.isProtected then denial? s.settings.apiKey r.fields else none

theorem answer_of_asks {route : Route} (h : r.Asks route) :
    s.answer moment r =
      match s.refusal? r route with
      | some denial => (s, errorReply 401 denial.text, [])
      | none => s.handle moment r route := by
  unfold answer
  rw [h.method, if_neg (not_not_intro (method_mem_standardMethods route)), h.path, ofPath?_path]
  show s.enter moment r route = _
  rw [enter, if_neg (not_not_intro h.method)]
  rfl

/-! ### Uploads -/

/-- The service and its answer after a conversion, from the text written, the diagnostics, and why
the conversion failed, if it did. -/
def settle (s : Service) (moment : Moment) (output : Bytes) (diagnostics : List Diagnostic) :
    Option Failure → Service × Reply
  | none =>
    ({ s with stats := s.stats.record moment.now moment.duration diagnostics.length },
      conversionReply output diagnostics)
  | some why =>
    if why = .bodyTooLarge then (s, s.tooLargeReply)
    else (s, errorReply 400 (utf8 "failed to read input"))

@[simp] theorem status_errorReply (code : Int) (message : Bytes) :
    (errorReply code message).response.status = code := rfl

@[simp] theorem status_conversionReply (output : Bytes) (diagnostics : List Diagnostic) :
    (conversionReply output diagnostics).response.status = 200 := rfl

theorem status_settle (output : Bytes) (diagnostics : List Diagnostic) (failure : Option Failure) :
    (s.settle moment output diagnostics failure).2.response.status =
      match failure with
      | none => 200
      | some why => if why = .bodyTooLarge then 413 else 400 := by
  cases failure with
  | none => rfl
  | some why =>
      unfold settle
      dsimp only
      split <;> rfl

theorem convertUpload_of_unsupported {e : UnsupportedFormat}
    (h : uploadFormat r.target = .error e) :
    s.convertUpload moment r = (s, errorReply 400 e.text, []) := by
  unfold convertUpload
  rw [h]

theorem convertUpload_eq_settle {format : Format} (h : uploadFormat r.target = .ok format)
    {c : Conversion Sink}
    (hc : format.convert (Path.sanitize (r.target.parameter (utf8 "filename")))
      (r.body.limited s.settings.maxUploadBytes.toNat) ({} : Sink) = c) :
    withoutLog (s.convertUpload moment r) =
      s.settle moment c.out.contents c.diagnostics (c.error.map ConversionError.failure) := by
  unfold convertUpload
  simp only [h, hc]
  cases c.error with
  | none => rfl
  | some e =>
      show withoutLog (if e.failure = .bodyTooLarge then _ else _) =
        if e.failure = .bodyTooLarge then _ else _
      split <;> rfl

end Service

end Literate.Http
