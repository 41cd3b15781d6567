import Mathlib.Data.List.Forall2
import Literate.Proofs.Http.Service

/-!
# What the access log says

The access log shows the last status that a handler sets, and how many bytes were taken of what it
writes. A handler is orderly if it sets the status once at most and before it writes anything. What
an orderly handler asks for is then logged, and the response has

                      status                         body
    recorded          as asked                       all that is written
    sent to a client  as asked, or 200 if that       all that is written, or nothing if the status
                      is only sent ahead             or a HEAD request leaves no room for it

while bytes are counted just where the status allows a body (`shows_recorded`, `shows_sent`). So the
log need not agree with either response. For the answers of the service it does so but for one case:
a client who sends a HEAD request gets no body, whatever is counted (`Service.outcomes_logged`).
-/

namespace Literate.Http

open Bytes

/-! ### What a handler does -/

/-- The status is set once at most, before anything is written, and is one that a response can have.
To set another one is a panic, after which nothing is logged. -/
structure Orderly (actions : List Action) : Prop where
  writes : ∀ a ∈ actions.tail, ∃ bytes, a = .write bytes
  valid : ∀ code, actions.head? = some (.status code) → 100 ≤ code ∧ code ≤ 999

/-- The status that an orderly handler asks for. -/
def asked : List Action → Int
  | .status code :: _ => code
  | _ => 200

/-- What an action writes. -/
def Action.written : Action → Bytes
  | .status _ => []
  | .write bytes => bytes

/-- All that a handler writes. -/
def written (actions : List Action) : Bytes := actions.flatMap Action.written

@[simp] theorem written_nil : written [] = [] := rfl

@[simp] theorem written_cons (a : Action) (actions : List Action) :
    written (a :: actions) = a.written ++ written actions := List.flatMap_cons

/-! ### What a writer makes of it -/

/-- A writer for which it is settled, once it is written to, which status the response has, whether
it takes what is written, and whether it keeps that for the body. -/
class LawfulResponseWriter (ω : Type) [ResponseWriter ω] where
  keeps : ω → Bool
  body_setStatus (w : ω) (code : Int) :
    ResponseWriter.body (ResponseWriter.setStatus w code) = ResponseWriter.body w
  status_write (w : ω) (bytes : Bytes) :
    ResponseWriter.status (ResponseWriter.write w bytes).1 = ResponseWriter.status w
  keeps_write (w : ω) (bytes : Bytes) : keeps (ResponseWriter.write w bytes).1 = keeps w
  taken_write (w : ω) (bytes : Bytes) : (ResponseWriter.write w bytes).2 =
    if allowsBody (ResponseWriter.status w) then bytes.length else 0
  body_write (w : ω) (bytes : Bytes) : ResponseWriter.body (ResponseWriter.write w bytes).1 =
    ResponseWriter.body w ++ if keeps w then bytes else []

instance : LawfulResponseWriter Recorded where
  keeps _ := true
  body_setStatus _ _ := rfl
  status_write _ _ := rfl
  keeps_write _ _ := rfl
  taken_write _ _ := rfl
  body_write r bytes := by
    show (bytes :: r.parts).reverse.flatten = r.parts.reverse.flatten ++ bytes
    simp

namespace Sent

theorem setStatus_eq (r : Sent) (code : Int) : ResponseWriter.setStatus r code =
    if r.status?.isSome then r
    else if isInformational code then { r with ahead := code :: r.ahead }
    else { r with status? := some code } := rfl

theorem write_eq (r : Sent) (bytes : Bytes) : ResponseWriter.write r bytes =
    if allowsBody (ResponseWriter.status r) then
      ({ r with status? := some (ResponseWriter.status r), parts := bytes :: r.parts },
        bytes.length)
    else ({ r with status? := some (ResponseWriter.status r) }, 0) := rfl

theorem body_eq (r : Sent) :
    ResponseWriter.body r = if r.isHead then [] else r.parts.reverse.flatten := rfl

end Sent

instance : LawfulResponseWriter Sent where
  keeps r := !r.isHead && allowsBody (ResponseWriter.status r)
  body_setStatus r code := by
    rw [Sent.setStatus_eq]
    split
    · rfl
    · split <;> rfl
  status_write r bytes := by
    rw [Sent.write_eq]
    split <;> rfl
  keeps_write r bytes := by
    rw [Sent.write_eq]
    split <;> rfl
  taken_write r bytes := by
    rw [Sent.write_eq]
    split <;> rfl
  body_write r bytes := by
    rw [Sent.write_eq]
    cases hallows : allowsBody (ResponseWriter.status r) <;> cases hhead : r.isHead <;>
      simp [Sent.body_eq, hhead]

namespace Observed

open ResponseWriter LawfulResponseWriter

variable {ω : Type} [ResponseWriter ω] [LawfulResponseWriter ω]

/-- After some text is written, the log shows the status `logged` and the response has the status
`code`. The log counts the text if this allows a body, and the body has it if the writer keeps it. -/
structure Shows (o : Observed ω) (logged code : Int) (kept : Bool) (text : Bytes) : Prop where
  logged : o.loggedStatus = logged
  status : status o.writer = code
  keeps : keeps o.writer = kept
  bytesOut : o.bytesOut = if allowsBody code then text.length else 0
  body : body o.writer = if kept then text else []

variable {o : Observed ω} {logged code : Int} {kept : Bool} {text : Bytes}

theorem Shows.write (h : o.Shows logged code kept text) (bytes : Bytes) :
    (o.step (.write bytes)).Shows logged code kept (text ++ bytes) where
  logged := h.logged
  status := (status_write o.writer bytes).trans h.status
  keeps := (keeps_write o.writer bytes).trans h.keeps
  bytesOut := by
    show o.bytesOut + (ResponseWriter.write o.writer bytes).2 = _
    rw [taken_write, h.status, h.bytesOut, List.length_append]
    split <;> rfl
  body := by
    refine (body_write o.writer bytes).trans ?_
    rw [h.keeps, h.body]
    split <;> rfl

theorem Shows.writes (h : o.Shows logged code kept text) {actions : List Action}
    (hwrites : ∀ a ∈ actions, ∃ bytes, a = .write bytes) :
    (actions.foldl step o).Shows logged code kept (text ++ Http.written actions) := by
  induction actions generalizing o text with
  | nil =>
      rw [written_nil, List.append_nil]
      exact h
  | cons a actions ih =>
      obtain ⟨⟨bytes, rfl⟩, hrest⟩ := List.forall_mem_cons.mp hwrites
      rw [written_cons, ← List.append_assoc]
      exact ih (h.write bytes) hrest

/-- A writer at the point where an orderly handler starts to write. -/
def settled (w : ω) : List Action → ω
  | .status code :: _ => setStatus w code
  | _ => w

/-- **The log shows what an orderly handler asks for**, and counts what it writes if the status that
the writer settles on allows a body. -/
theorem shows_ofActions {w : ω} (hbody : body w = []) {actions : List Action}
    (h : Orderly actions) :
    (ofActions w actions).Shows (asked actions) (status (settled w actions))
      (keeps (settled w actions)) (Http.written actions) := by
  have hstart : Shows { writer := w } 200 (status w) (keeps w) [] :=
    ⟨rfl, rfl, rfl, (ite_self 0).symm, hbody.trans (ite_self []).symm⟩
  cases actions with
  | nil => exact hstart
  | cons a actions =>
      cases a with
      | write bytes => exact (hstart.write bytes).writes h.writes
      | status code =>
          have hset : (step { writer := w } (.status code)).Shows code (status (setStatus w code))
              (keeps (setStatus w code)) [] :=
            ⟨rfl, rfl, rfl, (ite_self 0).symm,
              ((body_setStatus w code).trans hbody).trans (ite_self []).symm⟩
          exact hset.writes h.writes

end Observed

theorem shows_recorded {actions : List Action} (h : Orderly actions) :
    (Observed.ofActions ({} : Recorded) actions).Shows (asked actions) (asked actions) true
      (written actions) := by
  have hshows := @Observed.shows_ofActions Recorded _ _ {} rfl actions h
  have hstatus : ResponseWriter.status (Observed.settled ({} : Recorded) actions) =
      asked actions := by
    unfold Observed.settled asked
    split <;> rfl
  rwa [hstatus] at hshows

/-- The status that a client gets if the handler asks for this one. -/
def finalStatus (code : Int) : Int := if isInformational code then 200 else code

theorem shows_sent (isHead : Bool) {actions : List Action} (h : Orderly actions) :
    (Observed.ofActions ({ isHead } : Sent) actions).Shows (asked actions)
      (finalStatus (asked actions)) (!isHead && allowsBody (finalStatus (asked actions)))
      (written actions) := by
  have hshows := @Observed.shows_ofActions Sent _ _ { isHead } (ite_self []) actions h
  have hsettled : ResponseWriter.status (Observed.settled ({ isHead } : Sent) actions) =
        finalStatus (asked actions) ∧
      (Observed.settled ({ isHead } : Sent) actions).isHead = isHead := by
    unfold Observed.settled asked
    split
    · next code _ =>
      have hset : ResponseWriter.setStatus ({ isHead } : Sent) code =
          if isInformational code then { isHead, ahead := [code] }
          else { isHead, status? := some code } := rfl
      rw [hset, finalStatus]
      split <;> exact ⟨rfl, rfl⟩
    · exact ⟨rfl, rfl⟩
  have hkeeps : LawfulResponseWriter.keeps (Observed.settled ({ isHead } : Sent) actions) =
      (!isHead && allowsBody (finalStatus (asked actions))) := by
    rw [← hsettled.1]
    exact congrArg (fun b => !b && _) hsettled.2
  rwa [hkeeps, hsettled.1] at hshows

/-! ### What a record says -/

/-- Is this the record of a request? -/
def isAccess (record : Log.Record) : Bool := record.message = utf8 "request"

/-- The record says that the request was answered with this status and so many bytes. -/
structure Tells (record : Log.Record) (request : Request) (status : Int) (length : Nat) : Prop where
  isAccess : isAccess record
  level : record.level = if 500 ≤ status then .warn else .info
  method : record.attributes.lookup (utf8 "method") = some (.text request.method)
  path : record.attributes.lookup (utf8 "path") = some (.text request.target.path)
  status : record.attributes.lookup (utf8 "status") = some (.int status)
  bytesOut : record.attributes.lookup (utf8 "bytes_out") = some (.int length)

theorem tells_accessRecord {ω : Type} [ResponseWriter ω] (o : Observed ω) (requestId : Bytes)
    (request : Request) : Tells (o.accessRecord requestId request) request o.loggedStatus o.bytesOut where
  isAccess := rfl
  level := rfl
  method := rfl
  path := rfl
  status := rfl
  bytesOut := rfl

theorem Observed.Shows.tells {ω : Type} [ResponseWriter ω] [LawfulResponseWriter ω]
    {o : Observed ω} {logged code : Int} {kept : Bool} {text : Bytes}
    (h : o.Shows logged code kept text) (requestId : Bytes) (request : Request) :
    Tells (o.accessRecord requestId request) request logged
      (if allowsBody code then text.length else 0) := by
  have htells := tells_accessRecord o requestId request
  rwa [h.logged, h.bytesOut] at htells

/-! ### The answers of the service -/

namespace Service

/-- The answers that the service gives. -/
inductive Gives : Reply → Prop
  | error {status : Int} (message : Bytes) : status ∈ [400, 401, 413] →
      Gives (errorReply status message)
  | notFound : Gives notFoundReply
  | wrongMethod (route : Route) : Gives (wrongMethodReply route)
  | unknownMethod : Gives unknownMethodReply
  | health : Gives healthReply
  | stats (summary : Summary) : Gives (statsReply summary)
  | conversion (output : Bytes) (diagnostics : List Diagnostic) :
      Gives (conversionReply output diagnostics)

theorem Gives.asked_mem {reply : Reply} (h : Gives reply) :
    asked reply.actions ∈ [200, 400, 401, 404, 405, 413] := by
  cases h with
  | error message hstatus => exact List.Sublist.subset (by decide) hstatus
  | notFound =>
      show (404 : Int) ∈ _
      simp
  | wrongMethod | unknownMethod =>
      show (405 : Int) ∈ _
      simp
  | health | stats | conversion =>
      show (200 : Int) ∈ _
      simp

/-- The answers have a status for the client, may have a body, and are no errors of the service. -/
theorem Gives.status {reply : Reply} (h : Gives reply) :
    100 ≤ asked reply.actions ∧ asked reply.actions < 500 ∧
      finalStatus (asked reply.actions) = asked reply.actions ∧ allowsBody (asked reply.actions) := by
  have hall : ∀ status ∈ [(200 : Int), 400, 401, 404, 405, 413],
      100 ≤ status ∧ status < 500 ∧ finalStatus status = status ∧ allowsBody status := by
    simp [allowsBody, finalStatus, isInformational]
  exact hall _ h.asked_mem

theorem Gives.orderly {reply : Reply} (h : Gives reply) : Orderly reply.actions := by
  constructor
  · cases h with
    | error | notFound => simp [errorReply, notFoundReply]
    | wrongMethod | unknownMethod | health | stats | conversion => exact List.forall_mem_nil _
  · intro code hcode
    obtain ⟨rest, hactions⟩ := List.head?_eq_some_iff.mp hcode
    have hasked : asked reply.actions = code := by rw [hactions]; rfl
    have hstatus := h.status
    rw [hasked] at hstatus
    omega

/-! ### What is logged on the way -/

/-- The service gives this answer, and none of the records logged until then is the one of the
request. -/
structure Answers (x : Service × Reply × List Log.Record) : Prop where
  gives : Gives x.2.1
  not_isAccess : ∀ record ∈ x.2.2, isAccess record = false

theorem Gives.answers {reply : Reply} (h : Gives reply) (s : Service) : Answers (s, reply, []) :=
  ⟨h, List.forall_mem_nil _⟩

theorem not_isAccess_remarks (attributes : List (Bytes × Log.Value)) (remarks : List Remark) :
    ∀ record ∈ remarks.map fun remark => remark.record.under attributes,
      isAccess record = false := by
  rw [List.forall_mem_map]
  intro remark _
  cases remark <;> rfl

theorem answers_convertUpload (s : Service) (moment : Moment) (r : Request) :
    Answers (s.convertUpload moment r) := by
  unfold convertUpload
  split
  · exact (Gives.error _ (by simp)).answers s
  · dsimp only
    split
    · split
      · exact ⟨.error _ (by simp), not_isAccess_remarks _ _⟩
      · -- the failure is logged after the remarks
        refine ⟨.error _ (by simp), ?_⟩
        rw [List.forall_mem_append, List.forall_mem_singleton]
        exact ⟨not_isAccess_remarks _ _, rfl⟩
    · exact ⟨.conversion _ _, not_isAccess_remarks _ _⟩

theorem answers_answer (s : Service) (moment : Moment) (r : Request) :
    Answers (s.answer moment r) := by
  unfold answer
  split
  · exact Gives.unknownMethod.answers s
  split
  · exact Gives.notFound.answers s
  next route _ =>
  unfold enter
  split
  · exact (Gives.wrongMethod route).answers s
  split
  · exact (Gives.error _ (by simp)).answers s
  cases route with
  | health => exact Gives.health.answers s
  | translate => exact answers_convertUpload s moment r
  | stats => exact (Gives.stats _).answers _

theorem written_answer_of_head {s : Service} {moment : Moment} {r : Request}
    (h : r.method = utf8 "HEAD") :
    (written (s.answer moment r).2.1.actions).length =
      if (Route.ofPath? r.target.sentPath).isSome then 0 else 19 := by
  have hstandard : ¬ utf8 "HEAD" ∉ standardMethods := by decide
  rw [answer, h, if_neg hstandard]
  cases Route.ofPath? r.target.sentPath with
  | none =>
      show (written notFoundReply.actions).length = 19
      decide
  | some route =>
      -- no route has the method, so all of them answer without a body
      have hmethod : r.method ≠ route.method := by
        rw [h]
        cases route <;> decide
      show (written (s.enter moment r route).2.1.actions).length = 0
      rw [enter, if_pos hmethod]
      rfl

/-! ### Many requests -/

/-- What the log of the service says about a request: there is one record of it, which tells this
status, no error of the service, and so many bytes. -/
structure Logged (r : Request) (status : Int) (length : Nat) (records : List Log.Record) :
    Prop where
  status_lt : status < 500
  access : ∃ access, records.filter isAccess = [access] ∧ access.level = .info ∧
    Tells access r status length

theorem logged_serveTo {ω : Type} [ResponseWriter ω] [LawfulResponseWriter ω] {w : ω}
    {s : Service} {moment : Moment} {r : Request} {code : Int} {kept : Bool} {text : Bytes}
    (hshows : (Observed.ofActions w (s.answer moment r).2.1.actions).Shows code code kept text)
    (hcode : code < 500) (hallows : allowsBody code) :
    Logged r code text.length (s.serveTo w moment r).2.2 := by
  obtain ⟨-, hnot⟩ := answers_answer s moment r
  have htells := hshows.tells (requestId moment r) r
  rw [if_pos hallows] at htells
  have hothers : (s.answer moment r).2.2.filter isAccess = [] :=
    List.filter_eq_nil_iff.mpr fun record hmem => Bool.eq_false_iff.mp (hnot record hmem)
  refine ⟨hcode, _, ?_, ?_, htells⟩
  · show ((s.answer moment r).2.2 ++ [_]).filter isAccess = _
    rw [List.filter_append, hothers]
    exact List.filter_cons_of_pos htells.isAccess
  · exact htells.level.trans (if_neg (Int.not_le.mpr hcode))

theorem logged_serve (s : Service) (moment : Moment) (r : Request) :
    Logged r (s.serve moment r).2.1.status (s.serve moment r).2.1.body.length
      (s.serve moment r).2.2 := by
  obtain ⟨hgives, -⟩ := answers_answer s moment r
  obtain ⟨-, hlt, -, hallows⟩ := hgives.status
  have hshows := shows_recorded hgives.orderly
  have hlogged := logged_serveTo hshows hlt hallows
  have hstatus : (s.serve moment r).2.1.status = asked (s.answer moment r).2.1.actions :=
    hshows.status
  have hbody : (s.serve moment r).2.1.body = written (s.answer moment r).2.1.actions :=
    hshows.body
  rw [hstatus, hbody]
  exact hlogged

/-- A client gets the bytes that are counted, unless it only asks for the head of the response. Then
it gets none of the nineteen in the answer to a path that no route has. -/
def Gets (r : Request) (response : Response) (counted : Nat) : Prop :=
  if r.method = utf8 "HEAD" then
    response.body = [] ∧ counted = if (Route.ofPath? r.target.sentPath).isSome then 0 else 19
  else response.body.length = counted

theorem logged_serveClient (s : Service) (moment : Moment) (r : Request) :
    ∃ counted, Logged r (s.serveClient moment r).2.1.status counted (s.serveClient moment r).2.2 ∧
      Gets r (s.serveClient moment r).2.1 counted := by
  obtain ⟨hgives, -⟩ := answers_answer s moment r
  obtain ⟨-, hlt, hfinal, hallows⟩ := hgives.status
  have hshows := shows_sent (r.method = utf8 "HEAD") hgives.orderly
  rw [hfinal, hallows, Bool.and_true] at hshows
  have hstatus : (s.serveClient moment r).2.1.status = asked (s.answer moment r).2.1.actions :=
    hshows.status
  have hbody : (s.serveClient moment r).2.1.body = if !decide (r.method = utf8 "HEAD") then
      written (s.answer moment r).2.1.actions else [] := hshows.body
  refine ⟨(written (s.answer moment r).2.1.actions).length, ?_, ?_⟩
  · rw [hstatus]
    exact logged_serveTo hshows hlt hallows
  · rw [Gets]
    split
    · next hhead =>
      rw [hbody, decide_eq_true hhead]
      exact ⟨rfl, written_answer_of_head hhead⟩
    · next hhead =>
      rw [hbody, decide_eq_false hhead]
      rfl

/-- The responses to requests that are served in order, each with the records logged for it. -/
def outcomes (serve : Service → Moment → Request → Service × Response × List Log.Record) :
    Service → List (Moment × Request) → List (Response × List Log.Record)
  | _, [] => []
  | s, v :: visits => (serve s v.1 v.2).2 :: outcomes serve (serve s v.1 v.2).1 visits

theorem forall₂_outcomes {serve : Service → Moment → Request → Service × Response × List Log.Record}
    {P : Moment × Request → Response × List Log.Record → Prop}
    (h : ∀ s v, P v (serve s v.1 v.2).2) (s : Service) (visits : List (Moment × Request)) :
    List.Forall₂ P visits (outcomes serve s visits) := by
  induction visits generalizing s with
  | nil => exact .nil
  | cons v visits ih => exact .cons (h s v) (ih _)

/-- **What the access log tells.** Whatever requests come to a service, each leaves one record in the
access log, with the status of its response, and none is a warning. The bytes it shows are those of
the recorded response, and also those of the response that a client gets, but for HEAD requests. The
same goes for any handler that sets the status once at most and before it writes: the log shows this
status, in a warning if it is an error of the server, and counts what is written if the response may
have a body. The client gets another status if that one is only sent ahead. -/
theorem outcomes_logged :
    (∀ (s : Service) (visits : List (Moment × Request)),
      List.Forall₂ (fun v outcome =>
          Logged v.2 outcome.1.status outcome.1.body.length outcome.2)
        visits (outcomes serve s visits) ∧
      List.Forall₂ (fun v outcome => ∃ counted,
          Logged v.2 outcome.1.status counted outcome.2 ∧ Gets v.2 outcome.1 counted)
        visits (outcomes serveClient s visits)) ∧
    ∀ (actions : List Action) (requestId : Bytes) (request : Request), Orderly actions →
      (let recorded := Observed.ofActions ({} : Recorded) actions
       let status := ResponseWriter.status recorded.writer
       Tells (recorded.accessRecord requestId request) request status
           (if allowsBody status then (ResponseWriter.body recorded.writer).length else 0) ∧
         status = asked actions ∧ ResponseWriter.body recorded.writer = written actions) ∧
      ∀ isHead,
        let sent := Observed.ofActions ({ isHead } : Sent) actions
        let status := ResponseWriter.status sent.writer
        Tells (sent.accessRecord requestId request) request (asked actions)
            (if allowsBody status then (written actions).length else 0) ∧
          status = finalStatus (asked actions) ∧
          ResponseWriter.body sent.writer =
            if !isHead && allowsBody status then written actions else [] := by
  refine ⟨fun s visits => ⟨forall₂_outcomes (fun s v => logged_serve s v.1 v.2) s visits,
    forall₂_outcomes (fun s v => logged_serveClient s v.1 v.2) s visits⟩, ?_⟩
  intro actions requestId request h
  constructor
  · intro recorded status
    have hshows : recorded.Shows _ _ _ _ := shows_recorded h
    have hstatus : status = asked actions := hshows.status
    have hbody : ResponseWriter.body recorded.writer = written actions := hshows.body
    rw [hstatus, hbody]
    exact ⟨hshows.tells requestId request, rfl, rfl⟩
  · intro isHead sent status
    have hshows : sent.Shows _ _ _ _ := shows_sent isHead h
    have hstatus : status = finalStatus (asked actions) := hshows.status
    rw [hstatus]
    exact ⟨hshows.tells requestId request, rfl, hshows.body⟩

/-- A handler that fails, and writes in two parts. -/
theorem outcomes_logged_unavailable :
    let actions : List Action := [.status 503, .write (utf8 "a"), .write (utf8 "bc")]
    let request : Request :=
      { method := utf8 "GET", target := { sentPath := utf8 "/", path := utf8 "/" } }
    let sent := Observed.ofActions ({ isHead := false } : Sent) actions
    Orderly actions ∧ Tells (sent.accessRecord [] request) request 503 3 ∧
      ResponseWriter.status sent.writer = 503 ∧ ResponseWriter.body sent.writer = utf8 "abc" := by
  intro actions request sent
  have horderly : Orderly actions := ⟨by simp [actions], by simp [actions]⟩
  obtain ⟨htells, hstatus, hbody⟩ := (outcomes_logged.2 actions [] request horderly).2 false
  exact ⟨horderly, htells, hstatus, hbody⟩

/-- A client who asks for the head of a page that is not there gets no body, and the log counts
nineteen bytes. A handler that has a status sent ahead and writes then answers with 200, and the log
shows the first status. And where no body may be, a recorded response keeps what is written, and the
log does not count it. -/
theorem not_tells_head :
    let head : Request :=
      { method := utf8 "HEAD", target := { sentPath := utf8 "/nope", path := utf8 "/nope" } }
    let response := (serveClient { settings := {} } {} head).2.1
    let hints := Observed.ofActions ({ isHead := false } : Sent) [.status 103, .write (utf8 "abc")]
    let noContent := Observed.ofActions ({} : Recorded) [.status 204, .write (utf8 "abc")]
    (∀ record ∈ (serveClient { settings := {} } {} head).2.2,
        ¬ Tells record head response.status response.body.length) ∧
      (∀ request, ¬ Tells (hints.accessRecord [] request) request
        (ResponseWriter.status hints.writer) (ResponseWriter.body hints.writer).length) ∧
      ∀ request, ¬ Tells (noContent.accessRecord [] request) request
        (ResponseWriter.status noContent.writer) (ResponseWriter.body noContent.writer).length := by
  intro head response hints noContent
  refine ⟨?_, ?_, ?_⟩
  · have hlogged : (serveClient { settings := {} } {} head).2.2.map
        (·.attributes.lookup (utf8 "bytes_out")) = [some (.int 19)] := by decide +kernel
    have hbody : response.body.length = 0 := by decide +kernel
    intro record hrecord h
    have hcount := List.mem_map_of_mem (f := (·.attributes.lookup (utf8 "bytes_out"))) hrecord
    rw [hlogged, h.bytesOut, hbody, List.mem_singleton] at hcount
    exact absurd hcount (by decide)
  · intro request h
    have hstatus : some (Log.Value.int 103) = some (Log.Value.int 200) := h.status
    exact absurd hstatus (by decide)
  · intro request h
    have hcount : some (Log.Value.int 0) = some (Log.Value.int 3) := h.bytesOut
    exact absurd hcount (by decide)

end Service

end Literate.Http
