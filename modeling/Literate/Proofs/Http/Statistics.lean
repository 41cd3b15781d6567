import Mathlib.Data.List.Forall2
import Literate.Proofs.Http.Translation
import Literate.Proofs.Latency

/-!
# What the statistics count

A request comes to one of three things, whatever came before it and whenever it comes
(`exists_comesTo`): a conversion, which is recorded; a look at the statistics; or an answer that is
fixed. Within an hour nothing grows too old, so the statistics count just the conversions, and
besides them no request shows in the answer to another one (`statistics_count_translations`).
-/

namespace Literate.Http

open Bytes Text Json

/-! ### What a client reads from the statistics -/

/-- The statistics as a client is shown them, the latency figures apart. -/
structure Figures where
  count : Int
  total : Int
  diagnostics : Int
deriving DecidableEq, Repr

/-- The statistics that a body holds. -/
def Figures.read? (body : Bytes) : Option Figures := do
  let v ← (← Json.read? body).field? (utf8 "translations")
  let count ← (← v.field? (utf8 "count")).toInt?
  let total ← (← v.field? (utf8 "total")).toInt?
  let diagnostics ← (← v.field? (utf8 "diagnostics")).toInt?
  some { count, total, diagnostics }

theorem Figures.read?_statsReply (s : Summary) :
    Figures.read? (statsReply s).response.body = some ⟨s.count, s.total, s.diagnostics⟩ := by
  have hproper : (Json.object [(utf8 "translations", s.toJson)]).Proper := by
    refine .object ?_
    rw [List.forall_mem_singleton]
    exact s.proper_toJson
  rw [statsReply, body_write, jsonBody, Figures.read?, read?_render hproper, repaired_object,
    List.map_cons, List.map_nil, repairedField_utf8, Summary.toJson, repaired_object]
  simp only [List.map_cons, List.map_nil, repairedField_utf8, repaired_int]
  show (toInt? (.int s.count)).bind (fun count => (toInt? (.int s.total)).bind fun total =>
    (toInt? (.int s.diagnostics)).bind fun diagnostics =>
      some (Figures.mk count total diagnostics)) = _
  simp only [toInt?_int, Option.bind_some]

/-- The response without the latency figures, if it shows any. -/
def Response.withoutLatency (a : Response) : Int × Fields × (Figures ⊕ Bytes) :=
  (a.status, a.fields, match Figures.read? a.body with
    | some figures => .inl figures
    | none => .inr a.body)

theorem withoutLatency_statsReply (s : Summary) :
    (statsReply s).response.withoutLatency =
      (200, [jsonField], .inl ⟨s.count, s.total, s.diagnostics⟩) := by
  rw [Response.withoutLatency, Figures.read?_statsReply]
  rfl

/-! ### What a request comes to -/

theorem Request.Asks.unique {r : Request} {route route' : Route} (h : r.Asks route)
    (h' : r.Asks route') : route = route' := by
  have hsome := Service.ofPath?_path route
  rw [← h.path, h'.path, Service.ofPath?_path] at hsome
  exact (Option.some.inj hsome).symm

instance (r : Request) (route : Route) : Decidable (r.Asks route) :=
  decidable_of_iff (r.method = route.method ∧ r.target.sentPath = route.path)
    ⟨fun h => ⟨h.1, h.2⟩, fun h => ⟨h.method, h.path⟩⟩

/-- What there is to do about a request. -/
inductive Deed where
  /-- Tell of a conversion, and record it. -/
  | convert (output : Bytes) (diagnostics : List Diagnostic)
  /-- Show the statistics. -/
  | look
  /-- Give this answer and leave everything as it is. -/
  | reply (answer : Reply)

namespace Deed

/-- Do it. -/
def perform (s : Service) (moment : Moment) : Deed → Service × Reply
  | .convert output diagnostics => s.settle moment output diagnostics none
  | .look =>
    ({ s with stats := (s.stats.snapshot moment.now).1 },
      statsReply (s.stats.snapshot moment.now).2)
  | .reply answer => (s, answer)

/-- What the request asks for. An answer that is fixed is no success on a route where there is
something to do. -/
def Fits (r : Request) : Deed → Prop
  | .convert _ _ => r.Asks .translate
  | .look => r.Asks .stats
  | .reply answer =>
    ∀ route : Route, route.isProtected → r.Asks route → answer.response.status ≠ 200

end Deed

/-- What a request comes to, whatever came before it and whenever it comes. -/
structure ComesTo (settings : Settings) (r : Request) (d : Deed) : Prop where
  fits : d.Fits r
  answer : ∀ (stats : Window) (moment : Moment),
    Service.withoutLog (Service.answer { settings, stats } moment r) =
      d.perform { settings, stats } moment

namespace Service

theorem exists_upload (settings : Settings) {r : Request} (hasks : r.Asks .translate) :
    ∃ d : Deed, d.Fits r ∧ ∀ (stats : Window) (moment : Moment),
      withoutLog (convertUpload { settings, stats } moment r) =
        d.perform { settings, stats } moment := by
  cases hformat : uploadFormat r.target with
  | error e =>
      refine ⟨.reply (errorReply 400 e.text), fun _ _ _ => ?_, fun stats moment => ?_⟩
      · rw [status_errorReply]
        decide
      · rw [convertUpload_of_unsupported hformat]
        rfl
  | ok format =>
      obtain ⟨c, hc⟩ : ∃ c, format.convert (Path.sanitize (r.target.parameter (utf8 "filename")))
          (r.body.limited settings.maxUploadBytes.toNat) ({} : Sink) = c := ⟨_, rfl⟩
      have hsettle (stats : Window) (moment : Moment) :=
        @convertUpload_eq_settle { settings, stats } moment r format hformat c hc
      cases herror : c.error with
      | none =>
          refine ⟨.convert c.out.contents c.diagnostics, hasks, fun stats moment => ?_⟩
          rw [hsettle, herror]
          rfl
      | some e =>
          refine ⟨.reply (settle { settings } {} c.out.contents c.diagnostics (some e.failure)).2,
            fun _ _ _ => ?_, fun stats moment => ?_⟩
          · rw [status_settle]
            dsimp only
            split <;> decide
          · rw [hsettle, herror, Option.map_some, settle, settle]
            split <;> rfl

/-- A request that asks for a route. -/
theorem exists_asked (settings : Settings) {r : Request} {route : Route} (hasks : r.Asks route) :
    ∃ d, ComesTo settings r d := by
  have hanswer (stats : Window) (moment : Moment) :=
    @answer_of_asks { settings, stats } moment r route hasks
  cases hrefusal : refusal? { settings } r route with
  | some denial =>
      refine ⟨.reply (errorReply 401 denial.text), fun _ _ _ => ?_, fun stats moment => ?_⟩
      · rw [status_errorReply]
        decide
      · rw [hanswer, show refusal? { settings, stats } r route = some denial from hrefusal]
        rfl
  | none =>
      have hhandle (stats : Window) (moment : Moment) :
          withoutLog (answer { settings, stats } moment r) =
            withoutLog (handle { settings, stats } moment r route) := by
        rw [hanswer, show refusal? { settings, stats } r route = none from hrefusal]
      cases route with
      | health =>
          refine ⟨.reply healthReply, fun route hprotected hroute => ?_, hhandle⟩
          rw [← hasks.unique hroute] at hprotected
          cases hprotected
      | stats => exact ⟨.look, hasks, hhandle⟩
      | translate =>
          obtain ⟨d, hfits, hupload⟩ := exists_upload settings hasks
          exact ⟨d, hfits, fun stats moment => (hhandle stats moment).trans (hupload stats moment)⟩

/-- A request that asks for no route: its path is none, or its method is not the one. -/
theorem exists_lost (settings : Settings) {r : Request} (hasks : ¬ ∃ route, r.Asks route) :
    ∃ d, ComesTo settings r d := by
  have hfits (answer : Reply) : (Deed.reply answer).Fits r := fun route _ hroute =>
    absurd ⟨route, hroute⟩ hasks
  by_cases hmethod : r.method ∉ standardMethods
  · refine ⟨.reply unknownMethodReply, hfits _, fun stats moment => ?_⟩
    rw [answer, if_pos hmethod]
    rfl
  cases hpath : Route.ofPath? r.target.sentPath with
  | none =>
      refine ⟨.reply notFoundReply, hfits _, fun stats moment => ?_⟩
      rw [answer, if_neg hmethod, hpath]
      rfl
  | some route =>
      have hroute : route.path = r.target.sentPath := by simpa using List.find?_some hpath
      have hother : r.method ≠ route.method := fun h => hasks ⟨route, h, hroute.symm⟩
      refine ⟨.reply (wrongMethodReply route), hfits _, fun stats moment => ?_⟩
      rw [answer, if_neg hmethod, hpath]
      show withoutLog (enter _ moment r route) = _
      rw [enter, if_pos hother]
      rfl

theorem exists_comesTo (settings : Settings) (r : Request) : ∃ d, ComesTo settings r d := by
  by_cases hasks : ∃ route, r.Asks route
  · exact exists_asked settings hasks.choose_spec
  · exact exists_lost settings hasks

end Service

/-! ### Conversions that are recorded -/

namespace Deed

/-- The numbers of diagnostics that this has recorded: one or none. -/
def counts : Deed → List Int
  | .convert _ diagnostics => [(diagnostics.length : Int)]
  | .look => []
  | .reply _ => []

/-- The response, the latency figures apart, after conversions with these numbers of diagnostics. -/
def response (counts : List Int) : Deed → Int × Fields × (Figures ⊕ Bytes)
  | .convert output diagnostics => (conversionReply output diagnostics).response.withoutLatency
  | .look => (200, [jsonField], .inl ⟨counts.length, counts.length, sum64 counts⟩)
  | .reply answer => answer.response.withoutLatency

/-- The responses to requests that come to these deeds, one after the other. -/
def responses : List Int → List Deed → List (Int × Fields × (Figures ⊕ Bytes))
  | _, [] => []
  | counts, d :: ds => d.response counts :: responses (counts ++ d.counts) ds

end Deed

/-- The moment is at most an hour after `start`. -/
def Moment.Within (start : Int) (moment : Moment) : Prop :=
  start ≤ moment.now ∧ moment.now ≤ start + Window.hour

instance (start : Int) (moment : Moment) : Decidable (moment.Within start) :=
  inferInstanceAs (Decidable (_ ∧ _))

namespace Service

/-- The service has these settings, and its statistics hold all conversions so far. -/
structure Keeps (s : Service) (settings : Settings) (start : Int) (counts : List Int) : Prop where
  settings : s.settings = settings
  maxAge : s.stats.maxAge = Window.hour
  stats : s.stats.Holds start counts

variable {s : Service} {settings : Settings} {start : Int} {counts : List Int} {moment : Moment}
  {r : Request} {d : Deed}

theorem Keeps.fresh (settings : Settings) (start : Int) :
    ({ settings } : Service).Keeps settings start [] :=
  ⟨rfl, rfl, .empty _ start⟩

theorem Keeps.perform (h : s.Keeps settings start counts) (hmoment : moment.Within start) :
    (d.perform s moment).1.Keeps settings start (counts ++ d.counts) ∧
      (d.perform s moment).2.response.withoutLatency = d.response counts := by
  have hnow : moment.now ≤ start + s.stats.maxAge := h.maxAge ▸ hmoment.2
  cases d with
  | convert output diagnostics =>
      exact ⟨⟨h.settings, h.maxAge, h.stats.record hmoment.1 hnow _ _⟩, rfl⟩
  | look =>
      obtain ⟨hcount, htotal, hsum⟩ := h.stats.summary
      rw [Deed.perform, h.stats.snapshot_eq hnow, Deed.counts, List.append_nil,
        withoutLatency_statsReply, hcount, htotal, hsum]
      exact ⟨⟨h.settings, h.maxAge, h.stats⟩, rfl⟩
  | reply answer =>
      rw [Deed.counts, List.append_nil]
      exact ⟨h, rfl⟩

theorem Keeps.serve_eq (h : s.Keeps settings start counts) (hd : ComesTo settings r d)
    (moment : Moment) :
    (s.serve moment r).1 = (d.perform s moment).1 ∧
      (s.serve moment r).2.1 = (d.perform s moment).2.response := by
  obtain ⟨settings', stats⟩ := s
  obtain rfl : settings' = settings := h.settings
  rw [← hd.answer]
  exact ⟨rfl, rfl⟩

/-- One request: the conversions so far are still there, and a new one is added. -/
theorem Keeps.serve (h : s.Keeps settings start counts) (hd : ComesTo settings r d)
    (hmoment : moment.Within start) :
    (s.serve moment r).1.Keeps settings start (counts ++ d.counts) ∧
      (s.serve moment r).2.1.withoutLatency = d.response counts := by
  obtain ⟨hservice, hresponse⟩ := h.serve_eq hd moment
  rw [hservice, hresponse]
  exact h.perform hmoment

/-! ### Many requests -/

/-- The service after some requests. -/
def after (s : Service) (visits : List (Moment × Request)) : Service :=
  visits.foldl (fun s v => (s.serve v.1 v.2).1) s

/-- The responses to requests, in order. -/
def responses : Service → List (Moment × Request) → List Response
  | _, [] => []
  | s, v :: visits => (s.serve v.1 v.2).2.1 :: responses (s.serve v.1 v.2).1 visits

theorem exists_forall₂_comesTo (settings : Settings) (visits : List (Moment × Request)) :
    ∃ ds, List.Forall₂ (fun v d => ComesTo settings v.2 d) visits ds := by
  induction visits with
  | nil => exact ⟨[], .nil⟩
  | cons v visits ih =>
      obtain ⟨d, hd⟩ := exists_comesTo settings v.2
      obtain ⟨ds, hds⟩ := ih
      exact ⟨d :: ds, .cons hd hds⟩

variable {visits : List (Moment × Request)} {ds : List Deed}

theorem Keeps.run (hds : List.Forall₂ (fun v d => ComesTo settings v.2 d) visits ds)
    (h : s.Keeps settings start counts) (hvisits : ∀ v ∈ visits, v.1.Within start) :
    (s.after visits).Keeps settings start (counts ++ ds.flatMap Deed.counts) ∧
      (s.responses visits).map Response.withoutLatency = Deed.responses counts ds := by
  induction hds generalizing s counts with
  | nil =>
      rw [List.flatMap_nil, List.append_nil]
      exact ⟨h, rfl⟩
  | @cons v d visits ds hd _ ih =>
      rw [List.forall_mem_cons] at hvisits
      obtain ⟨hnext, hresponse⟩ := h.serve hd hvisits.1
      obtain ⟨hlast, hresponses⟩ := ih hnext hvisits.2
      refine ⟨?_, ?_⟩
      · rw [List.flatMap_cons, ← List.append_assoc]
        exact hlast
      · rw [responses, List.map_cons, hresponse, hresponses]
        rfl

/-! ### Which requests count -/

/-- The request is an upload and was answered with success. -/
def Translated (r : Request) (a : Response) : Prop := r.Asks .translate ∧ a.status = 200

instance (r : Request) (a : Response) : Decidable (Translated r a) :=
  inferInstanceAs (Decidable (_ ∧ _))

/-- The responses to the requests that were answered with a translation. -/
def translations (s : Service) (visits : List (Moment × Request)) : List Response :=
  ((visits.zip (s.responses visits)).filter fun x => Translated x.1.2 x.2).map Prod.snd

theorem translations_cons (s : Service) (v : Moment × Request) (visits : List (Moment × Request)) :
    s.translations (v :: visits) =
      (if Translated v.2 (s.serve v.1 v.2).2.1 then [(s.serve v.1 v.2).2.1] else []) ++
        (s.serve v.1 v.2).1.translations visits := by
  rw [translations, responses, List.zip_cons_cons, List.filter_cons]
  split
  · next h =>
    rw [if_pos (of_decide_eq_true h)]
    rfl
  · next h =>
    rw [if_neg (fun ht => h (decide_eq_true ht))]
    rfl

/-- What comes to no conversion was not answered with a translation, and the other way round. -/
theorem Keeps.translated (h : s.Keeps settings start counts) (hd : ComesTo settings r d)
    (moment : Moment) :
    (∃ t, Translated r (s.serve moment r).2.1 ∧
        Translation.read? (s.serve moment r).2.1.body = some t ∧
        d.counts = [(t.diagnostics.length : Int)]) ∨
      ¬ Translated r (s.serve moment r).2.1 ∧ d.counts = [] := by
  have hfits := hd.fits
  rw [(h.serve_eq hd moment).2]
  cases d with
  | convert output diagnostics =>
      refine .inl ⟨_, ⟨hfits, rfl⟩, Translation.read?_conversionReply output diagnostics, ?_⟩
      rw [Deed.counts, List.length_map]
  | look =>
      refine .inr ⟨fun ht => ?_, rfl⟩
      cases hfits.unique ht.1
  | reply answer => exact .inr ⟨fun ht => hfits .translate rfl ht.1 ht.2, rfl⟩

/-- The conversions that are recorded are those that clients were told of. -/
theorem Keeps.translations (hds : List.Forall₂ (fun v d => ComesTo settings v.2 d) visits ds)
    (h : s.Keeps settings start counts) (hvisits : ∀ v ∈ visits, v.1.Within start) :
    ∃ ts : List Translation,
      (s.translations visits).map (fun a => Translation.read? a.body) = ts.map some ∧
        ds.flatMap Deed.counts = ts.map fun t => (t.diagnostics.length : Int) := by
  induction hds generalizing s counts with
  | nil => exact ⟨[], rfl, rfl⟩
  | @cons v d visits ds hd _ ih =>
      rw [List.forall_mem_cons] at hvisits
      obtain ⟨ts, hread, hcounts⟩ := ih (h.serve hd hvisits.1).1 hvisits.2
      rw [translations_cons, List.map_append, hread, List.flatMap_cons, hcounts]
      rcases h.translated hd v.1 with ⟨t, ht, htread, hdcounts⟩ | ⟨ht, hdcounts⟩
      · refine ⟨t :: ts, ?_, ?_⟩
        · rw [if_pos ht, List.map_singleton, htread]
          rfl
        · rw [hdcounts]
          rfl
      · refine ⟨ts, ?_, ?_⟩
        · rw [if_neg ht]
          rfl
        · rw [hdcounts]
          rfl

/-- A success on the route of the statistics shows them. -/
theorem Keeps.figures (h : s.Keeps settings start counts) (hasks : r.Asks .stats)
    (hmoment : moment.Within start) (hstatus : (s.serve moment r).2.1.status = 200) :
    Figures.read? (s.serve moment r).2.1.body =
      some ⟨counts.length, counts.length, sum64 counts⟩ := by
  obtain ⟨d, hd⟩ := exists_comesTo settings r
  have hfits := hd.fits
  rw [(h.serve_eq hd moment).2] at hstatus ⊢
  cases d with
  | convert output diagnostics => cases hasks.unique hfits
  | look =>
      obtain ⟨hcount, htotal, hsum⟩ := h.stats.summary
      rw [Deed.perform, h.stats.snapshot_eq (h.maxAge ▸ hmoment.2), Figures.read?_statsReply,
        hcount, htotal, hsum]
  | reply answer => exact absurd hstatus (hfits .stats rfl hasks)

end Service

/-! ### Leaving out a request -/

namespace Deed

theorem length_responses (counts : List Int) (ds : List Deed) :
    (responses counts ds).length = ds.length := by
  induction ds generalizing counts with
  | nil => rfl
  | cons d ds ih => rw [responses, List.length_cons, List.length_cons, ih]

theorem responses_append (counts : List Int) (ds ds' : List Deed) :
    responses counts (ds ++ ds') =
      responses counts ds ++ responses (counts ++ ds.flatMap Deed.counts) ds' := by
  induction ds generalizing counts with
  | nil => rw [List.flatMap_nil, List.append_nil]; rfl
  | cons d ds ih =>
      rw [List.cons_append, responses, ih, responses, List.flatMap_cons, List.append_assoc,
        List.cons_append]

/-- A deed that records nothing shows in no other response. -/
theorem responses_eraseIdx (counts : List Int) (ds : List Deed) {d : Deed} (hd : d.counts = [])
    (ds' : List Deed) :
    (responses counts (ds ++ d :: ds')).eraseIdx ds.length = responses counts (ds ++ ds') := by
  rw [responses_append, responses_append, responses, hd, List.append_nil,
    List.eraseIdx_append_of_length_le (by rw [length_responses]), length_responses, Nat.sub_self,
    List.eraseIdx_cons_zero]

end Deed

/-- How many diagnostics there are in all. -/
def diagnosticsIn (ts : List Translation) : Int :=
  (ts.map fun t => (t.diagnostics.length : Int)).foldl (· + ·) 0

theorem diagnosticsIn_nonneg (ts : List Translation) : 0 ≤ diagnosticsIn ts := by
  have hfold (n : Int) (hn : 0 ≤ n) :
      0 ≤ (ts.map fun t => (t.diagnostics.length : Int)).foldl (· + ·) n := by
    induction ts generalizing n with
    | nil => exact hn
    | cons t ts ih => exact ih (n + t.diagnostics.length) (by omega)
  exact hfold 0 (Int.le_refl 0)

theorem wrap64_diagnosticsIn {ts : List Translation} (h : diagnosticsIn ts < 0x8000000000000000) :
    wrap64 (diagnosticsIn ts) = diagnosticsIn ts := by
  have hnonneg := diagnosticsIn_nonneg ts
  unfold wrap64
  rw [Int.bmod_eq_of_le] <;> omega

namespace Service

/-- **Only translations change the service.** Let requests of any kind come within an hour, on any
clock. A success on the route of the statistics then shows as many conversions as there were
translations before, and all diagnostics that clients were told of, in 64 bits. And if a request
that was not answered with a translation is left out, the others are answered as before, the latency
figures apart, whenever they come within an hour. -/
theorem statistics_count_translations (settings : Settings) :
    let s : Service := { settings }
    (∀ (start : Int) (before : List (Moment × Request)) (moment : Moment) (r : Request),
      (∀ v ∈ before, v.1.Within start) → moment.Within start → r.Asks .stats →
      ((s.after before).serve moment r).2.1.status = 200 →
      ∃ ts : List Translation,
        (s.translations before).map (fun a => Translation.read? a.body) = ts.map some ∧
          Figures.read? ((s.after before).serve moment r).2.1.body =
            some ⟨ts.length, ts.length, wrap64 (diagnosticsIn ts)⟩ ∧
          (diagnosticsIn ts < 0x8000000000000000 →
            wrap64 (diagnosticsIn ts) = diagnosticsIn ts)) ∧
    ∀ (start start' : Int) (before after others : List (Moment × Request)) (v : Moment × Request),
      (∀ w ∈ before ++ v :: after, w.1.Within start) → (∀ w ∈ others, w.1.Within start') →
      ¬ Translated v.2 ((s.after before).serve v.1 v.2).2.1 →
      others.map Prod.snd = (before ++ after).map Prod.snd →
      (s.responses others).map Response.withoutLatency =
        ((s.responses (before ++ v :: after)).map Response.withoutLatency).eraseIdx
          before.length := by
  intro s
  constructor
  · intro start before moment r hbefore hmoment hasks hstatus
    have hfresh := Keeps.fresh settings start
    obtain ⟨ds, hds⟩ := exists_forall₂_comesTo settings before
    obtain ⟨hkeeps, -⟩ := hfresh.run hds hbefore
    obtain ⟨ts, hread, hcounts⟩ := hfresh.translations hds hbefore
    refine ⟨ts, hread, ?_, wrap64_diagnosticsIn⟩
    rw [hkeeps.figures hasks hmoment hstatus, List.nil_append, hcounts, List.length_map]
    rfl
  · intro start start' before after others v hvisits hothers hnot hsame
    have hfresh := Keeps.fresh settings start
    obtain ⟨ds, hds⟩ := exists_forall₂_comesTo settings before
    obtain ⟨d, hd⟩ := exists_comesTo settings v.2
    obtain ⟨ds', hds'⟩ := exists_forall₂_comesTo settings after
    have hbefore := fun w hw => hvisits w (List.mem_append_left (v :: after) hw)
    have hnothing : d.counts = [] := by
      obtain ⟨hkeeps, -⟩ := hfresh.run hds hbefore
      rcases hkeeps.translated hd v.1 with ⟨t, ht, -⟩ | ⟨-, hcounts⟩
      · exact absurd ht hnot
      · exact hcounts
    have hall := hfresh.run (List.rel_append hds (.cons hd hds')) hvisits
    have hleft : List.Forall₂ (fun v d => ComesTo settings v.2 d) others (ds ++ ds') := by
      rw [← List.forall₂_map_left_iff (f := Prod.snd), hsame, List.forall₂_map_left_iff]
      exact List.rel_append hds hds'
    rw [hall.2, ((Keeps.fresh settings start').run hleft hothers).2, hds.length_eq,
      Deed.responses_eraseIdx [] ds hnothing ds']

/-- Of two uploads one is too long, and somebody without the key asks for the statistics. One upload
and its one diagnostic are counted, and leaving out the other one makes no difference. -/
theorem statistics_count_translations_mixed :
    let settings : Settings := { apiKey := utf8 "k", maxUploadBytes := 8 }
    let s : Service := { settings }
    let key : Fields := [(utf8 "X-API-Key", utf8 "k")]
    let upload (text : String) : Request :=
      { method := utf8 "POST"
        target := { sentPath := utf8 "/api/translate", path := utf8 "/api/translate" }
        fields := key
        body := ⟨utf8 text, none⟩ }
    let stats (fields : Fields) : Request :=
      { method := utf8 "GET"
        target := { sentPath := utf8 "/api/stats", path := utf8 "/api/stats" }
        fields }
    let before : List (Moment × Request) := [({ now := 7, duration := 3000 }, upload "x\n@nl\n")]
    let long : Moment × Request := ({ now := 9 }, upload "@text long\n")
    let after : List (Moment × Request) :=
      [({ now := 8 }, stats []), ({ now := Window.hour }, stats key)]
    let others : List (Moment × Request) :=
      [({ now := 70, duration := 1 }, upload "x\n@nl\n"), ({ now := 60 }, stats []),
        ({ now := 80 }, stats key)]
    Figures.read? ((s.after (before ++ [long])).serve { now := Window.hour } (stats key)).2.1.body =
        some ⟨1, 1, 1⟩ ∧
      (s.responses others).map Response.withoutLatency =
        ((s.responses (before ++ long :: after)).map Response.withoutLatency).eraseIdx 1 := by
  intro settings s key upload stats before long after others
  obtain ⟨hcount, hleave⟩ := statistics_count_translations settings
  constructor
  · obtain ⟨ts, hread, hfigures, -⟩ := hcount 0 (before ++ [long]) { now := Window.hour }
      (stats key) (by decide) (by decide) (by decide) (by decide +kernel)
    have hts : (s.translations (before ++ [long])).map (fun a => Translation.read? a.body) =
        [⟨utf8 "\n", [(1, utf8 "Line too short or does not start with @")]⟩].map some := by
      decide +kernel
    obtain rfl := List.map_injective_iff.mpr (Option.some_injective _) (hread.symm.trans hts)
    rw [hfigures]
    decide
  · exact hleave 0 0 before after others long (by decide) (by decide) (by decide +kernel) rfl

end Service

end Literate.Http
