import Mathlib.Tactic.ByContra
import Literate.Proofs.Bytes
import Literate.Proofs.Http.Service

/-!
# Who is let in

A service with a key lets a request to a protected route in exactly if it presents that key. The
authorization comes first: if it starts with `Bearer `, what follows is the key presented, right or
wrong, and only otherwise the key field is looked at. Every other request gets one of two answers,
and which of them says no more than whether it presented a key at all (`serve_protected`).
-/

namespace Literate.Http

/-! ### Presenting a key -/

namespace Fields

variable (fields : Fields)

def authorization : Bytes := fields.first (utf8 "Authorization")

def keyField : Bytes := fields.first (utf8 "X-API-Key")

/-- What an authorization by key starts with. -/
def bearer : Bytes := utf8 "Bearer "

/-- The fields present this key. -/
def Presents (key : Bytes) : Prop :=
  fields.authorization = bearer ++ key ∨
    ¬ bearer <+: fields.authorization ∧ fields.keyField = key

/-- The fields present some key, right or wrong. -/
def PresentsAny : Prop := bearer <+: fields.authorization ∨ fields.keyField ≠ []

instance (key : Bytes) : Decidable (fields.Presents key) :=
  inferInstanceAs (Decidable (_ ∨ _))

instance : Decidable fields.PresentsAny := inferInstanceAs (Decidable (_ ∨ _))

end Fields

variable {fields : Fields} {key : Bytes}

theorem requestKey?_of_bearer (h : fields.authorization = Fields.bearer ++ key) :
    requestKey? fields = some key := by
  have hafter : Bytes.afterPrefix? (utf8 "Bearer ") (fields.first (utf8 "Authorization")) =
      some key := by
    show Bytes.afterPrefix? Fields.bearer fields.authorization = some key
    rw [h, Bytes.afterPrefix?_append]
  unfold requestKey?
  rw [hafter]

theorem requestKey?_of_not_bearer (h : ¬ Fields.bearer <+: fields.authorization) :
    requestKey? fields = if fields.keyField = [] then none else some fields.keyField := by
  have hafter : Bytes.afterPrefix? (utf8 "Bearer ") (fields.first (utf8 "Authorization")) =
      none := if_neg (mt List.isPrefixOf_iff_prefix.mp h)
  unfold requestKey?
  rw [hafter]
  simp only [List.isEmpty_iff]
  rfl

theorem requestKey?_eq_some_iff (hkey : key ≠ []) :
    requestKey? fields = some key ↔ fields.Presents key := by
  by_cases hbearer : Fields.bearer <+: fields.authorization
  · obtain ⟨presented, hpresented⟩ := hbearer
    rw [requestKey?_of_bearer hpresented.symm, Fields.Presents, ← hpresented]
    simp
  · have hne : fields.authorization ≠ Fields.bearer ++ key := by
      intro h
      exact hbearer (h ▸ List.prefix_append _ key)
    rw [requestKey?_of_not_bearer hbearer, Fields.Presents]
    by_cases hfield : fields.keyField = []
    · simp [hne, hfield, hkey.symm]
    · simp [hne, hbearer, hfield]

theorem isSome_requestKey?_iff : (requestKey? fields).isSome ↔ fields.PresentsAny := by
  by_cases hbearer : Fields.bearer <+: fields.authorization
  · obtain ⟨presented, hpresented⟩ := hbearer
    rw [requestKey?_of_bearer hpresented.symm, Fields.PresentsAny, ← hpresented]
    simp
  · rw [requestKey?_of_not_bearer hbearer, Fields.PresentsAny]
    by_cases hfield : fields.keyField = []
    · simp [hbearer, hfield]
    · simp [hfield]

/-! ### Denials -/

theorem denial?_of_presents (h : fields.Presents key) : denial? key fields = none := by
  unfold denial?
  split
  · rfl
  · next hkey =>
    rw [List.isEmpty_iff] at hkey
    rw [(requestKey?_eq_some_iff hkey).mpr h]
    simp

/-- The one thing that a denial tells. -/
theorem denial?_of_not_presents (hkey : key ≠ []) (h : ¬ fields.Presents key) :
    denial? key fields = some (if fields.PresentsAny then .invalidKey else .missingKey) := by
  rw [← requestKey?_eq_some_iff hkey] at h
  have hany := @isSome_requestKey?_iff fields
  unfold denial?
  rw [if_neg (mt List.isEmpty_iff.mp hkey)]
  cases hpresented : requestKey? fields with
  | none =>
      rw [hpresented] at hany
      rw [if_neg (fun hsome => Bool.false_ne_true (hany.mpr hsome))]
  | some presented =>
      have hne : presented ≠ key := by
        rintro rfl
        exact h hpresented
      rw [hpresented] at hany
      rw [if_pos (hany.mp rfl)]
      simp [hne]

namespace Service

variable {s : Service} {moment : Moment} {r : Request}

/-! ### Requests that are let in -/

/-- The request asks for the route and may come in: there is no key, or it presents the key. -/
structure Admits (s : Service) (r : Request) (route : Route) : Prop where
  asks : r.Asks route
  key : s.settings.apiKey = [] ∨ r.fields.Presents s.settings.apiKey

theorem Admits.refusal?_eq {route : Route} (h : s.Admits r route) : s.refusal? r route = none := by
  have hdenial : denial? s.settings.apiKey r.fields = none := by
    rcases h.key with hkey | hkey
    · rw [hkey]
      rfl
    · exact denial?_of_presents hkey
  rw [refusal?, hdenial, ite_self]

/-- What the route makes of a request that is let in is what the service answers. -/
theorem Admits.serve_eq {route : Route} (h : s.Admits r route) (moment : Moment) :
    (s.serve moment r).1 = (withoutLog (s.handle moment r route)).1 ∧
      (s.serve moment r).2.1 = (withoutLog (s.handle moment r route)).2.response := by
  unfold serve serveTo
  rw [answer_of_asks h.asks, h.refusal?_eq]
  exact ⟨rfl, rfl⟩

/-! ### Requests that are denied -/

/-- A request that is handled is not answered as one that is denied. -/
theorem status_handle_ne (s : Service) (moment : Moment) (r : Request) (route : Route) :
    (s.handle moment r route).2.1.response.status ≠ 401 := by
  cases route with
  | health | stats =>
      show (200 : Int) ≠ 401
      decide
  | translate =>
      show (withoutLog (s.convertUpload moment r)).2.response.status ≠ 401
      cases hformat : uploadFormat r.target with
      | error e =>
          rw [convertUpload_of_unsupported hformat]
          show (400 : Int) ≠ 401
          decide
      | ok format =>
          rw [convertUpload_eq_settle hformat rfl, status_settle]
          split
          · decide
          · split <;> decide

theorem status_answer_ne (hopen : ∀ route, s.refusal? r route = none) :
    (s.answer moment r).2.1.response.status ≠ 401 := by
  have hfixed : (404 : Int) ≠ 401 ∧ (405 : Int) ≠ 401 := by decide
  unfold answer
  split
  · exact hfixed.2
  · split
    · exact hfixed.1
    · next route _ =>
      unfold enter
      split
      · exact hfixed.2
      · rw [show (if route.isProtected then _ else none) = none from hopen route]
        exact status_handle_ne s moment r route

/-- The request is for a protected route of a service with a key, and does not present that key. -/
structure Denies (s : Service) (r : Request) : Prop where
  asks : ∃ route : Route, route.isProtected ∧ r.Asks route
  key : s.settings.apiKey ≠ []
  presents : ¬ r.fields.Presents s.settings.apiKey

theorem Denies.serve_eq (h : s.Denies r) (moment : Moment) :
    (s.serve moment r).1 = s ∧
      (s.serve moment r).2.1 = (errorReply 401
        (if r.fields.PresentsAny then Denial.invalidKey else .missingKey).text).response := by
  obtain ⟨route, hprotected, hasks⟩ := h.asks
  have hrefusal : s.refusal? r route =
      some (if r.fields.PresentsAny then .invalidKey else .missingKey) := by
    rw [refusal?, if_pos hprotected, denial?_of_not_presents h.key h.presents]
  unfold serve serveTo
  rw [answer_of_asks hasks, hrefusal]
  exact ⟨rfl, rfl⟩

/-- **Only the key opens a protected route, and a denial gives nothing away.** A request to a
protected route of a service with a key is handled exactly if it presents that key. Else it is
answered with 401 and changes nothing, and any two requests that are denied, by whatever services
and whatever else is in them, get the same response if both present a key or both present none. A
service without a key denies nobody. -/
theorem serve_protected :
    (∀ (s : Service) (moment : Moment) (r : Request) (route : Route), route.isProtected →
      r.Asks route → s.settings.apiKey ≠ [] →
      (s.answer moment r = s.handle moment r route ↔ r.fields.Presents s.settings.apiKey)) ∧
    (∀ (s : Service) (moment : Moment) (r : Request), s.Denies r →
      (s.serve moment r).1 = s ∧ (s.serve moment r).2.1.status = 401 ∧
        ∀ (s' : Service) (moment' : Moment) (r' : Request), s'.Denies r' →
          (r'.fields.PresentsAny ↔ r.fields.PresentsAny) →
          (s'.serve moment' r').2.1 = (s.serve moment r).2.1) ∧
    ∀ (s : Service) (moment : Moment) (r : Request), s.settings.apiKey = [] →
      (s.serve moment r).2.1.status ≠ 401 := by
  refine ⟨?_, ?_, ?_⟩
  · intro s moment r route hprotected hasks hkey
    constructor
    · intro hhandled
      by_contra hpresents
      have hdenied := (Denies.serve_eq ⟨⟨route, hprotected, hasks⟩, hkey, hpresents⟩ moment).2
      apply status_handle_ne s moment r route
      rw [← hhandled]
      exact congrArg Response.status hdenied
    · intro hpresents
      have hopen : s.refusal? r route = none := by
        rw [refusal?, if_pos hprotected, denial?_of_presents hpresents]
      rw [answer_of_asks hasks, hopen]
  · intro s moment r hdenied
    obtain ⟨hsame, hresponse⟩ := hdenied.serve_eq moment
    refine ⟨hsame, congrArg Response.status hresponse, ?_⟩
    intro s' moment' r' hdenied' hany
    rw [hresponse, (hdenied'.serve_eq moment').2]
    simp only [hany]
  · intro s moment r hkey
    apply status_answer_ne
    intro route
    unfold refusal? denial?
    rw [hkey]
    exact ite_self none

/-- A wrong token hides the right key in the other field, and looks like no key but a wrong one. -/
theorem serve_protected_shadowed :
    let s : Service := { settings := { apiKey := utf8 "k" } }
    let stats (fields : Fields) : Request :=
      { method := utf8 "GET"
        target := { sentPath := utf8 "/api/stats", path := utf8 "/api/stats" }
        fields }
    let right := stats [(utf8 "authorization", utf8 "Bearer k"), (utf8 "X-API-Key", utf8 "z")]
    let shadowed := stats [(utf8 "Authorization", utf8 "Bearer "), (utf8 "X-API-Key", utf8 "k")]
    let wrong : Request :=
      { method := utf8 "POST"
        target :=
          { sentPath := utf8 "/api/translate", path := utf8 "/api/translate", query := utf8 "a=b" }
        fields := [(utf8 "x-api-key", utf8 "K")]
        body := ⟨utf8 "x", none⟩ }
    s.answer {} right = s.handle {} right .stats ∧ (s.serve {} shadowed).1 = s ∧
      (s.serve {} shadowed).2.1.status = 401 ∧
      (s.serve {} wrong).2.1 = (s.serve {} shadowed).2.1 ∧
      (({ s with settings := {} } : Service).serve {} shadowed).2.1.status ≠ 401 := by
  intro s stats right shadowed wrong
  obtain ⟨hexact, hdenied, hopen⟩ := serve_protected
  have hshadowed : s.Denies shadowed :=
    ⟨⟨.stats, rfl, ⟨by decide, by decide⟩⟩, by decide, by decide⟩
  have hwrong : s.Denies wrong :=
    ⟨⟨.translate, rfl, ⟨by decide, by decide⟩⟩, by decide, by decide⟩
  obtain ⟨hsame, hstatus, hlike⟩ := hdenied s {} shadowed hshadowed
  refine ⟨?_, hsame, hstatus, hlike s {} wrong hwrong (by decide), hopen _ _ _ rfl⟩
  exact (hexact s {} right .stats rfl ⟨by decide, by decide⟩ (by decide)).mpr (by decide)

end Service

end Literate.Http
