import Literate.Proofs.Format
import Literate.Proofs.Http.Translation

/-!
# Which uploads are taken

    unknown format? ──▶ 400     too long? ──▶ 413     breaks off? ──▶ 400     else ──▶ 200

An upload is objected to for one of three reasons, and the first that applies is the answer
(`Service.objection?`). Nothing else about an upload can fail it: not what is in it, nor which of
the two formats it is in, though they meet a failure of the body at different stages
(`Service.serve_upload`).
-/

namespace Literate

/-- Under a limit, an input ends early if there is more to come, and else as it would have. -/
theorem Intake.failure_limited (i : Intake) (limit : Nat) :
    (i.limited limit).failure =
      if limit < i.bytes.length then some .bodyTooLarge else i.failure := by
  unfold limited
  by_cases hlimit : limit < i.bytes.length
  · rw [if_neg (by omega), if_pos hlimit]
  · rw [if_pos (by omega), if_neg hlimit]

namespace Http

open Bytes Text Json

/-- A client reads the message from an error, and finds nothing else in it. -/
theorem read?_errorReply (status : Int) (message : Bytes) :
    Json.read? (errorReply status message).response.body =
      some (.object [(utf8 "error", .string (repair message))]) := by
  have hproper : (Json.object [(utf8 "error", .string message)]).Proper := by
    refine .object ?_
    rw [List.forall_mem_singleton]
    exact .string message
  show Json.read? (jsonBody _ ++ []) = _
  rw [List.append_nil, jsonBody, read?_render hproper, repaired_object, List.map_cons, List.map_nil,
    repairedField_utf8, repaired_string]

namespace Service

variable {s : Service} {moment : Moment} {r : Request}

/-! ### Objections -/

/-- Why an upload is not converted, and the status that goes with it. -/
structure Objection where
  status : Int
  message : Bytes
deriving DecidableEq, Repr

/-- The upload asks for a format that nobody knows. -/
def AsksUnknown (target : Target) : Prop :=
  target.parameter (utf8 "format") ≠ [] ∧
    lower (target.parameter (utf8 "format")) ∉ Format.names

instance (target : Target) : Decidable (AsksUnknown target) := inferInstanceAs (Decidable (_ ∧ _))

/-- What there is to object to an upload: its format, its length, or that it breaks off, in this
order. What counts for the length is what the body delivers before it breaks off, and a limit below
zero is a limit of zero. -/
def objection? (s : Service) (r : Request) : Option Objection :=
  if AsksUnknown r.target then
    some ⟨400, utf8 "unsupported input format: " ++ r.target.parameter (utf8 "format")⟩
  else if max s.settings.maxUploadBytes 0 < r.body.bytes.length then
    some ⟨413, utf8 "input exceeds max size (" ++ decimalInt s.settings.maxUploadBytes ++
      utf8 " bytes)"⟩
  else if r.body.failure ≠ none then some ⟨400, utf8 "failed to read input"⟩
  else none

theorem uploadFormat_of_asksUnknown {target : Target} (h : AsksUnknown target) :
    uploadFormat target = .error ⟨target.parameter (utf8 "format")⟩ := by
  unfold uploadFormat
  simp only [List.isEmpty_iff, h.1, if_false]
  exact Format.ofName_of_not_mem_names h.1 h.2

theorem exists_uploadFormat {target : Target} (h : ¬ AsksUnknown target) :
    ∃ format, uploadFormat target = .ok format := by
  unfold uploadFormat
  by_cases hasked : target.parameter (utf8 "format") = []
  · simp only [List.isEmpty_iff, hasked, if_true]
    exact ⟨_, rfl⟩
  · simp only [List.isEmpty_iff, hasked, if_false]
    exact Format.ofName_of_mem_names (not_not.mp fun hunknown => h ⟨hasked, hunknown⟩)

/-- In a format there is, an upload comes to what the body under the limit comes to. -/
theorem exists_settle (s : Service) (moment : Moment) {format : Format}
    (hformat : uploadFormat r.target = .ok format) :
    ∃ output diagnostics, withoutLog (s.convertUpload moment r) =
      s.settle moment output diagnostics
        (if max s.settings.maxUploadBytes 0 < r.body.bytes.length then some .bodyTooLarge
          else r.body.failure) := by
  have hlimit : max s.settings.maxUploadBytes 0 < r.body.bytes.length ↔
      s.settings.maxUploadBytes.toNat < r.body.bytes.length := by omega
  have hsettle := @convertUpload_eq_settle s moment r format hformat _ rfl
  rw [Format.failure_convert, Intake.failure_limited] at hsettle
  simp only [hlimit]
  exact ⟨_, _, hsettle⟩

/-- **An upload comes to the objection to it, if there is one, and else to a conversion.** -/
theorem convertUpload_cases (s : Service) (moment : Moment)
    (hbody : r.body.failure ≠ some .bodyTooLarge) :
    (∃ o, s.objection? r = some o ∧
      withoutLog (s.convertUpload moment r) = (s, errorReply o.status o.message)) ∨
    (s.objection? r = none ∧ ∃ output diagnostics,
      withoutLog (s.convertUpload moment r) = s.settle moment output diagnostics none) := by
  by_cases hunknown : AsksUnknown r.target
  · refine .inl ⟨_, if_pos hunknown, ?_⟩
    rw [convertUpload_of_unsupported (uploadFormat_of_asksUnknown hunknown)]
    rfl
  obtain ⟨format, hformat⟩ := exists_uploadFormat hunknown
  obtain ⟨output, diagnostics, hsettle⟩ := exists_settle s moment hformat
  rw [hsettle, objection?, if_neg hunknown]
  by_cases hlong : max s.settings.maxUploadBytes 0 < r.body.bytes.length
  · rw [if_pos hlong, if_pos hlong]
    exact .inl ⟨_, rfl, rfl⟩
  rw [if_neg hlong, if_neg hlong]
  cases hfailure : r.body.failure with
  | none => exact .inr ⟨rfl, output, diagnostics, rfl⟩
  | some why =>
      have hwhy : why ≠ .bodyTooLarge := by
        rintro rfl
        exact hbody hfailure
      rw [settle, if_neg hwhy]
      exact .inl ⟨_, rfl, rfl⟩

/-- **An upload that is let in is converted unless there is an objection to it.** If there is none,
the answer is 200 and a client reads a translation from it. Otherwise the answer has the status of
the objection, and all that a client reads from it is an object with the message, which neither the
text nor the diagnostics have a part in; and the service is left as it was, its statistics included.
That the upload is too long is for the limit to say, not for the body. -/
theorem serve_upload (s : Service) (moment : Moment) (r : Request) (hadmits : s.Admits r .translate)
    (hbody : r.body.failure ≠ some .bodyTooLarge) :
    let response := (s.serve moment r).2.1
    (s.objection? r = none →
      response.status = 200 ∧ ∃ t, Translation.read? response.body = some t) ∧
    ∀ o, s.objection? r = some o →
      response.status = o.status ∧
        Json.read? response.body =
          some (.object [(utf8 "error", .string (repair o.message))]) ∧
        (s.serve moment r).1 = s := by
  intro response
  obtain ⟨hservice, hresponse⟩ : (s.serve moment r).1 = (withoutLog (s.convertUpload moment r)).1 ∧
      response = (withoutLog (s.convertUpload moment r)).2.response := hadmits.serve_eq moment
  rcases convertUpload_cases s moment hbody with
    ⟨o, hobjection, hreply⟩ | ⟨hnone, output, diagnostics, hreply⟩
  · rw [hobjection, hresponse, hservice, hreply]
    refine ⟨nofun, ?_⟩
    rintro _ ⟨⟩
    exact ⟨rfl, read?_errorReply o.status o.message, rfl⟩
  · rw [hnone, hresponse, hreply]
    refine ⟨fun _ => ⟨rfl, _, Translation.read?_conversionReply output diagnostics⟩, nofun⟩

/-- With room for three bytes: a body that breaks off right there, one that is a byte longer and
breaks off too, and the same in a format that nobody knows. An empty body passes any limit. -/
theorem serve_upload_at_limit :
    let s (maxUploadBytes : Int) : Service := { settings := { maxUploadBytes } }
    let upload (query : Bytes) (body : Intake) : Request :=
      { method := utf8 "POST"
        target := { sentPath := utf8 "/api/translate", path := utf8 "/api/translate", query }
        body }
    let atLimit := upload (utf8 "format=NoWeb") (Intake.breakingAfter 3 (utf8 "<<a>>="))
    let beyond := upload (utf8 "filename=a.nw") (Intake.breakingAfter 4 (utf8 "<<a>>="))
    let unknown := upload (utf8 "format=pdf") (Intake.breakingAfter 4 (utf8 "<<a>>="))
    let empty := upload (utf8 "format=tagged") ⟨[], none⟩
    ((s 3).Admits beyond .translate ∧ beyond.body.failure ≠ some .bodyTooLarge ∧
      beyond.body.failure ≠ none) ∧
    ((s 3).serve {} atLimit).2.1.status = 400 ∧
    (((s 3).serve {} beyond).2.1.status = 413 ∧
      Json.read? ((s 3).serve {} beyond).2.1.body =
        some (.object [(utf8 "error", .string (utf8 "input exceeds max size (3 bytes)"))]) ∧
      ((s 3).serve {} beyond).1 = s 3) ∧
    ((s 3).serve {} unknown).2.1.status = 400 ∧
    ((s (-1)).serve {} empty).2.1.status = 200 := by
  intro s upload atLimit beyond unknown empty
  have hadmits (n : Int) (query : Bytes) (body : Intake) :
      (s n).Admits (upload query body) .translate := ⟨⟨rfl, rfl⟩, .inl rfl⟩
  have hlimit := (serve_upload (s 3) {} atLimit (hadmits ..) (by decide)).2
    ⟨400, utf8 "failed to read input"⟩ (by decide +kernel)
  have hbeyond := (serve_upload (s 3) {} beyond (hadmits ..) (by decide)).2
    ⟨413, utf8 "input exceeds max size (3 bytes)"⟩ (by decide +kernel)
  have hunknown := (serve_upload (s 3) {} unknown (hadmits ..) (by decide)).2
    ⟨400, utf8 "unsupported input format: pdf"⟩ (by decide +kernel)
  have hempty := (serve_upload (s (-1)) {} empty (hadmits ..) (by decide)).1 (by decide +kernel)
  rw [repair_of_isValid (isValid_utf8 _)] at hbeyond
  exact ⟨⟨hadmits .., by decide, by decide⟩, hlimit.1, hbeyond, hunknown.1, hempty.1⟩

end Service

end Http

end Literate
