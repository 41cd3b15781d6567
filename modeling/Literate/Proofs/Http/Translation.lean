import Literate.Proofs.Http.Access
import Literate.Proofs.Json.Number
import Literate.Proofs.Noweb.Utf8
import Literate.Proofs.Path.Safe

/-!
# What a client reads from an answer

    upload ──convert──▶ text, diagnostics ──conversionReply──▶ body ──Translation.read?──▶ the same

The answer to an upload is a JSON text. A client that reads it by the rules of the format finds the
text and the diagnostics of the conversion in it, with U+FFFD for what is not UTF-8
(`Translation.read?_conversionReply`). An upload of UTF-8 is converted to UTF-8, so then nothing is
replaced (`serve_translation`).
-/

namespace Literate.Http

open Bytes Text Json

/-! ### Bodies -/

theorem body_write (fields : Fields) (bytes : Bytes) :
    (Reply.response { fields, actions := [.write bytes] }).body = bytes := List.append_nil bytes

theorem repairedField_utf8 (name : String) (v : Json) :
    repairedField (utf8 name, v) = (utf8 name, v.repaired) := by
  rw [repairedField, repair_of_isValid (isValid_utf8 name)]

theorem repaired_string (s : Bytes) : (Json.string s).repaired = .string (repair s) := by
  rw [repaired]

theorem repaired_int (n : Int) : (Json.int n).repaired = .int n := by
  rw [Json.int, repaired]

/-! ### Translations -/

/-- What a client is told about an upload: the text and, for each diagnostic, its line and
message. -/
structure Translation where
  output : Bytes
  diagnostics : List (Int × Bytes)
deriving DecidableEq, Repr

/-- The line and message in a JSON object. -/
def readDiagnostic? (v : Json) : Option (Int × Bytes) := do
  let line ← (← v.field? (utf8 "line")).toInt?
  let message ← (← v.field? (utf8 "message")).toString?
  some (line, message)

/-- The translation that a body holds. -/
def Translation.read? (body : Bytes) : Option Translation := do
  let v ← Json.read? body
  let output ← (← v.field? (utf8 "output")).toString?
  let items ← (← v.field? (utf8 "diagnostics")).toArray?
  let diagnostics ← items.mapM readDiagnostic?
  some { output, diagnostics }

theorem proper_diagnosticJson (d : Diagnostic) : (diagnosticJson d).Proper := by
  refine .object ?_
  simp only [List.forall_mem_cons]
  exact ⟨.int d.line, .string d.message, nofun⟩

theorem readDiagnostic?_object (line : Int) (message : Bytes) :
    readDiagnostic? (.object [(utf8 "line", .int line), (utf8 "message", .string message)]) =
      some (line, message) := by
  show (toInt? (.int line)).bind (fun line => some (line, message)) = some (line, message)
  rw [toInt?_int]
  rfl

theorem readDiagnostic?_repaired (d : Diagnostic) :
    readDiagnostic? (diagnosticJson d).repaired = some (d.line, repair d.message) := by
  rw [diagnosticJson, repaired_object, List.map_cons, List.map_cons, List.map_nil,
    repairedField_utf8, repairedField_utf8, repaired_int, repaired_string, readDiagnostic?_object]

theorem mapM_readDiagnostic? (ds : List Diagnostic) :
    ((ds.map diagnosticJson).map repaired).mapM readDiagnostic? =
      some (ds.map fun d => (d.line, repair d.message)) := by
  induction ds with
  | nil => rfl
  | cons d ds ih =>
      rw [List.map_cons, List.map_cons, List.mapM_cons, readDiagnostic?_repaired, ih]
      rfl

/-- **A client reads what was converted**, with U+FFFD for what is not UTF-8. -/
theorem Translation.read?_conversionReply (output : Bytes) (ds : List Diagnostic) :
    Translation.read? (conversionReply output ds).response.body =
      some ⟨repair output, ds.map fun d => (d.line, repair d.message)⟩ := by
  have hproper : (Json.object [(utf8 "output", .string output),
      (utf8 "diagnostics", .array (ds.map diagnosticJson))]).Proper := by
    refine .object ?_
    simp only [List.forall_mem_cons]
    refine ⟨.string output, .array fun v hv => ?_, nofun⟩
    obtain ⟨d, -, rfl⟩ := List.mem_map.mp hv
    exact proper_diagnosticJson d
  rw [conversionReply, body_write, jsonBody, Translation.read?, read?_render hproper,
    repaired_object, List.map_cons, List.map_cons, List.map_nil, repairedField_utf8,
    repairedField_utf8, repaired_string, repaired_array]
  show (((ds.map diagnosticJson).map repaired).mapM readDiagnostic?).bind
      (fun diagnostics => some (Translation.mk (repair output) diagnostics)) = _
  rw [mapM_readDiagnostic?]
  rfl

/-! ### Uploads of UTF-8 -/

namespace Service

variable {s : Service} {moment : Moment} {r : Request}

/-- The request is an upload that the service takes: it may come in, and it is not too long. -/
structure Takes (s : Service) (r : Request) : Prop where
  asks : r.Asks .translate
  key : s.settings.apiKey = [] ∨ r.fields.Presents s.settings.apiKey
  size : (r.body.bytes.length : Int) ≤ s.settings.maxUploadBytes
  failure : r.body.failure = none

theorem Takes.response_eq (h : s.Takes r) (moment : Moment) :
    (s.serve moment r).2.1 = (withoutLog (s.convertUpload moment r)).2.response :=
  (Admits.serve_eq ⟨h.asks, h.key⟩ moment).2

theorem Takes.limited_eq (h : s.Takes r) :
    r.body.limited s.settings.maxUploadBytes.toNat = r.body := by
  have hsize := h.size
  exact if_pos (by omega)

/-- **The service agrees with the conversion.** An upload of UTF-8 that the service takes, in a
format there is and with a file name of one line, is answered with 200, and what a client reads from
the body are the text and the lines and messages of the diagnostics, in order, that converting the
upload gives. -/
theorem serve_translation (s : Service) (moment : Moment) (r : Request) (format : Format)
    (htakes : s.Takes r) (hformat : uploadFormat r.target = .ok format)
    (hbody : isValid r.body.bytes) (hname : lf ∉ r.target.parameter (utf8 "filename")) :
    let c := format.convert (Path.sanitize (r.target.parameter (utf8 "filename"))) r.body ({} : Sink)
    let response := (s.serve moment r).2.1
    c.error = none ∧ response.status = 200 ∧
      Translation.read? response.body =
        some ⟨c.out.contents, c.diagnostics.map fun d => (d.line, d.message)⟩ := by
  intro c response
  have hutf8 : c.IsUtf8 := by
    have hwhole : r.body = ⟨r.body.bytes, none⟩ := by rw [← htakes.failure]
    show (format.convert _ r.body {}).IsUtf8
    rw [hwhole]
    exact format.convert_isUtf8 (Path.lf_not_mem_sanitize hname) hbody
  have hreply : response = (conversionReply c.out.contents c.diagnostics).response := by
    show (s.serve moment r).2.1 = _
    rw [htakes.response_eq, convertUpload_eq_settle hformat (c := c) (by rw [htakes.limited_eq]),
      hutf8.error]
    rfl
  have hmessages : c.diagnostics.map (fun d => (d.line, repair d.message)) =
      c.diagnostics.map fun d => (d.line, d.message) := by
    apply List.map_congr_left
    intro d hd
    rw [repair_of_isValid (hutf8.diagnostics d hd).message]
  refine ⟨hutf8.error, ?_, ?_⟩
  · rw [hreply, status_conversionReply]
  · rw [hreply, Translation.read?_conversionReply, repair_of_isValid hutf8.contents, hmessages]

/-- Markup, quotes, a line separator and text beyond ASCII, which the body has to escape or keep,
and a line that is no directive. -/
theorem serve_translation_escapes :
    let s : Service := { settings := { apiKey := utf8 "k", maxUploadBytes := 100 } }
    let r : Request :=
      { method := utf8 "POST"
        target :=
          { sentPath := utf8 "/api/translate", path := utf8 "/api/translate"
            query := utf8 "filename=%C3%A4.txt&format=Tagged" }
        fields := [(utf8 "X-API-Key", utf8 "k")]
        body := ⟨utf8 "@text <\"é\\&\u2028𝄞\n@end docs\nno directive\n", none⟩ }
    (s.Takes r ∧ uploadFormat r.target = .ok .tagged ∧ isValid r.body.bytes ∧
      lf ∉ r.target.parameter (utf8 "filename")) ∧
    (s.serve {} r).2.1.status = 200 ∧
      Translation.read? (s.serve {} r).2.1.body =
        some ⟨utf8 "<\"é\\&\u2028𝄞\n", [(2, utf8 "Mismatched endchunk (docs, expected none)"),
          (3, utf8 "Line too short or does not start with @")]⟩ := by
  intro s r
  have htakes : s.Takes r := ⟨⟨by decide, by decide⟩, .inr (by decide), by decide, rfl⟩
  have hformat : uploadFormat r.target = .ok .tagged := by decide +kernel
  have hbody : isValid r.body.bytes := by decide +kernel
  have hname : lf ∉ r.target.parameter (utf8 "filename") := by decide +kernel
  obtain ⟨-, hstatus, hread⟩ := serve_translation s {} r .tagged htakes hformat hbody hname
  refine ⟨⟨htakes, hformat, hbody, hname⟩, hstatus, ?_⟩
  rw [hread]
  decide +kernel

end Service

end Literate.Http
