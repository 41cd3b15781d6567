import Literate.Proofs.Http.Service
import Literate.Proofs.Noweb.Framing

/-!
# The file name of an upload

An upload may come with a file name. It is made a base name, it chooses the format unless the upload
asks for one, and it stands on the first line of the tagged stream, where it is ignored:

    ?filename=dir/a.nw   ──sanitize──▶   a.nw   ──markup──▶   @file a.nw   ──session──▶   nothing

This holds of a name that is one line. A line feed survives `sanitize`, and what follows it is read
as further lines of the stream (`serve_ne_of_lf`). Without one, two uploads of noweb source that
differ only in their names are answered alike (`serve_fileName`).
-/

namespace Literate.Http

open Bytes

/-- The same request with another query. -/
def Request.withQuery (r : Request) (query : Bytes) : Request :=
  { r with target := { r.target with query } }

@[simp]
theorem Request.body_withQuery (r : Request) (query : Bytes) :
    (r.withQuery query).body = r.body := rfl

namespace Service

/-- **The file name of an upload does not influence the answer.** Two requests that differ only in
their queries, that both have noweb source converted, and whose file names have no line feed left in
them, take the service to the same state and get the same response. -/
theorem serve_fileName (s : Service) (moment : Moment) (request : Request) (query query' : Bytes)
    (hnoweb : uploadFormat (request.withQuery query).target = .ok .noweb)
    (hnoweb' : uploadFormat (request.withQuery query').target = .ok .noweb)
    (hname : lf ∉ Path.sanitize ((request.withQuery query).target.parameter (utf8 "filename")))
    (hname' : lf ∉ Path.sanitize ((request.withQuery query').target.parameter (utf8 "filename"))) :
    (s.serve moment (request.withQuery query)).1 =
        (s.serve moment (request.withQuery query')).1 ∧
      (s.serve moment (request.withQuery query)).2.1 =
        (s.serve moment (request.withQuery query')).2.1 := by
  obtain ⟨out, failure, hconvert⟩ :=
    Noweb.exists_convert_noweb (request.body.limited s.settings.maxUploadBytes.toNat)
  have hupload (q : Bytes) (hq : uploadFormat (request.withQuery q).target = .ok .noweb)
      (hlf : lf ∉ Path.sanitize ((request.withQuery q).target.parameter (utf8 "filename"))) :
      withoutLog (s.convertUpload moment (request.withQuery q)) = s.settle moment out [] failure := by
    obtain ⟨hout, hremarks, hfailure⟩ := hconvert _ hlf
    rw [convertUpload_eq_settle hq rfl, Request.body_withQuery, hout, Conversion.diagnostics,
      hremarks, hfailure]
    rfl
  refine serve_congr rfl rfl rfl fun route => ?_
  cases route with
  | health => rfl
  | translate => exact (hupload query hnoweb hname).trans (hupload query' hnoweb' hname').symm
  | stats => rfl

/-- A name in a directory of its own, and one that is not as clean and comes with a format. -/
theorem serve_fileName_upload :
    let s : Service := { settings := { maxUploadBytes := 100 } }
    let request : Request :=
      { method := utf8 "POST"
        target := { sentPath := utf8 "/api/translate", path := utf8 "/api/translate" }
        body := ⟨utf8 "see [[q]]\r\n<<a b>>=\nx\r<<y>>\n", none⟩ }
    let query := utf8 "filename=dir%2Fa.nw"
    let query' := utf8 "filename=..%5Cb%0D&format=NoWeb"
    uploadFormat (request.withQuery query).target = .ok .noweb ∧
      uploadFormat (request.withQuery query').target = .ok .noweb ∧
      lf ∉ Path.sanitize ((request.withQuery query).target.parameter (utf8 "filename")) ∧
      lf ∉ Path.sanitize ((request.withQuery query').target.parameter (utf8 "filename")) ∧
      (s.serve {} (request.withQuery query)).1 = (s.serve {} (request.withQuery query')).1 ∧
      (s.serve {} (request.withQuery query)).2.1 = (s.serve {} (request.withQuery query')).2.1 :=
  ⟨by decide +kernel, by decide +kernel, by decide +kernel, by decide +kernel,
    serve_fileName _ _ _ _ _ (by decide +kernel) (by decide +kernel) (by decide +kernel)
      (by decide +kernel)⟩

/-- A line feed in a file name smuggles a directive into the stream, and the text it carries into the
output. -/
theorem serve_ne_of_lf :
    let s : Service := { settings := { maxUploadBytes := 100 } }
    let request : Request :=
      { method := utf8 "POST"
        target := { sentPath := utf8 "/api/translate", path := utf8 "/api/translate" }
        body := ⟨utf8 "x", none⟩ }
    let query := utf8 "filename=a.nw"
    let query' := utf8 "filename=a%0A%40text%20b.nw"
    uploadFormat (request.withQuery query).target = .ok .noweb ∧
      uploadFormat (request.withQuery query').target = .ok .noweb ∧
      (s.serve {} (request.withQuery query)).2.1 ≠ (s.serve {} (request.withQuery query')).2.1 := by
  decide +kernel

end Service

end Literate.Http
