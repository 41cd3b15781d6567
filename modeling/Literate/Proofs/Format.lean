import Literate.Proofs.Limited
import Literate.Proofs.Noweb.Framing

/-!
# Converting to any writer

What a conversion writes is settled by its input alone. A writer that takes everything ends up with
it, and any other writer is offered the same text up to where it fails: as long as it does not, the
remarks and the error are the same too (`Writer.Ledger.convert`). The one error that a conversion to
a sink without a limit can have is that of its input (`Format.failure_convert`).

An input that breaks off is converted as far as it goes if it is a tagged stream, and not at all if
it is noweb source (`Format.convert_of_broken`).
-/

namespace Literate

open Bytes

theorem Run.remarks_feedAll {σ : Type} [Writer σ] {r : Run σ} {lines : List Bytes}
    (h : (r.feedAll lines).failure = none) :
    (r.feedAll lines).remarks = (r.session.remarks lines).reverse ++ r.remarks := by
  obtain ⟨-, hfailure, hall⟩ := r.feedAll_eq lines
  rw [hall (hfailure ▸ h), Run.remarks_foldl_feed]

namespace Writer.Ledger

variable {σ : Type} [Writer σ] {Q : Bytes → σ → Option Failure → Prop} {text : Bytes} {out : σ}

/-- A run over an input offers the output of all of its lines. If no write fails, it takes in all of
them and ends as its input does. -/
theorem run (hQ : Ledger Q) (h : Q text out none) (input : Intake) :
    let o := Session.run out input
    Q (text ++ Session.output {} (lines input.bytes)) o.run.out o.run.failure ∧
      (o.run.failure = none → o.run.remarks.reverse = Session.remarks {} (lines input.bytes) ∧
        o.error = input.failure.map .read) ∧
      (o.run.failure ≠ none → o.error.isSome) := by
  intro o
  have hrun : o.run = Run.feedAll { out } (lines input.bytes) :=
    congrArg Outcome.run (Session.run_eq out input)
  have herror : o.error = o.run.error? input.failure := rfl
  refine ⟨?_, ?_, ?_⟩
  · rw [hrun]
    exact @feedAll _ _ _ _ { out } hQ h (lines input.bytes)
  · intro hnone
    have hremarks := @Run.remarks_feedAll _ _ { out } (lines input.bytes) (hrun ▸ hnone)
    refine ⟨?_, ?_⟩
    · rw [hrun, hremarks, List.append_nil, List.reverse_reverse]
    · rw [herror, Run.error?, hnone]
  · intro hsome
    obtain ⟨why, hwhy⟩ := Option.ne_none_iff_exists'.mp hsome
    rw [herror, Run.error?, hwhy]
    rfl

/-- **Converting offers any writer what a sink without a limit ends up with.** As long as the writer
does not fail, the conversion also ends alike. -/
theorem convert (hQ : Ledger Q) (h : Q text out none) (format : Format) (name : Bytes)
    (input : Intake) :
    let c := format.convert name input out
    let free := format.convert name input ({} : Sink)
    ∃ failure, Q (text ++ free.out.contents) c.out failure ∧
      (failure = none → c.error = free.error ∧ c.remarks = free.remarks) ∧
      (failure ≠ none → c.error.isSome) := by
  intro c free
  unfold c free Format.convert
  cases format.prepare name input with
  | error e =>
      refine ⟨none, ?_, fun _ => ⟨rfl, rfl⟩, fun hne => absurd rfl hne⟩
      rw [show ({} : Sink).contents = [] from rfl, List.append_nil]
      exact h
  | ok stream =>
      obtain ⟨hoffered, hsame, hfailed⟩ := hQ.run h stream
      -- the same run with a sink that takes everything
      obtain ⟨hholds, hfree, -⟩ := Sink.Holds.ledger.run Sink.Holds.fresh stream
      obtain ⟨hremarks, herror⟩ := hfree hholds.failure
      rw [List.nil_append] at hholds
      refine ⟨(Session.run out stream).run.failure, ?_, ?_, ?_⟩
      · show Q (text ++ (Session.run ({} : Sink) stream).run.out.contents) _ _
        rw [hholds.contents]
        exact hoffered
      · intro hnone
        obtain ⟨hremarks', herror'⟩ := hsame hnone
        refine ⟨?_, hremarks'.trans hremarks.symm⟩
        show (Session.run out stream).error.map _ = (Session.run ({} : Sink) stream).error.map _
        rw [herror, herror']
      · intro hsome
        show ((Session.run out stream).error.map _).isSome
        rw [Option.isSome_map]
        exact hfailed hsome

end Writer.Ledger

/-- **Without a limit on the output, a conversion fails exactly as its input does.** The failure
behind the error is that of the input, whichever of the two stages meets it. -/
theorem Format.failure_convert (format : Format) (name : Bytes) (input : Intake) :
    (format.convert name input ({} : Sink)).error.map ConversionError.failure = input.failure := by
  obtain ⟨source, failure⟩ := input
  cases format with
  | tagged =>
      obtain ⟨hholds, hfree, -⟩ := Sink.Holds.ledger.run Sink.Holds.fresh ⟨source, failure⟩
      show ((Session.run ({} : Sink) ⟨source, failure⟩).error.map _).map _ = _
      rw [(hfree hholds.failure).2, Option.map_map, Option.map_map]
      exact Option.map_id_apply
  | noweb =>
      cases failure with
      | none =>
          rw [(Noweb.convert_noweb name source).1]
          rfl
      | some why =>
          rw [Noweb.convert_noweb_of_failure]
          rfl

theorem Format.isSome_error_convert (format : Format) (name : Bytes) (input : Intake) :
    (format.convert name input ({} : Sink)).error.isSome = input.failure.isSome := by
  rw [← format.failure_convert name input, Option.isSome_map]

/-! ### Names of formats -/

theorem Text.lower_ne_nil {s : Bytes} (h : s ≠ []) : Text.lower s ≠ [] := by
  obtain ⟨b, rest, rfl⟩ := List.exists_cons_of_ne_nil h
  intro hnil
  rw [Text.lower, Text.decode_cons, List.flatMap_cons, List.append_eq_nil_iff] at hnil
  exact String.utf8EncodeChar_ne_nil hnil.1

namespace Format

/-- The names that formats go by, in lower case. -/
def names : List Bytes := [utf8 "tagged", utf8 "nw", utf8 "noweb"]

theorem ofName_of_mem_names {name : Bytes} (h : Text.lower name ∈ names) :
    ∃ format, ofName name = .ok format := by
  simp only [names, List.mem_cons, List.not_mem_nil, or_false] at h
  by_cases htagged : Text.lower name = [] ∨ Text.lower name = utf8 "tagged"
  · exact ⟨.tagged, if_pos htagged⟩
  · have hnoweb := h.resolve_left fun hkey => htagged (.inr hkey)
    exact ⟨.noweb, (if_neg htagged).trans (if_pos hnoweb)⟩

/-- The lower-case form of a name that is not empty is not empty either, so nothing but the known
names passes. -/
theorem ofName_of_not_mem_names {name : Bytes} (hne : name ≠ []) (h : Text.lower name ∉ names) :
    ofName name = .error ⟨name⟩ := by
  simp only [names, List.mem_cons, List.not_mem_nil, or_false, not_or] at h
  obtain ⟨htagged, hnw, hnoweb⟩ := h
  unfold ofName
  simp only [Text.lower_ne_nil hne, htagged, hnw, hnoweb, or_self, if_false]

end Format

/-! ### Input that breaks off -/

section

variable {σ : Type} [Writer σ]

/-- Whatever is written one after the other, no write fails. -/
def Writer.NeverFails (out : σ) : Prop := ∀ pieces, (Writer.writeAll out pieces).2 = none

theorem Sink.neverFails_of_room {w : Sink} (hw : w.room = none) : Writer.NeverFails w := by
  intro pieces
  rw [Sink.writeAll_of_room hw]

theorem Writer.NeverFails.write {out : σ} (h : NeverFails out) (piece : Bytes) :
    (Writer.write out piece).2 = none ∧ NeverFails (Writer.write out piece).1 := by
  have hall (pieces : List Bytes) := h (piece :: pieces)
  rcases hwrite : Writer.write out piece with ⟨out', failure⟩
  simp only [Writer.writeAll, hwrite] at hall
  cases failure with
  | none => exact ⟨rfl, hall⟩
  | some why => cases hall []

/-- That no write fails can be said of a writer all along. -/
theorem Writer.NeverFails.ledger :
    Writer.Ledger fun _ (out : σ) failure => NeverFails out ∧ failure = none where
  write h piece := (h.1.write piece).symm
  append h := nomatch h.2

/-- A session that can write everything takes in every line, and ends as its input does. -/
theorem Session.run_of_neverFails {out : σ} (h : Writer.NeverFails out) (input : Intake) :
    (Session.run out input).run = (lines input.bytes).foldl Run.feed { out } ∧
      (Session.run out input).error = input.failure.map .read := by
  obtain ⟨⟨-, hfailure⟩, hends, -⟩ :=
    @Writer.Ledger.run σ _ _ [] out Writer.NeverFails.ledger ⟨h, rfl⟩ input
  refine ⟨?_, (hends hfailure).2⟩
  obtain ⟨-, hfed, hall⟩ := Run.feedAll_eq { out } (lines input.bytes)
  rw [Session.run_eq] at hfailure ⊢
  exact hall (hfed ▸ hfailure)

/-- **A tagged stream that breaks off is converted as far as it goes, and noweb source is not
converted at all.** Let the input break off after `k` bytes, and let no write fail. Of a tagged
stream, what was delivered is then converted just as if that were all of it: its finished lines, and
once what there is of the next one. Of noweb source nothing is written or reported. Either way the
error is that of the input. -/
theorem Format.convert_of_broken {out : σ} (hout : Writer.NeverFails out) (name input : Bytes)
    (k : Nat) (why : Failure) :
    let delivered := input.take k
    let c := Format.tagged.convert name ⟨delivered, some why⟩ out
    let whole := Format.tagged.convert name ⟨delivered, none⟩ out
    let last := if unfinished delivered = [] then [] else [trimCr (unfinished delivered)]
    let fed := (lines (finished delivered) ++ last).foldl Run.feed { out }
    let c' := Format.noweb.convert name ⟨delivered, some why⟩ out
    (whole.error = none ∧ c.out = whole.out ∧ c.diagnostics = whole.diagnostics ∧
      c.out = fed.out ∧ c.diagnostics = fed.diagnostics ∧ c.error = some (.run (.read why))) ∧
    c'.out = out ∧ c'.diagnostics = [] ∧ c'.error = some (.markup name (.read why)) := by
  intro delivered c whole last fed c'
  obtain ⟨hrun, herror⟩ := Session.run_of_neverFails hout ⟨delivered, some why⟩
  obtain ⟨-, hnone⟩ := Session.run_of_neverFails hout ⟨delivered, none⟩
  have hwhole := Session.run_ending out ⟨delivered, some why⟩
  have hfed : (Session.run out ⟨delivered, some why⟩).run = fed := by
    rw [hrun, lines_eq_append_unfinished delivered]
  have hc' : c' = { out, error := some (.markup name (.read why)) } :=
    Noweb.convert_noweb_of_failure name delivered why out
  constructor
  · refine ⟨?_, congrArg Run.out hwhole, congrArg Run.diagnostics hwhole, ?_, ?_, ?_⟩
    · show (Session.run out ⟨delivered, none⟩).error.map _ = none
      rw [hnone]
      rfl
    · rw [← hfed]
      rfl
    · rw [← hfed]
      rfl
    · show (Session.run out ⟨delivered, some why⟩).error.map _ = _
      rw [herror]
      rfl
  · rw [hc']
    exact ⟨rfl, rfl, rfl⟩

end

/-- The stream breaks off between the carriage return and the line feed at the end of a line that
closes the wrong chunk, which is reported all the same. -/
theorem Format.convert_of_broken_between :
    let input := utf8 "@begin docs\n@text x\n@end code\r\n@text y\n"
    let c := Format.tagged.convert [] (Intake.breakingAfter 30 input) ({} : Sink)
    let c' := Format.noweb.convert [] (Intake.breakingAfter 30 input) ({} : Sink)
    Writer.NeverFails ({} : Sink) ∧ (input.take 30).getLast? = some cr ∧
      c.out.contents = utf8 "x" ∧
      c.diagnostics = [⟨3, some .mismatchedEnd, utf8 "code", utf8 "docs"⟩] ∧
      c.error = some (.run (.read .connectionReset)) ∧
      c'.out.contents = [] ∧ c'.diagnostics = [] ∧
      c'.error = some (.markup [] (.read .connectionReset)) := by
  intro input c c'
  have hout : Writer.NeverFails ({} : Sink) := Sink.neverFails_of_room rfl
  obtain ⟨⟨-, -, -, hfed, hdiagnostics, herror⟩, hout', hnone, herror'⟩ :=
    Format.convert_of_broken hout [] input 30 .connectionReset
  refine ⟨hout, by decide, ?_, ?_, herror, ?_, hnone, herror'⟩
  · exact (congrArg Sink.contents hfed).trans (by decide +kernel)
  · exact hdiagnostics.trans (by decide +kernel)
  · exact congrArg Sink.contents hout'

end Literate
