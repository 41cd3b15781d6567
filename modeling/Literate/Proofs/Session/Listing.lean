import Literate.Proofs.Limited
import Literate.Proofs.Session.Diagnostics
import Literate.Proofs.Text.Integer
import Literate.Proofs.Text.Utf8

/-!
# Reading a listing back

The kinds that a mismatch names come from the input, and they go into the message as they are:

    7: Mismatched endchunk (a,(b:, expected docs,)

Commas, colons and parentheses in a kind do no harm, because a kind is a first field. It has no
space and no line feed (`Text.not_mem_firstField`), so the kind that was found ends before the first
`, `, and the message before the end of its line. `ofText?` and `ofListing?` read a diagnostic and a
listing that way. They give back whatever is `Legible`, and a run reports nothing else.
-/

namespace Literate

open Bytes Text

/-! ### Words -/

/-- A text without a space and without a line feed. -/
structure IsWord (s : Bytes) : Prop where
  no_space : space ∉ s
  no_lf : lf ∉ s

theorem isWord_firstField (s : Bytes) : IsWord (firstField s) where
  no_space := not_mem_firstField (by decide) (by decide) s
  no_lf := not_mem_firstField (by decide) (by decide) s

theorem History.isWord_openKind (history : List Bytes) :
    IsWord ((openKind history).getD (utf8 "none")) := by
  cases h : openKind history with
  | none => exact ⟨by decide, by decide⟩
  | some kind =>
      -- the kind was read from the line that begins the chunk
      obtain ⟨line, -, hbegun⟩ := Option.bind_eq_some_iff.mp h
      obtain ⟨arg, -, rfl⟩ := Option.map_eq_some_iff.mp hbegun
      exact isWord_firstField arg

namespace Diagnostic

/-! ### One diagnostic -/

/-- A diagnostic that its text determines. -/
inductive Legible : Diagnostic → Prop
  | malformed (line : Int) : Legible { line, fault := some .malformedLine }
  | mismatched (line : Int) {found expected : Bytes} : IsWord found → IsWord expected →
      Legible { line, fault := some .mismatchedEnd, found, expected }

/-- Read a diagnostic from its text. -/
def ofText? (s : Bytes) : Option Diagnostic := do
  let (number, message) ← breakOn (utf8 ": ") s
  let line ← readInt? number
  match afterPrefix? (utf8 "Mismatched endchunk (") message with
  | some kinds => do
    let (found, rest) ← breakOn (utf8 ", ") kinds
    let expected ← afterPrefix? (utf8 "expected ") rest
    some { line, fault := some .mismatchedEnd, found, expected := dropSuffix (utf8 ")") expected }
  | none =>
    if message = utf8 "Line too short or does not start with @" then
      some { line, fault := some .malformedLine }
    else none

theorem breakOn_text (d : Diagnostic) :
    breakOn (utf8 ": ") d.text = some (decimalInt d.line, d.message) :=
  breakOn_mark (by decide) (not_mem_decimalInt (by decide) (by decide) d.line) d.message

theorem message_mismatched (line : Int) (found expected : Bytes) :
    message { line, fault := some .mismatchedEnd, found, expected } =
      utf8 "Mismatched endchunk (" ++
        (found ++ utf8 ", " ++ (utf8 "expected " ++ (expected ++ utf8 ")"))) := by
  have hsplit : utf8 ", expected " = utf8 ", " ++ utf8 "expected " := by decide
  show utf8 "Mismatched endchunk (" ++ found ++ utf8 ", expected " ++ expected ++ utf8 ")" = _
  rw [hsplit]
  simp only [List.append_assoc]

/-- **A legible diagnostic is read back from its text.** -/
theorem ofText?_text {d : Diagnostic} (h : d.Legible) : ofText? d.text = some d := by
  rw [ofText?, breakOn_text]
  simp only [Option.bind_eq_bind, Option.bind_some, readInt?_decimalInt]
  cases h with
  | malformed line => rfl
  | @mismatched line found expected hfound _ =>
      have hkinds (rest : Bytes) :
          breakOn (utf8 ", ") (found ++ utf8 ", " ++ rest) = some (found, rest) :=
        breakOn_mark (by decide) hfound.no_space rest
      simp only [message_mismatched, afterPrefix?_append, hkinds, dropSuffix_append,
        Option.bind_some]

example : ofText? (utf8 "7: Mismatched endchunk (a,(b:, expected docs,)") =
    some { line := 7, fault := some .mismatchedEnd
           found := utf8 "a,(b:", expected := utf8 "docs," } := by
  decide

theorem Legible.lf_not_mem_message {d : Diagnostic} (h : d.Legible) : lf ∉ d.message := by
  cases h with
  | malformed line =>
      show lf ∉ utf8 "Line too short or does not start with @"
      decide
  | mismatched line hfound hexpected =>
      have hstart : lf ∉ utf8 "Mismatched endchunk (" := by decide
      have hbetween : lf ∉ utf8 ", " ∧ lf ∉ utf8 "expected " := by decide
      have hend : lf ∉ utf8 ")" := by decide
      simp [message_mismatched, hstart, hfound.no_lf, hbetween, hexpected.no_lf, hend]

theorem Legible.lf_not_mem_text {d : Diagnostic} (h : d.Legible) : lf ∉ d.text := by
  have hnumber : lf ∉ decimalInt d.line := not_mem_decimalInt (by decide) (by decide) d.line
  have hcolon : lf ∉ utf8 ": " := by decide
  simp [text, hnumber, hcolon, h.lf_not_mem_message]

/-! ### A listing -/

/-- Read diagnostics from a listing. -/
def ofListing? (s : Bytes) : Option (List Diagnostic) := (rawLines s).mapM ofText?

/-- A listing has one line for each diagnostic. -/
theorem rawLines_listing {ds : List Diagnostic} (h : ∀ d ∈ ds, d.Legible) :
    rawLines (listing ds) = ds.map text := by
  have hlines : listing ds = (ds.map text).flatMap (· ++ [lf]) := by
    rw [listing, List.flatMap_map]
  rw [hlines, rawLines_unlines]
  intro line hline
  obtain ⟨d, hd, rfl⟩ := List.mem_map.mp hline
  exact (h d hd).lf_not_mem_text

theorem ofListing?_listing {ds : List Diagnostic} (h : ∀ d ∈ ds, d.Legible) :
    ofListing? (listing ds) = some ds := by
  rw [ofListing?, rawLines_listing h]
  induction ds with
  | nil => rfl
  | cons d ds ih =>
      rw [List.map_cons, List.mapM_cons, ofText?_text (h d (by simp)),
        ih fun e he => h e (by simp [he])]
      rfl

end Diagnostic

/-! ### What a run reports -/

theorem History.Reported.legible {lines : List Bytes} {d : Diagnostic} (h : Reported lines d) :
    d.Legible := by
  cases h with
  | malformed => exact .malformed _
  | mismatched => exact .mismatched _ (isWord_firstField _) (isWord_openKind _)

theorem Session.legible_of_mem_run {σ : Type} [Writer σ] (out : σ) (input : Intake) :
    ∀ d ∈ (Session.run out input).run.diagnostics, d.Legible := by
  intro d hd
  -- the run has taken in some of the lines, up to a failed write
  obtain ⟨k, -, hrun, -⟩ := Run.exists_feedAll_eq (r := { out }) rfl (lines input.bytes)
  rw [Session.run_eq, hrun, History.diagnostics_foldl_feed] at hd
  exact (History.mem_diagnostics.mp hd).legible

/-- **A listing can be read back.** Whatever the input is, however it ends and wherever the text
goes, the listing of the diagnostics has one line for each of them, and they can be read from it. So
runs have the same listing only if they report the same. -/
theorem Session.listing_run_reads_back {σ τ : Type} [Writer σ] [Writer τ] (out : σ) (out' : τ)
    (input input' : Intake) :
    let reported := (Session.run out input).run.diagnostics
    let reported' := (Session.run out' input').run.diagnostics
    rawLines (Diagnostic.listing reported) = reported.map Diagnostic.text ∧
      Diagnostic.ofListing? (Diagnostic.listing reported) = some reported ∧
      (Diagnostic.listing reported = Diagnostic.listing reported' ↔ reported = reported') := by
  intro reported reported'
  have hread := Diagnostic.ofListing?_listing (Session.legible_of_mem_run out input)
  have hread' := Diagnostic.ofListing?_listing (Session.legible_of_mem_run out' input')
  refine ⟨Diagnostic.rawLines_listing (Session.legible_of_mem_run out input), hread, ?_, ?_⟩
  · intro h
    rw [h, hread'] at hread
    exact (Option.some.inj hread).symm
  · intro h
    rw [h]

end Literate
