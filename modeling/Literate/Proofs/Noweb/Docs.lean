import Literate.Proofs.Noweb.Cut
import Literate.Proofs.Noweb.Scan

/-!
# What becomes of a documentation line

A documentation line is cut at its quotes:

    see [[a]] or [[b   ──docsLine──▶   text "see ", quote, text "a", endquote, text " or [[b"

`spelled` writes the directives as they stood on the line, so nothing is lost if that is the line
again. `Cut.QuotesLeftmost` says where the quotes are, and `docsLine_eq_quoted` that the scanner
finds just these.
-/

namespace Literate.Noweb

open Bytes

/-- What a directive of a documentation line stood for on the line. -/
def spelling? : Directive → Option Bytes
  | .text s => some s
  | .quote => some (utf8 "[[")
  | .endquote => some (utf8 "]]")
  | _ => none

/-- The text on the line that directives stood for. -/
def spelled (ds : List Directive) : Bytes := ds.flatMap fun d => (spelling? d).getD []

@[simp] theorem spelled_nil : spelled [] = [] := rfl

@[simp] theorem spelled_cons (d : Directive) (ds : List Directive) :
    spelled (d :: ds) = (spelling? d).getD [] ++ spelled ds := rfl

@[simp] theorem spelled_append (ds ds' : List Directive) :
    spelled (ds ++ ds') = spelled ds ++ spelled ds' := List.flatMap_append

@[simp] theorem spelled_piece (text : Bytes) : spelled (piece text) = text := by
  unfold piece
  split
  · next h => rw [h, spelled_nil]
  · exact List.append_nil text

/-! ### Quotes as brackets -/

/-- The brackets around a quote. They always count. -/
def Brackets.quotes : Brackets where
  opening := utf8 "[["
  closing := utf8 "]]"
  counts _ := true
  opening_ne := by decide
  closing_ne := by decide

@[simp] theorem Brackets.opening_quotes : quotes.opening = utf8 "[[" := rfl

@[simp] theorem Brackets.closing_quotes : quotes.closing = utf8 "]]" := rfl

theorem Brackets.isFirst_quotes_iff {front : Bytes} :
    quotes.IsFirst front ↔ ¬ utf8 "[[" <:+: front ++ utf8 "[" := by
  have hopens : quotes.Opens (front ++ utf8 "[") ↔ utf8 "[[" <:+: front ++ utf8 "[" := by
    simp [Opens, quotes, List.IsInfix, eq_comm]
  show true ∧ ¬ quotes.Opens (front ++ utf8 "[") ↔ _
  simp [hopens]

theorem Brackets.opensBefore_quotes_iff {line : Bytes} :
    quotes.OpensBefore (utf8 "]]") line ↔ HasQuote line := by
  constructor
  · intro ⟨before, rest, hline, _, quoted, after, hrest⟩
    exact ⟨before, quoted, after, by simp [hline, ← hrest]⟩
  · intro ⟨before, quoted, after, hline⟩
    exact ⟨before, quoted ++ utf8 "]]" ++ after, by simp [hline], rfl, quoted, after, rfl⟩

namespace Cut

/-- The directives of a line that is cut at its quotes. A text that is empty is left out. -/
def quoted (c : Cut) : List Directive :=
  c.parts.flatMap (fun p => piece p.before ++ .quote :: piece p.inside ++ [.endquote]) ++
    piece c.last

/-- Every quote begins at the first `[[` and ends at the first `]]` after it, and what follows the
last one has no quote in it. -/
structure QuotesLeftmost (c : Cut) : Prop where
  before : ∀ p ∈ c.parts, ¬ utf8 "[[" <:+: p.before ++ utf8 "["
  inside : ∀ p ∈ c.parts, ¬ utf8 "]]" <:+: p.inside ++ utf8 "]"
  last : ¬ HasQuote c.last

theorem quotesLeftmost_iff {c : Cut} : c.QuotesLeftmost ↔ Brackets.quotes.IsLeftmost c := by
  constructor
  · intro h
    refine ⟨?_, h.inside, mt Brackets.opensBefore_quotes_iff.mp h.last⟩
    intro p hp
    exact Brackets.isFirst_quotes_iff.mpr (h.before p hp)
  · intro h
    refine ⟨?_, h.closed, mt Brackets.opensBefore_quotes_iff.mpr h.last⟩
    intro p hp
    exact Brackets.isFirst_quotes_iff.mp (h.first p hp)

@[simp] theorem quoted_nil (last : Bytes) : quoted ⟨[], last⟩ = piece last := rfl

@[simp] theorem quoted_cons (p : Bracketed) (parts : List Bracketed) (last : Bytes) :
    quoted ⟨p :: parts, last⟩ =
      piece p.before ++ .quote :: piece p.inside ++ .endquote :: quoted ⟨parts, last⟩ := by
  simp [quoted]

theorem spelled_quoted (c : Cut) : spelled c.quoted = Brackets.quotes.join c := by
  obtain ⟨parts, last⟩ := c
  induction parts with
  | nil => simp
  | cons p parts ih =>
      rw [Brackets.join_cons, ← ih]
      simp [spelling?]

end Cut

/-- A leftmost cut is a derivation of its line. -/
theorem Brackets.IsLeftmost.docsScan {c : Cut} (h : quotes.IsLeftmost c) :
    DocsScan (quotes.join c) c.quoted := by
  obtain ⟨parts, last⟩ := c
  induction parts with
  | nil => exact .plain (mt opensBefore_quotes_iff.mpr h.last)
  | cons p parts ih =>
      obtain ⟨hfirst, hclosed, hrest⟩ := isLeftmost_cons.mp h
      have hscan := DocsScan.quote (isFirst_quotes_iff.mp hfirst) hclosed (ih hrest)
      rw [join_cons, Cut.quoted_cons]
      simpa only [opening_quotes, closing_quotes, List.append_assoc] using hscan

/-- **A documentation line is cut at its leftmost quotes, and nothing is lost.** The directives are
those of a cut, every quote in it begins at the first `[[` and ends at the first `]]` after it, and
no other cut of the line is like that. -/
theorem docsLine_eq_quoted (line : Bytes) :
    spelled (docsLine line) = line ∧
    ∃ c : Cut, docsLine line = c.quoted ∧ c.QuotesLeftmost ∧
      ∀ c' : Cut, c'.QuotesLeftmost → spelled c'.quoted = line → c' = c := by
  obtain ⟨c, hleft, rfl⟩ := Brackets.quotes.exists_isLeftmost line
  have hdocs : docsLine (Brackets.quotes.join c) = c.quoted := hleft.docsScan.docsLine_eq
  refine ⟨?_, c, hdocs, Cut.quotesLeftmost_iff.mpr hleft, ?_⟩
  · rw [hdocs, Cut.spelled_quoted]
  · intro c' hquotes hspelled
    rw [Cut.spelled_quoted] at hspelled
    exact (Cut.quotesLeftmost_iff.mp hquotes).unique hleft hspelled

/-- Brackets inside of brackets, quotes side by side, an empty one, a `]]` before any `[[`, and a
quote that nothing closes. -/
theorem docsLine_eq_quoted_nested :
    let line := utf8 "]] [[[x]]] [[a]][[b]] [[]] [[c]"
    let c : Cut := ⟨[⟨utf8 "]] ", utf8 "[x"⟩, ⟨utf8 "] ", utf8 "a"⟩, ⟨[], utf8 "b"⟩, ⟨utf8 " ", []⟩],
      utf8 " [[c]"⟩
    docsLine line = c.quoted ∧ spelled c.quoted = line ∧ c.QuotesLeftmost ∧
      ∀ c' : Cut, c'.QuotesLeftmost → spelled c'.quoted = line → c' = c := by
  intro line c
  obtain ⟨hspelled, c₀, hdocs, hquotes, hunique⟩ := docsLine_eq_quoted line
  have hc : c.QuotesLeftmost := Cut.quotesLeftmost_iff.mpr ⟨by decide, by decide, by decide⟩
  have heq : c = c₀ := hunique c hc (by decide)
  rw [heq]
  exact ⟨hdocs, hdocs ▸ hspelled, hquotes, hunique⟩

end Literate.Noweb
