import Literate.Proofs.Directive

/-!
# Scanning source lines

The two scanners as grammars. `CodeScan text s ds` says that from the pending text `text` on, the
code `s` is split into the directives `ds`, and `DocsScan line ds` does so for documentation. Every
line has such a derivation that ends in what the scanner gives (`codeScan_codeLine`,
`docsScan_docsLine`), and no other one (`CodeScan.codeLine_eq`, `DocsScan.docsLine_eq`), so whatever
is to be known of the directives of a line is an induction over these rules, one case for each rule
of the notation.
-/

namespace Literate.Noweb

open Bytes

/-- A text as directives: none if it is empty. -/
def piece (text : Bytes) : List Directive := if text = [] then [] else [.text text]

/-- Splitting code into texts and uses, after some pending text. -/
inductive CodeScan : Bytes → Bytes → List Directive → Prop
  | stop {text} : CodeScan text [] (piece text)
  /-- An `@` before `<<` makes it text. -/
  | escape {text rest ds} : CodeScan (text ++ utf8 "<<") rest ds →
      CodeScan text (utf8 "@<<" ++ rest) ds
  /-- What stands between `<<` and the first `>>` is used. -/
  | use {text name rest ds} : ¬ utf8 ">>" <:+: name ++ utf8 ">" → CodeScan [] rest ds →
      CodeScan text (utf8 "<<" ++ name ++ utf8 ">>" ++ rest) (piece text ++ .use name :: ds)
  /-- Without a `>>` after it, `<<` is text, and so is the rest. -/
  | unclosed {text rest} : ¬ utf8 ">>" <:+: rest →
      CodeScan text (utf8 "<<" ++ rest) (piece (text ++ (utf8 "<<" ++ rest)))
  | byte {text b rest ds} : ¬ utf8 "@<<" <+: b :: rest → ¬ utf8 "<<" <+: b :: rest →
      CodeScan (text ++ [b]) rest ds → CodeScan text (b :: rest) ds

/-- A `[[` on the line has a `]]` after it. -/
def HasQuote (line : Bytes) : Prop :=
  ∃ before quoted after, line = before ++ utf8 "[[" ++ quoted ++ utf8 "]]" ++ after

/-- Splitting documentation around quotes. -/
inductive DocsScan : Bytes → List Directive → Prop
  | plain {line} : ¬ HasQuote line → DocsScan line (piece line)
  /-- The first `[[` and the first `]]` after it enclose a quote. -/
  | quote {before quoted rest ds} :
      ¬ utf8 "[[" <:+: before ++ utf8 "[" → ¬ utf8 "]]" <:+: quoted ++ utf8 "]" →
      DocsScan rest ds →
      DocsScan (before ++ utf8 "[[" ++ quoted ++ utf8 "]]" ++ rest)
        (piece before ++ .quote :: piece quoted ++ .endquote :: ds)

/-! ### The scanners follow the grammars -/

theorem reverse_pushText (text : Bytes) (done : List Directive) :
    (pushText text done).reverse = done.reverse ++ piece text := by
  cases text with
  | nil => simp [pushText, piece]
  | cons b text => simp [pushText, piece]

theorem codeFrom_use {rest name after : Bytes} (h : breakOn (utf8 ">>") rest = some (name, after))
    (done : List Directive) (text : Bytes) :
    codeFrom done text (60 :: 60 :: rest) =
      codeFrom (.use name :: pushText text.reverse done) [] after := by
  rw [codeFrom]
  split
  · next h' => rw [h] at h'; cases h'; rfl
  · next h' => rw [h] at h'; cases h'

theorem codeFrom_unclosed {rest : Bytes} (h : breakOn (utf8 ">>") rest = none)
    (done : List Directive) (text : Bytes) :
    codeFrom done text (60 :: 60 :: rest) =
      (pushText (text.reverse ++ 60 :: 60 :: rest) done).reverse := by
  rw [codeFrom]
  split
  · next h' => rw [h] at h'; cases h'
  · rfl

theorem exists_codeScan (done : List Directive) (text s : Bytes) :
    ∃ ds, codeFrom done text s = done.reverse ++ ds ∧ CodeScan text.reverse s ds := by
  induction done, text, s using codeFrom.induct with
  | case1 done text =>
      refine ⟨piece text.reverse, ?_, .stop⟩
      rw [codeFrom, reverse_pushText]
  | case2 done text rest ih =>
      obtain ⟨ds, heq, hscan⟩ := ih
      refine ⟨ds, by rw [codeFrom, heq], .escape ?_⟩
      have hrev : text.reverse ++ utf8 "<<" = (60 :: 60 :: text).reverse := by
        rw [List.reverse_cons, List.reverse_cons, List.append_assoc]
        rfl
      rw [hrev]
      exact hscan
  | case3 done text rest name after hbreak ih =>
      obtain ⟨ds, heq, hscan⟩ := ih
      obtain ⟨hrest, hfirst⟩ := (breakOn_eq_some_iff (by decide)).mp hbreak
      refine ⟨piece text.reverse ++ .use name :: ds, ?_, ?_⟩
      · rw [codeFrom_use hbreak]
        simpa [reverse_pushText] using heq
      · subst hrest
        have hscan' := @CodeScan.use text.reverse name after ds hfirst hscan
        rwa [List.append_assoc, List.append_assoc, ← List.append_assoc name] at hscan'
  | case4 done text rest hbreak =>
      have hnone := (breakOn_eq_none_iff (by decide)).mp hbreak
      refine ⟨piece (text.reverse ++ (utf8 "<<" ++ rest)), ?_, .unclosed hnone⟩
      rw [codeFrom_unclosed hbreak, reverse_pushText]
      rfl
  | case5 done text b rest hescape hopen ih =>
      obtain ⟨ds, heq, hscan⟩ := ih
      refine ⟨ds, by rw [codeFrom.eq_4 done text b rest hescape hopen, heq], .byte ?_ ?_ ?_⟩
      · rintro ⟨tail, htail⟩
        obtain ⟨hb, hrest⟩ := List.cons.inj htail
        exact hescape tail hb.symm hrest.symm
      · rintro ⟨tail, htail⟩
        obtain ⟨hb, hrest⟩ := List.cons.inj htail
        exact hopen tail hb.symm hrest.symm
      · rwa [List.reverse_cons] at hscan

/-- The directives of a code line are a derivation of it. -/
theorem codeScan_codeLine (line : Bytes) : CodeScan [] line (codeLine line) := by
  obtain ⟨ds, heq, hscan⟩ := exists_codeScan [] [] line
  rw [codeLine, heq]
  exact hscan

theorem CodeScan.codeFrom_eq {text s : Bytes} {ds : List Directive} (h : CodeScan text s ds)
    (done : List Directive) : codeFrom done text.reverse s = done.reverse ++ ds := by
  induction h generalizing done with
  | stop => rw [codeFrom, List.reverse_reverse, reverse_pushText]
  | @escape text rest ds _ ih =>
      have hrev : (text ++ utf8 "<<").reverse = 60 :: 60 :: text.reverse := by
        rw [List.reverse_append]
        rfl
      show codeFrom done text.reverse (64 :: 60 :: 60 :: rest) = _
      rw [codeFrom, ← hrev, ih]
  | @use text name rest ds hname _ ih =>
      have hbreak := breakOn_append (by decide) hname rest
      have hline : utf8 "<<" ++ name ++ utf8 ">>" ++ rest =
          60 :: 60 :: (name ++ utf8 ">>" ++ rest) := by
        rw [List.append_assoc, List.append_assoc, ← List.append_assoc name]
        rfl
      have hrest := ih (.use name :: pushText text done)
      rw [hline, codeFrom_use hbreak, List.reverse_reverse]
      simpa [reverse_pushText] using hrest
  | @unclosed text rest hrest =>
      have hbreak := (breakOn_eq_none_iff (by decide)).mpr hrest
      show codeFrom done text.reverse (60 :: 60 :: rest) = _
      rw [codeFrom_unclosed hbreak, List.reverse_reverse, reverse_pushText]
      rfl
  | @byte text b rest ds hescape hopen _ ih =>
      have hcode : codeFrom done text.reverse (b :: rest) =
          codeFrom done (b :: text.reverse) rest := by
        refine codeFrom.eq_4 done text.reverse b rest ?_ ?_
        · intro tail hb hrest
          exact hescape ⟨tail, by rw [hb, hrest]; rfl⟩
        · intro tail hb hrest
          exact hopen ⟨tail, by rw [hb, hrest]; rfl⟩
      rw [hcode, ← List.reverse_concat, ih]

/-- A code line has no other derivation. -/
theorem CodeScan.codeLine_eq {line : Bytes} {ds : List Directive} (h : CodeScan [] line ds) :
    codeLine line = ds := h.codeFrom_eq []

/-- It is enough to look for a `]]` after the first `[[`. -/
theorem not_hasQuote_iff {line : Bytes} :
    ¬ HasQuote line ↔ ∀ before inner, breakOn (utf8 "[[") line = some (before, inner) →
      breakOn (utf8 "]]") inner = none := by
  constructor
  · intro h before inner hopen
    rw [breakOn_eq_none_iff (by decide)]
    rintro ⟨quoted, after, hinner⟩
    refine h ⟨before, quoted, after, ?_⟩
    rw [eq_of_breakOn (by decide) hopen, ← hinner]
    simp only [List.append_assoc]
  · rintro h ⟨before', quoted', after', hline⟩
    have hline' : line = before' ++ utf8 "[[" ++ (quoted' ++ utf8 "]]" ++ after') := by
      rw [hline]
      simp only [List.append_assoc]
    cases hopen : breakOn (utf8 "[[") line with
    | none => exact (breakOn_eq_none_iff (by decide)).mp hopen ⟨before', _, hline'.symm⟩
    | some parts =>
        obtain ⟨before, inner⟩ := parts
        have hle := length_le_of_breakOn (by decide) hopen hline'
        have hparts := eq_of_breakOn (by decide) hopen
        refine (breakOn_eq_none_iff (by decide)).mp (h before inner hopen) ?_
        -- Both what follows the first `[[` and what starts with the `]]` are ends of the line, and
        -- the second is the shorter one.
        have hend : utf8 "]]" ++ after' <:+ line :=
          ⟨before' ++ utf8 "[[" ++ quoted', by simp [hline]⟩
        have hinner : inner <:+ line := ⟨before ++ utf8 "[[", hparts.symm⟩
        have hlen := congrArg List.length (hline.symm.trans hparts)
        simp only [List.length_append] at hlen
        have hsuf := List.suffix_of_suffix_length_le hend hinner (by
          rw [List.length_append]
          omega)
        exact (List.prefix_append _ _).isInfix.trans hsuf.isInfix

theorem docsFrom_plain {line : Bytes} (h : ¬ HasQuote line) (done : List Directive) :
    docsFrom done line = done.reverse ++ piece line := by
  rw [not_hasQuote_iff] at h
  rw [docsFrom]
  split
  · exact reverse_pushText line done
  · next before inner hopen =>
    split
    · exact reverse_pushText line done
    · next hclose => rw [h before inner hopen] at hclose; cases hclose

theorem docsFrom_quote {line before inner quoted after : Bytes}
    (hopen : breakOn (utf8 "[[") line = some (before, inner))
    (hclose : breakOn (utf8 "]]") inner = some (quoted, after)) (done : List Directive) :
    docsFrom done line =
      docsFrom (.endquote :: pushText quoted (.quote :: pushText before done)) after := by
  rw [docsFrom]
  split
  · next h => rw [hopen] at h; cases h
  · next h =>
    rw [hopen] at h
    cases h
    split
    · next h => rw [hclose] at h; cases h
    · next h => rw [hclose] at h; cases h; rfl

theorem exists_docsScan (done : List Directive) (line : Bytes) :
    ∃ ds, docsFrom done line = done.reverse ++ ds ∧ DocsScan line ds := by
  induction done, line using docsFrom.induct with
  | case1 done line hopen =>
      have hplain : ¬ HasQuote line := by
        rw [not_hasQuote_iff]
        intro before inner h
        rw [hopen] at h
        cases h
      exact ⟨piece line, docsFrom_plain hplain done, .plain hplain⟩
  | case2 done line before inner hopen hclose =>
      have hplain : ¬ HasQuote line := by
        rw [not_hasQuote_iff]
        intro before inner h
        rw [hopen] at h
        cases h
        exact hclose
      exact ⟨piece line, docsFrom_plain hplain done, .plain hplain⟩
  | case3 done line before inner hopen quoted after hclose ih =>
      obtain ⟨ds, heq, hscan⟩ := ih
      obtain ⟨hline, hfirst⟩ := (breakOn_eq_some_iff (by decide)).mp hopen
      obtain ⟨hinner, hfirst'⟩ := (breakOn_eq_some_iff (by decide)).mp hclose
      refine ⟨piece before ++ .quote :: piece quoted ++ .endquote :: ds, ?_, ?_⟩
      · rw [docsFrom_quote hopen hclose, heq]
        simp [reverse_pushText]
      · subst hline hinner
        have hscan' := DocsScan.quote hfirst hfirst' hscan
        simpa only [List.append_assoc] using hscan'

theorem docsScan_docsLine (line : Bytes) : DocsScan line (docsLine line) := by
  obtain ⟨ds, heq, hscan⟩ := exists_docsScan [] line
  rw [docsLine, heq]
  exact hscan

theorem DocsScan.docsFrom_eq {line : Bytes} {ds : List Directive} (h : DocsScan line ds)
    (done : List Directive) : docsFrom done line = done.reverse ++ ds := by
  induction h generalizing done with
  | plain hplain => exact docsFrom_plain hplain done
  | @quote before quoted rest ds hbefore hquoted _ ih =>
      have hopen := breakOn_append (by decide) hbefore (quoted ++ utf8 "]]" ++ rest)
      have hclose := breakOn_append (by decide) hquoted rest
      have hline : before ++ utf8 "[[" ++ quoted ++ utf8 "]]" ++ rest =
          before ++ utf8 "[[" ++ (quoted ++ utf8 "]]" ++ rest) := by
        simp only [List.append_assoc]
      rw [hline, docsFrom_quote hopen hclose, ih]
      simp [reverse_pushText]

/-- A documentation line has no other derivation. -/
theorem DocsScan.docsLine_eq {line : Bytes} {ds : List Directive} (h : DocsScan line ds) :
    docsLine line = ds := h.docsFrom_eq []

end Literate.Noweb
