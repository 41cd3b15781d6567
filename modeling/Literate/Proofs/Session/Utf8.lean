import Literate.Proofs.Directive
import Literate.Proofs.Session.Run
import Literate.Proofs.Text.Utf8

/-!
# Sessions write UTF-8

Lines, words and arguments are cut out of the input at ASCII bytes, and no character has one of
those inside. So a session that is fed with UTF-8 remembers, writes and remarks nothing else:
`Session.IsUtf8.feed` says so for a line, and `Session.IsUtf8.effects` for all of them.
-/

namespace Literate

open Bytes Text

/-! ### Cutting texts -/

namespace Text

theorem isValid_cut {sep : UInt8} (hsep : sep < 0x80) {s : Bytes} (h : isValid s) :
    isValid (cut sep s).1 ∧ isValid (cut sep s).2 := by
  rcases hcut : cut sep s with ⟨before, after⟩
  obtain ⟨-, ⟨rfl, rfl⟩ | rfl⟩ := cut_eq_iff.mp hcut
  · exact ⟨h, isValid_nil⟩
  · exact (isValid_append_cons hsep).mp h

theorem isValid_trimCr {line : Bytes} (h : isValid line) : isValid (trimCr line) := by
  unfold trimCr
  split
  · next hlast =>
    obtain ⟨front, rfl⟩ := List.getLast?_eq_some_iff.mp hlast
    rw [List.dropLast_concat]
    exact ((isValid_append_cons (by decide)).mp h).1
  · exact h

theorem isValid_of_mem_rawLines {s line : Bytes} (h : isValid s) (hline : line ∈ rawLines s) :
    isValid line := by
  -- on the length, from one line feed to the next
  induction hn : s.length using Nat.strongRecOn generalizing s with
  | _ n ih =>
      by_cases hmem : lf ∈ s
      · obtain ⟨front, back, rfl, hfront⟩ := List.eq_append_cons_of_mem hmem
        obtain ⟨hvalid, hback⟩ := (isValid_append_cons (by decide)).mp h
        rw [rawLines_append_lf hfront] at hline
        rcases List.mem_cons.mp hline with rfl | hline
        · exact hvalid
        · refine ih back.length ?_ hback hline rfl
          rw [← hn, List.length_append, List.length_cons]
          omega
      · rw [rawLines_of_not_mem hmem] at hline
        split at hline
        · cases hline
        · rwa [List.mem_singleton.mp hline]

theorem isValid_of_mem_lines {s line : Bytes} (h : isValid s) (hline : line ∈ lines s) :
    isValid line := by
  obtain ⟨raw, hraw, rfl⟩ := List.mem_map.mp hline
  exact isValid_trimCr (isValid_of_mem_rawLines h hraw)

/-- Some of the glyphs of a valid text make a valid text. -/
theorem isValid_encode {s : Bytes} (h : isValid s) {gs : List Glyph} (hgs : gs ⊆ decode s) :
    isValid (encode gs) := by
  obtain ⟨cs, rfl⟩ := isValid_iff.mp h
  rw [decode_flatMap_encodeChar] at hgs
  refine isValid_flatten fun piece hpiece => ?_
  obtain ⟨g, hg, rfl⟩ := List.mem_map.mp hpiece
  obtain ⟨c, -, rfl⟩ := List.mem_map.mp (hgs hg)
  exact isValid_encodeChar c

theorem isValid_firstField {s : Bytes} (h : isValid s) : isValid (firstField s) :=
  isValid_encode h
    (List.Subset.trans (List.takeWhile_subset _) (List.dropWhile_subset _))

theorem isValid_replaceByte {old new : UInt8} (hold : old < 0x80) (hnew : new < 0x80) {s : Bytes}
    (h : isValid s) : isValid (replaceByte old new s) := by
  obtain ⟨cs, rfl⟩ := isValid_iff.mp h
  rw [replaceByte, List.map_flatMap]
  refine isValid_flatten fun piece hpiece => ?_
  obtain ⟨c, -, rfl⟩ := List.mem_map.mp hpiece
  by_cases hc : c.toNat ≤ 127
  · -- one byte, below `0x80` before and after
    rw [encodeChar_eq, if_pos hc, List.map_singleton, isValid_cons]
    · exact isValid_nil
    · split
      · exact hnew
      · rw [UInt8.lt_iff_toNat_lt, toNat_ofNat_of_lt (by omega)]
        exact Nat.lt_succ_of_le hc
  · have hsame : (encodeChar c).map (fun b => if b = old then new else b) = encodeChar c := by
      rw [List.map_congr_left (g := id), List.map_id]
      intro b hb
      have hle := le_of_mem_encodeChar (Nat.lt_of_not_le hc) hb
      rw [UInt8.lt_iff_toNat_lt] at hold
      refine if_neg ?_
      rintro rfl
      exact absurd hold (Nat.not_lt.mpr hle)
    rw [hsame]
    exact isValid_encodeChar c

end Text

/-! ### Directives -/

namespace Directive

theorem isValid_payload_ofKeyword {keyword arg : Bytes} (hkeyword : isValid keyword)
    (harg : isValid arg) : isValid (ofKeyword keyword arg).payload := by
  by_cases hk : ∃ k : Keyword, keyword = k.bytes
  · obtain ⟨k, rfl⟩ := hk
    rw [ofKeyword_bytes]
    cases k with
    | newline | quote | endquote => exact isValid_nil
    | text | file | defn | use | beginChunk | endChunk => exact harg
  · rw [not_exists] at hk
    rw [ofKeyword_of_forall_ne hk]
    exact hkeyword

theorem isValid_payload_of_parse? {line : Bytes} (h : isValid line) {d : Directive}
    (hd : parse? line = some d) : isValid d.payload := by
  unfold parse? at hd
  split at hd
  · cases hd
    obtain ⟨hkeyword, harg⟩ := @isValid_cut space (by decide) line h
    exact isValid_payload_ofKeyword hkeyword harg
  · cases hd

theorem isValid_print {d : Directive} (h : isValid d.payload) : isValid d.print := by
  cases d with
  | newline | quote | endquote => exact isValid_utf8 _
  | unknown keyword => exact h
  | text arg | file arg | defn arg | use arg | beginChunk arg | endChunk arg =>
      exact isValid_append (isValid_utf8 _) h

end Directive

/-! ### Sessions -/

/-- What a diagnostic quotes from the input is UTF-8. -/
structure Diagnostic.IsUtf8 (d : Diagnostic) : Prop where
  found : isValid d.found
  expected : isValid d.expected

theorem Diagnostic.IsUtf8.message {d : Diagnostic} (h : d.IsUtf8) : isValid d.message := by
  unfold Diagnostic.message
  split
  · exact isValid_append (isValid_append (isValid_append (isValid_append (isValid_utf8 _) h.found)
      (isValid_utf8 _)) h.expected) (isValid_utf8 _)
  · exact isValid_utf8 _

/-- What a line writes is UTF-8, and so is what is remarked on it. -/
structure Effect.IsUtf8 (e : Effect) : Prop where
  pieces : ∀ piece ∈ e.pieces, isValid piece
  diagnostic : ∀ d, e.remark = some (.diagnostic d) → d.IsUtf8

/-- The session remembers nothing but UTF-8 to write. -/
structure Session.IsUtf8 (s : Session) : Prop where
  chunk : ∀ kind, s.chunk = some kind → isValid kind
  current : ∀ d, s.current = some d → isValid d.name

namespace Effect

/-- Pieces without a remark. -/
theorem IsUtf8.of_pieces {pieces : List Bytes} (h : ∀ piece ∈ pieces, isValid piece) :
    IsUtf8 { pieces } :=
  ⟨h, fun _ hd => nomatch hd⟩

theorem IsUtf8.single {piece : Bytes} (h : isValid piece) : IsUtf8 { pieces := [piece] } :=
  .of_pieces fun _ hpiece => List.mem_singleton.mp hpiece ▸ h

end Effect

namespace Session.IsUtf8

variable {s : Session}

theorem fresh : ({} : Session).IsUtf8 := ⟨nofun, nofun⟩

theorem counted (h : s.IsUtf8) : s.counted.IsUtf8 := ⟨h.chunk, h.current⟩

theorem currentName (h : s.IsUtf8) : isValid s.currentName := by
  unfold Session.currentName
  cases hcurrent : s.current with
  | none => exact isValid_nil
  | some d => exact h.current d hcurrent

theorem header (h : s.IsUtf8) : ∀ piece ∈ s.header, isValid piece := by
  have hlanguage : isValid (highlightLanguage s.currentName) := by
    unfold highlightLanguage
    split
    · exact isValid_utf8 _
    split
    · exact isValid_utf8 _
    · exact isValid_utf8 _
  have hplus : isValid (if s.isContinued then utf8 "+" else []) := by
    split
    · exact isValid_utf8 _
    · exact isValid_nil
  have hblock : isValid (blockHeader s.currentName s.isContinued) :=
    isValid_append (isValid_append (isValid_append (isValid_append (isValid_utf8 _) h.currentName)
      (isValid_utf8 _)) hplus) (isValid_utf8 _)
  have hhighlight := isValid_append (isValid_append (isValid_utf8 ".. highlight:: ") hlanguage)
    (isValid_utf8 "\n\n")
  unfold Session.header
  simp only [List.forall_mem_cons]
  exact ⟨hhighlight, hblock, isValid_utf8 _, isValid_utf8 _, nofun⟩

theorem newline (h : s.IsUtf8) : s.newline.1.IsUtf8 ∧ s.newline.2.IsUtf8 := by
  refine ⟨?_, ?_, ?_⟩
  · rw [fst_newline]
    exact ⟨h.chunk, h.current⟩
  · rw [pieces_newline, List.forall_mem_cons]
    refine ⟨isValid_utf8 _, ?_⟩
    split
    · exact h.header
    split
    · exact fun piece hpiece => List.mem_singleton.mp hpiece ▸ isValid_utf8 _
    · exact nofun
  · intro d hd
    rw [remark_newline] at hd
    split at hd <;> cases hd

theorem define (h : s.IsUtf8) {name : Bytes} (hname : isValid name) :
    (s.define name).1.IsUtf8 ∧ (s.define name).2.IsUtf8 := by
  refine ⟨⟨?_, ?_⟩, ?_, ?_⟩
  · rw [chunk_define]
    exact h.chunk
  · rw [current_define]
    rintro d ⟨⟩
    exact hname
  · rw [pieces_define]
    split
    · exact nofun
    · intro piece hpiece
      rw [List.mem_singleton.mp hpiece]
      exact isValid_append (isValid_append (isValid_utf8 _)
        (isValid_replaceByte (by decide) (by decide) hname)) (isValid_utf8 _)
  · rw [remark_define]
    exact nofun

theorem closeChunk (h : s.IsUtf8) {kind : Bytes} (hkind : isValid kind) :
    (s.closeChunk kind).1.IsUtf8 ∧ (s.closeChunk kind).2.IsUtf8 := by
  refine ⟨⟨nofun, h.current⟩, ?_, ?_⟩
  · show ∀ piece ∈ (if kind = docsKind then [utf8 "\n"] else []), isValid piece
    split
    · exact fun piece hpiece => List.mem_singleton.mp hpiece ▸ isValid_utf8 _
    · exact nofun
  · intro d hd
    have hmismatch : s.mismatch? kind = some d := by
      simpa [Session.closeChunk] using hd
    unfold mismatch? at hmismatch
    split at hmismatch
    · cases hmismatch
    · cases hmismatch
      refine ⟨hkind, ?_⟩
      show isValid (s.chunk.getD (utf8 "none"))
      cases hchunk : s.chunk with
      | none => exact isValid_utf8 _
      | some open' => exact h.chunk open' hchunk

/-- A directive that carries UTF-8. -/
theorem obey (h : s.IsUtf8) {d : Directive} (hd : isValid d.payload) :
    (s.obey d).1.IsUtf8 ∧ (s.obey d).2.IsUtf8 := by
  cases d with
  | text arg => exact ⟨h, .single hd⟩
  | newline => exact h.newline
  | file name => exact ⟨h, .of_pieces nofun⟩
  | defn name => exact h.define hd
  | quote => exact ⟨h, .single (isValid_utf8 _)⟩
  | endquote => exact ⟨h, .single (isValid_utf8 _)⟩
  | use name =>
      exact ⟨h, .single (isValid_append (isValid_append (isValid_utf8 _) hd) (isValid_utf8 _))⟩
  | beginChunk arg =>
      refine ⟨⟨?_, h.current⟩, .of_pieces nofun⟩
      rintro kind ⟨⟩
      exact isValid_firstField hd
  | endChunk arg => exact h.closeChunk (isValid_firstField hd)
  | unknown keyword => exact ⟨h, nofun, nofun⟩

/-- **A line of UTF-8** leaves the session with nothing else. -/
theorem feed (h : s.IsUtf8) {line : Bytes} (hline : isValid line) :
    (s.feed line).1.IsUtf8 ∧ (s.feed line).2.IsUtf8 := by
  cases hd : Directive.parse? line with
  | none =>
      rw [feed_of_parse?_none s hd]
      refine ⟨h.counted, nofun, ?_⟩
      rintro d ⟨⟩
      exact ⟨isValid_nil, isValid_nil⟩
  | some d =>
      rw [feed_of_parse? s hd]
      exact h.counted.obey (Directive.isValid_payload_of_parse? hline hd)

theorem effects (h : s.IsUtf8) {ls : List Bytes} (hls : ∀ line ∈ ls, isValid line) :
    ∀ e ∈ s.effects ls, e.IsUtf8 := by
  induction ls generalizing s with
  | nil => exact nofun
  | cons line ls ih =>
      obtain ⟨hnext, heffect⟩ := h.feed (hls line List.mem_cons_self)
      rw [Session.effects, List.forall_mem_cons]
      exact ⟨heffect, ih hnext fun l hl => hls l (List.mem_cons_of_mem line hl)⟩

theorem output (h : s.IsUtf8) {ls : List Bytes} (hls : ∀ line ∈ ls, isValid line) :
    isValid (s.output ls) := by
  refine isValid_flatten fun text htext => ?_
  obtain ⟨e, he, rfl⟩ := List.mem_map.mp htext
  exact isValid_flatten (h.effects hls e he).pieces

theorem remarks (h : s.IsUtf8) {ls : List Bytes} (hls : ∀ line ∈ ls, isValid line)
    {d : Diagnostic} (hd : .diagnostic d ∈ s.remarks ls) : d.IsUtf8 := by
  obtain ⟨e, he, hremark⟩ := List.mem_filterMap.mp hd
  exact (h.effects hls e he).diagnostic d hremark

end Session.IsUtf8

end Literate
