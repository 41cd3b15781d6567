import Literate.Http.Service
import Literate.Proofs.Path.Extension
import Literate.Proofs.Text.Utf8

/-!
# The format of an upload

The command line and the service both go by the file name, but the service goes by the safe one:

    prog.nw  ──▶  prog.nw, noweb        prog..nw  ──▶  prog_nw, tagged

So they agree except on noweb source that has an even number of dots before its extension, which the
service takes for a tagged stream (`Format.ofFileName_sanitize`).
-/

namespace Literate

open Bytes Text Literate.Path

/-! ### Lower case -/

/-- An ASCII byte that is in lower case already stays. -/
theorem Text.mem_lower {b : UInt8} (hb : b < 0x80)
    (hsame : lowerChar (Char.ofNat b.toNat) = Char.ofNat b.toNat) {s : Bytes} (h : b ∈ s) :
    b ∈ lower s := by
  rw [← encode_decode s] at h
  obtain ⟨g, hg, hbytes⟩ := List.mem_flatMap.mp h
  obtain rfl := eq_asciiGlyph_of_mem_bytes hb hg hbytes
  refine List.mem_flatMap.mpr ⟨_, hg, ?_⟩
  show b ∈ encodeChar (lowerChar (Char.ofNat b.toNat))
  rw [hsame]
  exact hbytes

theorem Text.lower_dot (word : Bytes) : lower (dot :: word) = dot :: lower word := by
  rw [lower, decode_cons_ascii (by decide), List.flatMap_cons]
  rfl

namespace Format

/-! ### Names of noweb source -/

/-- Is this an extension of noweb source? -/
def isNowebExt (extension : Bytes) : Bool :=
  lower extension = utf8 ".nw" || lower extension = utf8 ".noweb"

theorem isNowebExt_nil : isNowebExt [] = false := by decide +kernel

theorem isNowebName_eq (name : Bytes) : isNowebName name = isNowebExt (ext name) := rfl

/-- The extension of noweb source is one dot and letters. -/
theorem not_mem_of_isNowebExt {word : Bytes} (h : isNowebExt (dot :: word)) :
    ∀ b ∈ [dot, slash, backslash, underscore], b ∉ word := by
  have hletters : lower word = utf8 "nw" ∨ lower word = utf8 "noweb" := by
    rw [isNowebExt, lower_dot, Bool.or_eq_true, decide_eq_true_eq, decide_eq_true_eq] at h
    exact h.imp List.tail_eq_of_cons_eq List.tail_eq_of_cons_eq
  have hapart : ∀ b ∈ [dot, slash, backslash, underscore],
      (b < 0x80 ∧ lowerChar (Char.ofNat b.toNat) = Char.ofNat b.toNat) ∧
        b ∉ utf8 "nw" ∧ b ∉ utf8 "noweb" := by
    rw [List.forall_mem_cons, List.forall_mem_cons, List.forall_mem_cons, List.forall_mem_singleton]
    decide
  intro b hb hmem
  obtain ⟨⟨hascii, hsame⟩, hnw, hnoweb⟩ := hapart b hb
  have hlower := mem_lower hascii hsame hmem
  rcases hletters with hletters | hletters
  · exact hnw (hletters ▸ hlower)
  · exact hnoweb (hletters ▸ hlower)

theorem isNowebName_append {word : Bytes} (hdot : dot ∉ word) (front : Bytes) :
    isNowebName (front ++ dot :: word) = isNowebExt (dot :: word) := by
  rw [isNowebName_eq, ext_append hdot]
  split
  · next hslash =>
    symm
    rw [isNowebExt_nil, Bool.eq_false_iff]
    intro h
    exact not_mem_of_isNowebExt h slash (by simp) hslash
  · rfl

theorem isNowebName_of_dot_not_mem {name : Bytes} (h : dot ∉ name.rtakeWhile (· != slash)) :
    isNowebName name = false := by
  rw [isNowebName_eq, ext_of_dot_not_mem h, isNowebExt_nil]

/-- What follows the last dot of such a name starts before the underscore. -/
theorem isNowebName_of_underscore {word : Bytes} (hword : dot ∉ word) (front : Bytes) :
    isNowebName (front ++ underscore :: word) = false := by
  by_cases hmem : dot ∈ front ++ underscore :: word
  · obtain ⟨before, after, hname, hafter⟩ := exists_append_of_dot_mem hmem
    rw [hname, isNowebName_append hafter, Bool.eq_false_iff]
    intro h
    have hplain := not_mem_of_isNowebExt h underscore (by simp)
    have hsuffix : dot :: after <:+ front ++ underscore :: word :=
      hname ▸ List.suffix_append before (dot :: after)
    rcases List.suffix_or_suffix_of_suffix hsuffix (List.suffix_append front _) with h | h
    · rcases List.mem_cons.mp (h.subset List.mem_cons_self) with hdot | hdot
      · exact absurd hdot (by decide)
      · exact hword hdot
    · rcases List.mem_cons.mp (h.subset List.mem_cons_self) with hunder | hunder
      · exact absurd hunder (by decide)
      · exact hplain hunder
  · apply isNowebName_of_dot_not_mem
    intro h
    exact hmem ((List.rtakeWhile_suffix _ _).subset h)

theorem isNowebExt_replaceByte (word : Bytes) :
    isNowebExt (dot :: replaceByte backslash underscore word) = isNowebExt (dot :: word) := by
  by_cases hmem : backslash ∈ word
  · have hunder : underscore ∈ replaceByte backslash underscore word :=
      List.mem_map.mpr ⟨backslash, hmem, if_pos rfl⟩
    rw [Bool.eq_false_iff.mpr fun h => not_mem_of_isNowebExt h underscore (by simp) hunder,
      Bool.eq_false_iff.mpr fun h => not_mem_of_isNowebExt h backslash (by simp) hmem]
  · rw [replaceByte_of_not_mem hmem]

/-! ### The safe name -/

/-- **A safe name is one of noweb source exactly if the name is and the dots before its extension
are odd in number.** -/
theorem isNowebName_sanitize {name : Bytes} (hne : name ≠ []) (hlast : name.getLast? ≠ some slash) :
    isNowebName (sanitize name) = (isNowebName name && extDots name % 2 == 1) := by
  have hbase := base_eq_rtakeWhile hne hlast
  have hsuffix : base name <:+ name := hbase ▸ List.rtakeWhile_suffix (· != slash) name
  have hsafe : isNowebName (sanitize name) = isNowebName (undotted (flat name)) := by
    rw [sanitize_eq hne]
    split
    · next hhere =>
      rw [hhere]
      decide +kernel
    · rfl
  rw [hsafe]
  by_cases hdot : dot ∈ base name
  · obtain ⟨word, hends⟩ := exists_endsIn name
    obtain ⟨dots, hdots⟩ : ∃ dots, extDots name = dots + 1 :=
      Nat.exists_eq_succ_of_ne_zero fun hzero =>
        dot_not_mem_of_extDots hzero (hsuffix.subset hdot)
    rw [hdots] at hends ⊢
    have hslash := hends.slash_not_mem hne hlast hdot
    have hflat := hends.flat hslash hne hlast
    obtain ⟨front, hname⟩ := hends.exists_append
    obtain ⟨before, hundotted⟩ := hflat.exists_undotted
    rw [hundotted, hname, isNowebName_append hends.dot_not_mem]
    rcases Nat.mod_two_eq_zero_or_one (dots + 1) with heven | hodd
    · obtain ⟨pairs, hpairs⟩ : ∃ pairs, (dots + 1) / 2 = pairs + 1 := ⟨(dots - 1) / 2, by omega⟩
      have hunder := isNowebName_of_underscore hflat.dot_not_mem
        (before ++ List.replicate pairs underscore)
      rw [heven, hpairs, List.replicate_succ']
      simpa using hunder
    · have hkept := isNowebName_append hflat.dot_not_mem
        (before ++ List.replicate ((dots + 1) / 2) underscore)
      rw [hodd, ← isNowebExt_replaceByte, ← hkept]
      simp
  · have hkept : dot ∉ undotted (flat name) := by
      intro hmem
      rcases mem_undotted hmem with hmem | hmem
      · rcases mem_flat hmem with ⟨hmem, -⟩ | hmem
        · exact hdot hmem
        · exact absurd hmem (by decide)
      · exact absurd hmem (by decide)
    rw [isNowebName_of_dot_not_mem fun hmem => hkept ((List.rtakeWhile_suffix _ _).subset hmem),
      isNowebName_of_dot_not_mem (hbase ▸ hdot), Bool.false_and]

/-- **The service and the command line take a file name for the same format, unless it is one of
noweb source with an even number of dots before its extension.** An upload of such a name is taken
for a tagged stream, if it asks for no format. -/
theorem ofFileName_sanitize (name : Bytes) (hne : name ≠ []) (hlast : name.getLast? ≠ some slash) :
    (ofFileName (sanitize name) = ofFileName name ↔
      ¬ (ofFileName name = .noweb ∧ extDots name % 2 = 0)) ∧
    ∀ target : Http.Target, target.parameter (utf8 "format") = [] →
      target.parameter (utf8 "filename") = name →
      Http.Service.uploadFormat target =
        .ok (if extDots name % 2 = 0 then .tagged else ofFileName name) := by
  have hnoweb := isNowebName_sanitize hne hlast
  have hsafe : ofFileName (sanitize name) =
      if extDots name % 2 = 0 then .tagged else ofFileName name := by
    rw [ofFileName, hnoweb, ofFileName]
    rcases Nat.mod_two_eq_zero_or_one (extDots name) with h | h <;> simp [h]
  refine ⟨?_, ?_⟩
  · rw [hsafe]
    split
    · next heven => cases ofFileName name <;> simp [heven]
    · next hodd => simp [hodd]
  · intro target hasked hfile
    rw [Http.Service.uploadFormat, hasked, hfile, ← hsafe]
    rfl

/-- Three dots leave one, and two leave none, wherever else there are dots. -/
theorem ofFileName_sanitize_dots :
    let name := utf8 "d..e/a..b...NoWeb"
    let upload (query : Bytes) : Http.Target :=
      { sentPath := utf8 "/api/translate", path := utf8 "/api/translate", query }
    ofFileName (sanitize name) = ofFileName name ∧ ofFileName name = .noweb ∧
      Http.Service.uploadFormat (upload (utf8 "filename=d..e/a..b...NoWeb")) = .ok .noweb ∧
      Http.Service.uploadFormat (upload (utf8 "filename=%5C....nw&format=")) = .ok .tagged := by
  intro name upload
  obtain ⟨hsame, hupload⟩ := ofFileName_sanitize name (by decide) (by decide)
  obtain ⟨-, hupload'⟩ := ofFileName_sanitize (utf8 "\\....nw") (by decide) (by decide)
  have hnoweb : ofFileName name = .noweb := by decide +kernel
  refine ⟨hsame.mpr (by decide +kernel), hnoweb, ?_, ?_⟩
  · rw [hupload _ (by decide +kernel) (by decide +kernel), hnoweb, if_neg (by decide)]
  · exact hupload' _ (by decide +kernel) (by decide +kernel)

/-- Two dots before the extension are taken for the way up, and with them the extension goes. -/
theorem ofFileName_sanitize_ne :
    let name := utf8 "a..nw"
    name ≠ [] ∧ name.getLast? ≠ some slash ∧ ofFileName (sanitize name) ≠ ofFileName name := by
  decide +kernel

end Format

end Literate
