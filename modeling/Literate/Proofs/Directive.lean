import Literate.Proofs.Bytes

/-!
# Reading and writing directives

Which directive a line is read as, by its keyword and argument alone. A keyword stands on a line
alone or before a space, and what follows the space is its argument:

    argument? k line = some arg   ↔   line = k.bytes ∧ arg = []  or  line = k.bytes ++ " " ++ arg

`parse?_cases` is the inversion of reading a line: the line is no directive, or one keyword and no
other finds an argument on it, or no keyword does. `parse?_print` says that a directive survives
being written on a line, and `lines_stream` what becomes of it in a stream, where the end of a line
is taken off before it is read.
-/

namespace Literate

open Bytes

/-! ### Keywords -/

/-- The keywords that have a meaning. -/
inductive Keyword where
  | text
  | newline
  | file
  | defn
  | quote
  | endquote
  | use
  | beginChunk
  | endChunk
deriving DecidableEq, Repr

namespace Keyword

/-- The keyword as it stands on a line. -/
def bytes : Keyword → Bytes
  | .text => utf8 "@text"
  | .newline => utf8 "@nl"
  | .file => utf8 "@file"
  | .defn => utf8 "@defn"
  | .quote => utf8 "@quote"
  | .endquote => utf8 "@endquote"
  | .use => utf8 "@use"
  | .beginChunk => utf8 "@begin"
  | .endChunk => utf8 "@end"

/-- The directive with this keyword and the given argument. -/
def directive : Keyword → Bytes → Directive
  | .text, arg => .text arg
  | .newline, _ => .newline
  | .file, arg => .file arg
  | .defn, arg => .defn arg
  | .quote, _ => .quote
  | .endquote, _ => .endquote
  | .use, arg => .use arg
  | .beginChunk, arg => .beginChunk arg
  | .endChunk, arg => .endChunk arg

theorem head?_bytes (k : Keyword) : k.bytes.head? = some atSign := by
  cases k <;> decide

theorem space_not_mem_bytes (k : Keyword) : space ∉ k.bytes := by
  cases k <;> decide

theorem bytes_injective : Function.Injective bytes := by
  intro k k' h
  cases k <;> cases k' <;> first | rfl | exact absurd h (by decide)

end Keyword

/-- The argument that a keyword finds on a line. -/
def argument? (k : Keyword) (line : Bytes) : Option Bytes :=
  if line = k.bytes then some []
  else if k.bytes ++ [space] <+: line then some (line.drop (k.bytes.length + 1))
  else none

theorem argument?_eq_some_iff {k : Keyword} {line arg : Bytes} :
    argument? k line = some arg ↔
      line = k.bytes ∧ arg = [] ∨ line = k.bytes ++ space :: arg := by
  unfold argument?
  split
  · next h =>
    subst h
    simp
  · next hne =>
    split
    · next h =>
      obtain ⟨rest, rfl⟩ := h
      simp
    · next h =>
      simp only [reduceCtorEq, hne, false_and, false_or, false_iff]
      rintro rfl
      exact h ⟨arg, by simp⟩

/-- A keyword finds its argument where the line is cut at its first space. -/
theorem argument?_eq_ite (k : Keyword) (line : Bytes) :
    argument? k line = if (cut space line).1 = k.bytes then some (cut space line).2 else none := by
  apply Option.ext
  intro arg
  have hcut : cut space line = (k.bytes, arg) ↔ _ := cut_eq_iff
  simp only [k.space_not_mem_bytes, not_false_eq_true, true_and] at hcut
  rw [argument?_eq_some_iff, ← hcut, Prod.ext_iff]
  simp [Option.ite_none_right_eq_some]

namespace Directive

/-! ### Lines that are read -/

theorem ofKeyword_bytes (k : Keyword) (arg : Bytes) :
    ofKeyword k.bytes arg = k.directive arg := by
  cases k <;> rfl

theorem ofKeyword_of_forall_ne {word : Bytes} (h : ∀ k : Keyword, word ≠ k.bytes) (arg : Bytes) :
    ofKeyword word arg = .unknown word := by
  unfold ofKeyword
  -- one test after the other fails
  exact (if_neg (h .text)).trans <| (if_neg (h .newline)).trans <| (if_neg (h .file)).trans <|
    (if_neg (h .defn)).trans <| (if_neg (h .quote)).trans <| (if_neg (h .endquote)).trans <|
    (if_neg (h .use)).trans <| (if_neg (h .beginChunk)).trans <| if_neg (h .endChunk)

theorem parse?_eq_none_iff {line : Bytes} : parse? line = none ↔ line.head? ≠ some atSign := by
  simp [parse?]

theorem head?_of_parse? {line : Bytes} {d : Directive} (h : parse? line = some d) :
    line.head? = some atSign := by
  by_contra hat
  rw [parse?_eq_none_iff.mpr hat] at h
  cases h

/-- No keyword finds an argument on a line that is no directive. -/
theorem argument?_of_parse?_none {line : Bytes} (h : parse? line = none) (k : Keyword) :
    argument? k line = none := by
  rw [parse?_eq_none_iff] at h
  rw [Option.eq_none_iff_forall_ne_some]
  intro arg harg
  apply h
  rcases argument?_eq_some_iff.mp harg with ⟨rfl, -⟩ | rfl
  · exact k.head?_bytes
  · rw [List.head?_append, k.head?_bytes]
    rfl

/-- What a line can be: no directive, a directive whose keyword and no other finds its argument on
the line, or a directive that no keyword finds. -/
theorem parse?_cases (line : Bytes) :
    (parse? line = none ∧ ∀ k, argument? k line = none) ∨
      (∃ k arg, parse? line = some (Keyword.directive k arg) ∧
        ∀ k', argument? k' line = if k' = k then some arg else none) ∨
      ∃ word, parse? line = some (.unknown word) ∧ ∀ k, argument? k line = none := by
  by_cases hat : line.head? = some atSign
  · right
    rw [parse?, if_pos hat]
    by_cases hk : ∃ k : Keyword, (cut space line).1 = k.bytes
    · obtain ⟨k, hk⟩ := hk
      left
      -- the word before the first space is that of one keyword only
      refine ⟨k, (cut space line).2, by rw [hk, ofKeyword_bytes], fun k' => ?_⟩
      rw [argument?_eq_ite, hk]
      simp only [Keyword.bytes_injective.eq_iff, eq_comm]
    · right
      rw [not_exists] at hk
      refine ⟨_, by rw [ofKeyword_of_forall_ne hk], fun k => ?_⟩
      rw [argument?_eq_ite, if_neg (hk k)]
  · have hnone := parse?_eq_none_iff.mpr hat
    exact .inl ⟨hnone, argument?_of_parse?_none hnone⟩

/-! ### Lines that are written -/

/-- Does the keyword of a directive have a meaning? -/
def isKnown : Directive → Bool
  | .unknown _ => false
  | _ => true

theorem parse?_append (k : Keyword) (arg : Bytes) :
    parse? (k.bytes ++ space :: arg) = some (k.directive arg) := by
  have hhead : (k.bytes ++ space :: arg).head? = some atSign := by
    rw [List.head?_append, k.head?_bytes]
    rfl
  rw [parse?, if_pos hhead, cut_append_cons k.space_not_mem_bytes, ofKeyword_bytes]

/-- A directive with a meaning is read back from the line that stands for it. -/
theorem parse?_print {d : Directive} (h : d.isKnown) : parse? d.print = some d := by
  cases d with
  | text s => exact parse?_append .text s
  | newline => decide
  | file name => exact parse?_append .file name
  | defn name => exact parse?_append .defn name
  | quote => decide
  | endquote => decide
  | use name => exact parse?_append .use name
  | beginChunk arg => exact parse?_append .beginChunk arg
  | endChunk arg => exact parse?_append .endChunk arg
  | unknown word => cases h

/-- What a directive carries besides its keyword. -/
def payload : Directive → Bytes
  | .text arg | .file arg | .defn arg | .use arg | .beginChunk arg | .endChunk arg => arg
  | .newline | .quote | .endquote => []
  | .unknown keyword => keyword

/-- A control character on the line of a directive stands in what it carries. -/
theorem mem_payload_of_mem_print {d : Directive} {b : UInt8} (hb : b < space)
    (h : b ∈ d.print) : b ∈ d.payload := by
  cases d with
  | newline => exact absurd hb (not_lt_space_of_mem (by decide) h)
  | quote => exact absurd hb (not_lt_space_of_mem (by decide) h)
  | endquote => exact absurd hb (not_lt_space_of_mem (by decide) h)
  | unknown word => exact h
  | text arg | file arg | defn arg | use arg | beginChunk arg | endChunk arg =>
      refine (List.mem_append.mp h).resolve_left fun hmem => ?_
      exact absurd hb (not_lt_space_of_mem (by decide) hmem)

/-! ### Streams that are read back -/

/-- The directive with the same keyword that carries something else. -/
def mapPayload (f : Bytes → Bytes) : Directive → Directive
  | .text arg => .text (f arg)
  | .newline => .newline
  | .file arg => .file (f arg)
  | .defn arg => .defn (f arg)
  | .quote => .quote
  | .endquote => .endquote
  | .use arg => .use (f arg)
  | .beginChunk arg => .beginChunk (f arg)
  | .endChunk arg => .endChunk (f arg)
  | .unknown keyword => .unknown (f keyword)

theorem getLast?_print (d : Directive) :
    d.print.getLast? = some cr ↔ d.payload.getLast? = some cr := by
  -- a keyword and the space after it end in neither, so an empty argument changes nothing
  have happend (start arg : Bytes) (hstart : start.getLast? ≠ some cr) :
      (start ++ arg).getLast? = some cr ↔ arg.getLast? = some cr := by
    rw [List.getLast?_append]
    cases arg.getLast? <;> simp [hstart]
  cases d with
  | text arg | file arg | defn arg | use arg | beginChunk arg | endChunk arg =>
      exact happend _ arg (by decide)
  | newline | quote | endquote => decide
  | unknown keyword => exact Iff.rfl

/-- A carriage return that a line loses at its end is one that its directive carries at the end. -/
theorem trimCr_print (d : Directive) : trimCr d.print = (d.mapPayload trimCr).print := by
  cases d with
  | text arg | file arg | defn arg | use arg | beginChunk arg | endChunk arg =>
      by_cases harg : arg = []
      · subst harg
        decide
      · exact trimCr_append harg _
  | newline | quote | endquote => decide
  | unknown keyword => rfl

/-- A stream is read back as its directives, but each of them loses the carriage return it may end
in. -/
theorem lines_stream {ds : List Directive} (h : ∀ d ∈ ds, lf ∉ d.print) :
    lines (stream ds) = (ds.map (mapPayload trimCr)).map print := by
  have hstream : stream ds = (ds.map print).flatMap (· ++ [lf]) := by
    rw [stream, List.flatMap_map]
  have hraw : rawLines (stream ds) = ds.map print := by
    rw [hstream]
    apply rawLines_unlines
    intro line hline
    obtain ⟨d, hd, rfl⟩ := List.mem_map.mp hline
    exact h d hd
  rw [lines, hraw, List.map_map, List.map_map]
  apply List.map_congr_left
  intro d _
  exact trimCr_print d

/-- Nothing is lost exactly if no directive carries a carriage return at its end. -/
theorem lines_stream_eq_iff {ds : List Directive} (h : ∀ d ∈ ds, lf ∉ d.print) :
    lines (stream ds) = ds.map print ↔ ∀ d ∈ ds, d.payload.getLast? ≠ some cr := by
  rw [lines_stream h, List.map_map, List.map_inj_left]
  apply forall₂_congr
  intro d _
  show (d.mapPayload trimCr).print = d.print ↔ _
  rw [← trimCr_print, trimCr_eq_self_iff]
  exact not_congr d.getLast?_print

end Directive

end Literate
