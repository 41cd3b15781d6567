import Literate.Proofs.Bytes
import Literate.Proofs.Json.Reader
import Literate.Proofs.Text.Utf8

/-!
# Reading what was written

Whichever escapes the writer uses, a value that it writes is read back, except that what is not
UTF-8 in a string has become U+FFFD (`read?_render`). The proof follows the value: what one
character, one string, one value is written as is read as just that, and what follows it is left.
-/

namespace Literate.Json

open Bytes Text

variable {e : Escapes}

/-! ### Strings -/

theorem before_before (s t : Bytes) (read : Option (Bytes × Bytes)) :
    before s (before t read) = before (s ++ t) read := by
  cases read with
  | none => rfl
  | some r => simp [before]

/-- May this byte stand in a string as it is? -/
def isPlain (b : UInt8) : Bool := !(b == 34) && !(b < 32) && !(b == 92)

theorem before_nil (read : Option (Bytes × Bytes)) : before [] read = read := by
  cases read with
  | none => rfl
  | some r => rfl

theorem readString_plain {s : Bytes} (h : ∀ b ∈ s, isPlain b) (rest : Bytes) :
    readString (s ++ rest) = before s (readString rest) := by
  induction s with
  | nil => exact (before_nil _).symm
  | cons b s ih =>
      have hb := h b List.mem_cons_self
      simp only [isPlain, Bool.and_eq_true, Bool.not_eq_true', beq_eq_false_iff_ne,
        decide_eq_false_iff_not] at hb
      rw [List.cons_append, readString.eq_def]
      dsimp only
      rw [if_neg hb.1.1, if_neg hb.1.2, if_pos hb.2,
        ih fun c hc => h c (List.mem_cons_of_mem b hc), before_before, List.singleton_append]

theorem readString_short {x b : UInt8} (h : shortEscape? x = some b) (rest : Bytes) :
    readString (92 :: x :: rest) = before [b] (readString rest) := by
  have hx : x ≠ 117 := by
    rintro rfl
    rw [show shortEscape? 117 = none by decide] at h
    cases h
  rw [readString.eq_def]
  dsimp only
  rw [if_neg (by decide), if_neg (by decide), if_neg (by decide)]
  split
  · next heq => exact absurd (List.cons.inj heq).1 hx
  · next heq =>
    obtain ⟨rfl, rfl⟩ := List.cons.inj heq
    rw [h]
  · next heq => cases heq

theorem hexValue?_hexDigit {d : Nat} (h : d < 16) :
    hexValue? (hexDigit d) = some (UInt8.ofNat d) := by
  have hall : ∀ d < 16, hexValue? (hexDigit d) = some (UInt8.ofNat d) := by decide
  exact hall d h

theorem codeUnit?_hex {n : Nat} (h : n < 0x10000) :
    codeUnit? (hexDigit (n / 4096 % 16)) (hexDigit (n / 256 % 16)) (hexDigit (n / 16 % 16))
      (hexDigit (n % 16)) = some n := by
  have hdigit (m : Nat) : hexValue? (hexDigit (m % 16)) = some (UInt8.ofNat (m % 16)) :=
    hexValue?_hexDigit (Nat.mod_lt m (by decide))
  have hvalue (m : Nat) : (UInt8.ofNat (m % 16)).toNat = m % 16 :=
    toNat_ofNat_of_lt (by omega)
  simp only [codeUnit?, hdigit, hvalue, Option.bind_eq_bind, Option.bind_some]
  congr 1
  omega

theorem readString_unicodeEscape {c : Char} (h : c.toNat < 0xD800) (rest : Bytes) :
    readString (unicodeEscape c.toNat ++ rest) = before (encodeChar c) (readString rest) := by
  have hhex : unicodeEscape c.toNat = [92, 117, hexDigit (c.toNat / 4096 % 16),
      hexDigit (c.toNat / 256 % 16), hexDigit (c.toNat / 16 % 16), hexDigit (c.toNat % 16)] := by
    simp only [unicodeEscape, hex, Nat.div_div_eq_div_mul]
    rfl
  rw [hhex]
  simp only [List.cons_append, List.nil_append]
  rw [readString.eq_def]
  dsimp only
  rw [if_neg (by decide), if_neg (by decide), if_neg (by decide)]
  simp only [codeUnit?_hex (show c.toNat < 0x10000 by omega)]
  rw [if_pos (.inl h), Char.ofNat_toNat]

theorem encodeChar_of_toNat_eq {c : Char} {b : UInt8} (hb : b.toNat ≤ 127) (h : c.toNat = b.toNat) :
    encodeChar c = [b] := by
  rw [encodeChar_eq, h, if_pos hb, UInt8.ofNat_toNat]

theorem readString_shortChar {c : Char} {x b : UInt8} (hx : shortEscape? x = some b)
    (hb : b.toNat ≤ 127) (h : c.toNat = b.toNat) (rest : Bytes) :
    readString ([92, x] ++ rest) = before (encodeChar c) (readString rest) := by
  rw [encodeChar_of_toNat_eq hb h]
  exact readString_short hx rest

theorem isPlain_of_mem_encodeChar {c : Char} (hlow : ¬ c.toNat < 32) (hquote : c.toNat ≠ 34)
    (hslash : c.toNat ≠ 92) {b : UInt8} (hb : b ∈ encodeChar c) : isPlain b := by
  have hbyte : ¬ b.toNat < 32 ∧ b.toNat ≠ 34 ∧ b.toNat ≠ 92 := by
    by_cases hc : c.toNat ≤ 127
    · rw [encodeChar_eq, if_pos hc, List.mem_singleton] at hb
      rw [hb, toNat_ofNat_of_lt (by omega)]
      exact ⟨hlow, hquote, hslash⟩
    · have := le_of_mem_encodeChar (Nat.lt_of_not_le hc) hb
      omega
  obtain ⟨hlow', hquote', hslash'⟩ := hbyte
  simp only [isPlain, Bool.and_eq_true, Bool.not_eq_true', beq_eq_false_iff_ne,
    decide_eq_false_iff_not, UInt8.lt_iff_toNat_lt]
  refine ⟨⟨?_, hlow'⟩, ?_⟩
  · rintro rfl
    exact hquote' rfl
  · rintro rfl
    exact hslash' rfl

/-- **One character is read back, however it is written.** -/
theorem readString_escapeChar (c : Char) (rest : Bytes) :
    readString (escapeChar e c ++ rest) = before (encodeChar c) (readString rest) := by
  unfold escapeChar
  dsimp only
  split
  · next hself =>
    rcases hself with hself | hself
    · rw [encodeChar_of_toNat_eq (b := 34) (by decide) hself]
      exact readString_short rfl rest
    · rw [encodeChar_of_toNat_eq (b := 92) (by decide) hself]
      exact readString_short rfl rest
  next hself =>
  split
  · next hn => exact readString_shortChar (x := 110) (b := 10) rfl (by decide) hn rest
  split
  · next hn => exact readString_shortChar (x := 114) (b := 13) rfl (by decide) hn rest
  split
  · next hn => exact readString_shortChar (x := 116) (b := 9) rfl (by decide) hn rest
  split
  · next hn => exact readString_shortChar (x := 98) (b := 8) rfl (by decide) hn.1 rest
  split
  · next hn => exact readString_shortChar (x := 102) (b := 12) rfl (by decide) hn.1 rest
  split
  · next hn => exact readString_unicodeEscape (by omega) rest
  next hlow =>
  split
  · next hn => exact readString_unicodeEscape (by omega) rest
  split
  · next hn => exact readString_unicodeEscape (by omega) rest
  · rw [not_or] at hself
    exact readString_plain (fun b => isPlain_of_mem_encodeChar hlow hself.1 hself.2) rest

theorem readString_escape (gs : List Glyph) (rest : Bytes) :
    readString (gs.flatMap (fun g => escapeChar e g.shown) ++ 34 :: rest) =
      some (gs.flatMap fun g => encodeChar g.shown, rest) := by
  induction gs with
  | nil =>
      rw [List.flatMap_nil, List.nil_append, readString.eq_def]
      rfl
  | cons g gs ih =>
      rw [List.flatMap_cons, List.append_assoc, readString_escapeChar, ih]
      rfl

/-- A string that was written is read back, with U+FFFD for what is not UTF-8. -/
theorem readString_renderString (s rest : Bytes) :
    ∃ inside, renderString e s ++ rest = 34 :: inside ∧
      readString inside = some (repair s, rest) := by
  refine ⟨(decode s).flatMap (fun g => escapeChar e g.shown) ++ 34 :: rest, ?_, ?_⟩
  · simp [renderString]
  · exact readString_escape (decode s) rest

/-! ### Numbers -/

/-- A run of bytes ends where the next byte does not belong to it. -/
theorem takeWhile_dropWhile_append {p : UInt8 → Bool} {s rest : Bytes} (hs : ∀ b ∈ s, p b)
    (hrest : ∀ b ∈ rest.head?, p b = false) :
    (s ++ rest).takeWhile p = s ∧ (s ++ rest).dropWhile p = rest := by
  rw [List.takeWhile_append_of_pos hs, List.dropWhile_append_of_pos hs]
  cases rest with
  | nil => simp
  | cons b rest => simp [hrest b rfl]

theorem isNumeric_of_isDigit {b : UInt8} (h : isDigit b) : isNumeric b := by
  simp [isNumeric, h]

theorem isNumeric_of_isDigits {s : Bytes} (h : isDigits s) {b : UInt8} (hb : b ∈ s) :
    isNumeric b := by
  rw [isDigits, Bool.and_eq_true, List.all_eq_true] at h
  exact isNumeric_of_isDigit (h.2 b hb)

theorem isNumeric_of_isExponent {s : Bytes} (h : isExponent s) {b : UInt8} (hb : b ∈ s) :
    isNumeric b := by
  cases s with
  | nil => cases hb
  | cons x s =>
      rw [isExponent, Bool.and_eq_true, Bool.or_eq_true, beq_iff_eq, beq_iff_eq] at h
      rcases List.mem_cons.mp hb with rfl | hb
      · rcases h.1 with rfl | rfl <;> rfl
      · split at h
        · next hsign =>
          cases s with
          | nil => cases hb
          | cons y s =>
              rcases List.mem_cons.mp hb with rfl | hb
              · rcases hsign with hsign | hsign <;> cases hsign <;> rfl
              · exact isNumeric_of_isDigits h.2 hb
        · exact isNumeric_of_isDigits h.2 hb

theorem isNumeric_of_isFraction {s : Bytes} (h : isFraction s) {b : UInt8} (hb : b ∈ s) :
    isNumeric b := by
  unfold isFraction at h
  split at h
  · next hpoint =>
    cases s with
    | nil => cases hb
    | cons x s =>
        cases hpoint
        rw [Bool.and_eq_true] at h
        rcases List.mem_cons.mp hb with rfl | hb
        · rfl
        · rw [List.drop_one, List.tail_cons] at h
          rw [← List.takeWhile_append_dropWhile (p := isDigit) (l := s), List.mem_append] at hb
          rcases hb with hb | hb
          · exact isNumeric_of_isDigits h.1 hb
          · exact isNumeric_of_isExponent h.2 hb
  · exact isNumeric_of_isExponent h hb

theorem isNumeric_of_isNumber {s : Bytes} (h : isNumber s) {b : UInt8} (hb : b ∈ s) :
    isNumeric b := by
  have hunsigned (u : Bytes)
      (hu : isWhole (u.takeWhile isDigit) && isFraction (u.dropWhile isDigit)) (hbu : b ∈ u) : isNumeric b := by
    rw [Bool.and_eq_true] at hu
    rw [← List.takeWhile_append_dropWhile (p := isDigit) (l := u), List.mem_append] at hbu
    rcases hbu with hbu | hbu
    · exact isNumeric_of_isDigit (List.mem_takeWhile_imp hbu)
    · exact isNumeric_of_isFraction hu.2 hbu
  unfold isNumber at h
  dsimp only at h
  split at h
  · next hminus =>
    cases s with
    | nil => cases hb
    | cons x s =>
        cases hminus
        rcases List.mem_cons.mp hb with rfl | hb
        · rfl
        · exact hunsigned s h hb
  · exact hunsigned s h hb

theorem ne_of_isNumeric {b x : UInt8} (h : isNumeric b) (hx : isNumeric x = false) : b ≠ x := by
  rintro rfl
  rw [h] at hx
  cases hx

theorem isBlank_of_isNumeric {b : UInt8} (h : isNumeric b) : isBlank b = false := by
  simp [isBlank, ne_of_isNumeric h (x := 32) rfl, ne_of_isNumeric h (x := 9) rfl,
    ne_of_isNumeric h (x := 10) rfl, ne_of_isNumeric h (x := 13) rfl]

theorem ne_nil_of_isNumber {s : Bytes} (h : isNumber s) : s ≠ [] := by
  rintro rfl
  exact absurd h (by decide)

theorem isDigit_head_of_isFraction {s : Bytes} (h : isFraction s) {b : UInt8} (hb : b ∈ s.head?) :
    isDigit b = false := by
  cases s with
  | nil => cases hb
  | cons x s =>
      cases hb
      by_cases hpoint : b = 46
      · rw [hpoint]
        rfl
      · have hexponent : isExponent (b :: s) := by
          unfold isFraction at h
          rwa [if_neg (by simpa using hpoint)] at h
        rw [isExponent, Bool.and_eq_true, Bool.or_eq_true, beq_iff_eq, beq_iff_eq] at hexponent
        rcases hexponent.1 with rfl | rfl <;> rfl

/-- A sign, digits, and what may follow them make a number. -/
theorem isNumber_append {sign whole tail : Bytes} (hsign : sign = [] ∨ sign = [45])
    (hwhole : isWhole whole) (htail : isFraction tail) : isNumber (sign ++ (whole ++ tail)) := by
  have hdigits : ∀ b ∈ whole, isDigit b := by
    rw [isWhole, Bool.and_eq_true, isDigits, Bool.and_eq_true, List.all_eq_true] at hwhole
    exact hwhole.1.2
  obtain ⟨htake, hdrop⟩ := takeWhile_dropWhile_append hdigits fun b =>
    isDigit_head_of_isFraction htail
  have hunsigned : isWhole ((whole ++ tail).takeWhile isDigit) &&
      isFraction ((whole ++ tail).dropWhile isDigit) := by
    rw [htake, hdrop, Bool.and_eq_true]
    exact ⟨hwhole, htail⟩
  rcases hsign with rfl | rfl
  · unfold isNumber
    dsimp only
    rw [List.nil_append, if_neg]
    · exact hunsigned
    · intro hminus
      cases whole with
      | nil => cases hwhole
      | cons x whole =>
          cases hminus
          exact absurd (hdigits 45 List.mem_cons_self) (by decide)
  · exact hunsigned

/-! ### Values -/

/-- All numbers in the value are written as numbers. -/
inductive Proper : Json → Prop
  | null : Proper .null
  | bool (b : Bool) : Proper (.bool b)
  | number {literal : Bytes} : isNumber literal → Proper (.number literal)
  | string (s : Bytes) : Proper (.string s)
  | array {items : List Json} : (∀ v ∈ items, Proper v) → Proper (.array items)
  | object {fields : List (Bytes × Json)} : (∀ f ∈ fields, Proper f.2) → Proper (.object fields)

/-- The value with U+FFFD for what is not UTF-8. -/
def repaired : Json → Json
  | .null => .null
  | .bool b => .bool b
  | .number literal => .number literal
  | .string s => .string (repair s)
  | .array items => .array (items.map fun item => repaired item)
  | .object fields => .object (fields.attach.map fun f => (repair f.1.1, repaired f.1.2))
termination_by v => sizeOf v
decreasing_by
  · rename_i h
    have := List.sizeOf_lt_of_mem h
    simp only [Json.array.sizeOf_spec]
    omega
  · have h := List.sizeOf_lt_of_mem f.2
    have : sizeOf f.1.2 < sizeOf f.1 := by
      cases f.1; simp only [Prod.mk.sizeOf_spec]; omega
    simp only [Json.object.sizeOf_spec]
    omega

theorem render_array (e : Escapes) (items : List Json) :
    render e (.array items) = 91 :: joinCommas (items.map (render e)) ++ [93] := by
  rw [render]

/-- A field as it is written. -/
def renderField (e : Escapes) (f : Bytes × Json) : Bytes :=
  renderString e f.1 ++ 58 :: render e f.2

theorem render_object (e : Escapes) (fields : List (Bytes × Json)) :
    render e (.object fields) = 123 :: joinCommas (fields.map (renderField e)) ++ [125] := by
  rw [render]
  exact congrArg (fun pieces => 123 :: joinCommas pieces ++ [125])
    (@List.attach_map_val _ _ fields (renderField e))

theorem repaired_array (items : List Json) :
    repaired (.array items) = .array (items.map repaired) := by
  rw [repaired]

def repairedField (f : Bytes × Json) : Bytes × Json := (repair f.1, f.2.repaired)

theorem repaired_object (fields : List (Bytes × Json)) :
    repaired (.object fields) = .object (fields.map repairedField) := by
  rw [repaired]
  exact congrArg Json.object (@List.attach_map_val _ _ fields repairedField)

/-- Is `x` read from this piece, whatever comes after it, if no number goes on there? -/
def ReadsAs {α : Type} (one : Bytes → Option (α × Bytes)) (piece : Bytes) (x : α) : Prop :=
  ∀ rest : Bytes, (∀ b ∈ rest.head?, isNumeric b = false) → one (piece ++ rest) = some (x, rest)

theorem skipBlanks_cons {b : UInt8} (h : isBlank b = false) (s : Bytes) :
    skipBlanks (b :: s) = b :: s := by
  rw [skipBlanks, List.dropWhile_cons_of_neg (by simp [h])]

/-! ### Lists -/

section Lists

variable {α β : Type} {one : Bytes → Option (α × Bytes)} {piece : β → Bytes} {value : β → α}
  {close : UInt8}

/-- What comes after one piece of a list: a comma or the end. -/
theorem isNumeric_head_of_commas (piece : β → Bytes) (hclose : isNumeric close = false)
    (xs : List β) (rest : Bytes) :
    ∀ b ∈ (xs.flatMap (fun x => 44 :: piece x) ++ close :: rest).head?, isNumeric b = false := by
  intro b hb
  cases xs with
  | nil =>
      cases hb
      exact hclose
  | cons x xs =>
      cases hb
      rfl

theorem readRest_commas (hblank : isBlank close = false) (hclose : isNumeric close = false)
    (hcomma : close ≠ 44) (rest : Bytes) {xs : List β}
    (h : ∀ x ∈ xs, ReadsAs one (piece x) (value x)) (calls : Nat) (hcalls : xs.length < calls) :
    readRest one close calls (xs.flatMap (fun x => 44 :: piece x) ++ close :: rest) =
      some (xs.map value, rest) := by
  induction xs generalizing calls with
  | nil =>
      obtain ⟨n, rfl⟩ := Nat.exists_eq_add_of_lt hcalls
      rw [readRest, List.flatMap_nil, List.nil_append, skipBlanks_cons hblank]
      dsimp only
      rw [if_pos rfl, List.map_nil]
  | cons x xs ih =>
      obtain ⟨n, rfl⟩ := Nat.exists_eq_add_of_lt hcalls
      have hx := h x List.mem_cons_self _ (isNumeric_head_of_commas piece hclose xs rest)
      have hxs := ih (fun y hy => h y (List.mem_cons_of_mem x hy)) ((x :: xs).length + n)
        (by rw [List.length_cons]; omega)
      rw [readRest, List.flatMap_cons, List.append_assoc, List.cons_append,
        skipBlanks_cons (by rfl)]
      dsimp only
      rw [if_neg (Ne.symm hcomma), if_pos rfl, hx, List.map_cons]
      simp only [Option.bind_eq_bind, Option.bind_some, hxs]

theorem length_le_length_commas (piece : β → Bytes) (xs : List β) :
    xs.length ≤ (xs.flatMap fun x => 44 :: piece x).length := by
  induction xs with
  | nil => exact Nat.le_refl 0
  | cons x xs ih =>
      rw [List.flatMap_cons, List.length_append, List.length_cons, List.length_cons]
      omega

/-- **A list is read back, if each of its pieces is.** -/
theorem readList_commas (hblank : isBlank close = false) (hclose : isNumeric close = false)
    (hcomma : close ≠ 44) (rest : Bytes) {xs : List β}
    (h : ∀ x ∈ xs, ReadsAs one (piece x) (value x))
    (hhead : ∀ x ∈ xs, ∃ b tail, piece x = b :: tail ∧ isBlank b = false ∧ b ≠ close) :
    readList one close (joinCommas (xs.map piece) ++ close :: rest) =
      some (xs.map value, rest) := by
  cases xs with
  | nil =>
      rw [readList, List.map_nil, joinCommas, List.nil_append, skipBlanks_cons hblank,
        List.head?_cons, if_pos rfl]
      rfl
  | cons x xs =>
      obtain ⟨b, tail, hpiece, hb, hbclose⟩ := hhead x List.mem_cons_self
      have hx := h x List.mem_cons_self _ (isNumeric_head_of_commas piece hclose xs rest)
      have hcalls : xs.length < (xs.flatMap (fun x => 44 :: piece x) ++ close :: rest).length := by
        have := length_le_length_commas piece xs
        rw [List.length_append, List.length_cons]
        omega
      have hxs := readRest_commas hblank hclose hcomma rest
        (fun y hy => h y (List.mem_cons_of_mem x hy)) _ hcalls
      have htext : joinCommas ((x :: xs).map piece) ++ close :: rest =
          piece x ++ (xs.flatMap (fun x => 44 :: piece x) ++ close :: rest) := by
        rw [List.map_cons, joinCommas, List.flatMap_map, List.append_assoc]
      have hskip : (skipBlanks (piece x ++
          (xs.flatMap (fun x => 44 :: piece x) ++ close :: rest))).head? = some b := by
        rw [hpiece, List.cons_append, skipBlanks_cons hb]
        rfl
      rw [readList, htext, hskip, if_neg (by simpa using hbclose), hx]
      simp only [Option.bind_eq_bind, Option.bind_some, hxs, List.map_cons]

end Lists

theorem length_le_length_joinCommas {piece : Bytes} {pieces : List Bytes} (h : piece ∈ pieces) :
    piece.length ≤ (joinCommas pieces).length := by
  cases pieces with
  | nil => cases h
  | cons first others =>
      rw [joinCommas, List.length_append]
      rcases List.mem_cons.mp h with rfl | h
      · exact Nat.le_add_right _ _
      · obtain ⟨s, t, rfl⟩ := List.append_of_mem h
        simp only [List.flatMap_append, List.flatMap_cons, List.length_append, List.length_cons]
        omega

/-! ### Values -/

theorem afterPrefix?_cons_of_ne {x b : UInt8} (h : x ≠ b) (start s : Bytes) :
    afterPrefix? (x :: start) (b :: s) = none := by
  simp [afterPrefix?, h]

theorem readAtom_number {literal : Bytes} (h : isNumber literal) :
    ReadsAs readAtom literal (.number literal) := by
  intro rest hrest
  obtain ⟨htake, hdrop⟩ :=
    takeWhile_dropWhile_append (fun b => isNumeric_of_isNumber h) hrest
  cases literal with
  | nil => exact absurd rfl (ne_nil_of_isNumber h)
  | cons b tail =>
      have hb := isNumeric_of_isNumber h List.mem_cons_self
      have hnone (start : Bytes) (x : UInt8) (hx : isNumeric x = false) :
          afterPrefix? (x :: start) (b :: tail ++ rest) = none :=
        afterPrefix?_cons_of_ne (ne_of_isNumeric hb hx).symm start (tail ++ rest)
      rw [readAtom, show utf8 "null" = 110 :: utf8 "ull" from rfl,
        show utf8 "true" = 116 :: utf8 "rue" from rfl,
        show utf8 "false" = 102 :: utf8 "alse" from rfl, hnone _ 110 rfl, hnone _ 116 rfl,
        hnone _ 102 rfl]
      dsimp only
      rw [htake, hdrop, if_pos h]

/-- No value is written with a blank or a closing bracket in front. -/
theorem head?_render {v : Json} (h : v.Proper) :
    ∃ b tail, render e v = b :: tail ∧ isBlank b = false ∧ b ≠ 93 := by
  cases h with
  | null => exact ⟨110, utf8 "ull", by rw [render]; rfl, by decide, by decide⟩
  | bool b =>
      cases b with
      | true => exact ⟨116, utf8 "rue", by rw [render]; rfl, by decide, by decide⟩
      | false => exact ⟨102, utf8 "alse", by rw [render]; rfl, by decide, by decide⟩
  | @number literal hnumber =>
      cases literal with
      | nil => exact absurd rfl (ne_nil_of_isNumber hnumber)
      | cons b tail =>
          have hnumeric := isNumeric_of_isNumber hnumber List.mem_cons_self
          exact ⟨b, tail, by rw [render], isBlank_of_isNumeric hnumeric,
            ne_of_isNumeric hnumeric rfl⟩
  | string s => exact ⟨34, _, by rw [render, renderString]; rfl, by decide, by decide⟩
  | array _ => exact ⟨91, _, by rw [render_array]; rfl, by decide, by decide⟩
  | object _ => exact ⟨123, _, by rw [render_object]; rfl, by decide, by decide⟩

theorem ReadsAs.field {value : Bytes → Option (Json × Bytes)} {piece : Bytes} {v : Json}
    (h : ReadsAs value piece v) (name : Bytes) :
    ReadsAs (readField value) (renderString e name ++ 58 :: piece) (repair name, v) := by
  intro rest hrest
  obtain ⟨inside, htext, hname⟩ := readString_renderString (e := e) name (58 :: piece ++ rest)
  rw [List.append_assoc, htext, readField, skipBlanks_cons (by rfl)]
  dsimp only
  rw [if_pos rfl, hname]
  simp only [Option.bind_eq_bind, Option.bind_some, List.cons_append]
  rw [skipBlanks_cons (by rfl)]
  dsimp only
  rw [if_pos rfl, h rest hrest]
  rfl

theorem readValue_atom {b : UInt8} (hblank : isBlank b = false) (hquote : b ≠ 34) (harray : b ≠ 91)
    (hobject : b ≠ 123) (calls : Nat) (s : Bytes) :
    readValue (calls + 1) (b :: s) = readAtom (b :: s) := by
  rw [readValue, skipBlanks_cons hblank]
  dsimp only
  rw [if_neg hquote, if_neg harray, if_neg hobject]

theorem readValue_string (calls : Nat) (s : Bytes) :
    ReadsAs (readValue (calls + 1)) (renderString e s) (.string (repair s)) := by
  intro rest _
  obtain ⟨inside, htext, hread⟩ := readString_renderString (e := e) s rest
  rw [htext, readValue, skipBlanks_cons (by rfl)]
  dsimp only
  rw [if_pos rfl, hread]
  rfl

theorem readValue_array {calls : Nat} {items : List Json} (hitems : ∀ v ∈ items, v.Proper)
    (h : ∀ v ∈ items, ReadsAs (readValue calls) (render e v) v.repaired) :
    ReadsAs (readValue (calls + 1)) (render e (.array items)) (repaired (.array items)) := by
  intro rest _
  have hlist : readList (readValue calls) 93 (joinCommas (items.map (render e)) ++ 93 :: rest) =
      some (items.map repaired, rest) :=
    readList_commas rfl rfl (by decide) rest h fun v hv => head?_render (hitems v hv)
  rw [render_array, List.cons_append, List.cons_append, List.append_assoc, List.singleton_append,
    readValue, skipBlanks_cons (by rfl)]
  dsimp only
  rw [if_neg (by decide), if_pos rfl, hlist, repaired_array]
  rfl

theorem readValue_object {calls : Nat} {fields : List (Bytes × Json)}
    (h : ∀ f ∈ fields, ReadsAs (readValue calls) (render e f.2) f.2.repaired) :
    ReadsAs (readValue (calls + 1)) (render e (.object fields)) (repaired (.object fields)) := by
  intro rest _
  have hlist : readList (readField (readValue calls)) 125
      (joinCommas (fields.map (renderField e)) ++ 125 :: rest) =
        some (fields.map repairedField, rest) :=
    readList_commas rfl rfl (by decide) rest (fun f hf => (h f hf).field f.1)
      fun f _ => ⟨34, _, by rw [renderField, renderString]; rfl, by decide, by decide⟩
  rw [render_object, List.cons_append, List.cons_append, List.append_assoc, List.singleton_append,
    readValue, skipBlanks_cons (by rfl)]
  dsimp only
  rw [if_neg (by decide), if_neg (by decide), if_pos rfl, hlist, repaired_object]
  rfl

/-- **Every value is read back.** -/
theorem Proper.reads {v : Json} (h : v.Proper) {calls : Nat}
    (hcalls : (render e v).length ≤ calls) :
    ReadsAs (readValue (calls + 1)) (render e v) v.repaired := by
  induction h generalizing calls with
  | null =>
      intro rest _
      rw [render, repaired]
      rfl
  | bool b =>
      intro rest _
      cases b with
      | true =>
          rw [render, repaired]
          rfl
      | false =>
          rw [render, repaired]
          rfl
  | @number literal h =>
      intro rest hrest
      rw [render, repaired, ← readAtom_number h rest hrest]
      cases literal with
      | nil => exact absurd rfl (ne_nil_of_isNumber h)
      | cons b tail =>
          have hb := isNumeric_of_isNumber h List.mem_cons_self
          exact readValue_atom (isBlank_of_isNumeric hb) (ne_of_isNumeric hb rfl)
            (ne_of_isNumeric hb rfl) (ne_of_isNumeric hb rfl) calls _
  | string s =>
      rw [render, repaired]
      exact readValue_string calls s
  | @array items hitems ih =>
      refine readValue_array hitems fun v hv => ?_
      have hlt : (render e v).length < calls := by
        have := length_le_length_joinCommas (List.mem_map_of_mem (f := render e) hv)
        rw [render_array, List.length_append, List.length_cons, List.length_singleton] at hcalls
        omega
      obtain ⟨n, rfl⟩ := Nat.exists_eq_add_of_lt hlt
      exact ih v hv (Nat.le_add_right _ n)
  | @object fields hfields ih =>
      refine readValue_object fun f hf => ?_
      have hlt : (render e f.2).length < calls := by
        have := length_le_length_joinCommas (List.mem_map_of_mem (f := renderField e) hf)
        rw [renderField, List.length_append, List.length_cons] at this
        rw [render_object, List.length_append, List.length_cons, List.length_singleton] at hcalls
        omega
      obtain ⟨n, rfl⟩ := Nat.exists_eq_add_of_lt hlt
      exact ih f hf (Nat.le_add_right _ n)

/-! ### Whole texts -/

theorem lt_of_isNumeric {b : UInt8} (h : isNumeric b) : b < 0x80 := by
  simp only [isNumeric, isDigit, Bool.or_eq_true, Bool.and_eq_true, decide_eq_true_eq, beq_iff_eq,
    UInt8.le_iff_toNat_le, UInt8.lt_iff_toNat_lt, ← UInt8.toNat_inj, UInt8.reduceToNat] at h ⊢
  omega

theorem isValid_unicodeEscape (n : Nat) : isValid (unicodeEscape n) := by
  have hdigit : ∀ d < 16, hexDigit d < 0x80 := by decide
  have hhex (width n : Nat) : isValid (hex width n) := by
    induction width generalizing n with
    | zero => exact isValid_nil
    | succ width ih =>
        exact isValid_append (ih (n / 16)) ((isValid_cons (hdigit _ (Nat.mod_lt n (by decide)))).mpr
          isValid_nil)
  exact isValid_append (isValid_utf8 "\\u") (hhex 4 n)

theorem isValid_escapeChar (c : Char) : isValid (escapeChar e c) := by
  unfold escapeChar
  dsimp only
  split
  · exact (isValid_cons (by decide)).mpr (isValid_encodeChar c)
  iterate 5
    split
    · exact isValid_utf8 _
  iterate 3
    split
    · exact isValid_unicodeEscape _
  exact isValid_encodeChar c

theorem isValid_renderString (s : Bytes) : isValid (renderString e s) := by
  rw [renderString, List.cons_append, isValid_cons (by decide), isValid_append_cons (by decide)]
  refine ⟨isValid_flatten fun piece hpiece => ?_, isValid_nil⟩
  obtain ⟨g, -, rfl⟩ := List.mem_map.mp hpiece
  exact isValid_escapeChar g.shown

theorem isValid_joinCommas {pieces : List Bytes} (h : ∀ piece ∈ pieces, isValid piece) :
    isValid (joinCommas pieces) := by
  cases pieces with
  | nil => exact isValid_nil
  | cons first others =>
      refine isValid_append (h first List.mem_cons_self) (isValid_flatten fun piece hpiece => ?_)
      obtain ⟨other, hother, rfl⟩ := List.mem_map.mp hpiece
      exact (isValid_cons (by decide)).mpr (h other (List.mem_cons_of_mem first hother))

/-- A value is written in UTF-8. -/
theorem isValid_render {v : Json} (h : v.Proper) : isValid (render e v) := by
  induction h with
  | null =>
      rw [render]
      exact isValid_utf8 _
  | bool b => cases b <;> rw [render] <;> exact isValid_utf8 _
  | number h =>
      rw [render]
      exact isValid_of_ascii fun b hb => lt_of_isNumeric (isNumeric_of_isNumber h hb)
  | string s =>
      rw [render]
      exact isValid_renderString s
  | array _ ih =>
      rw [render_array, List.cons_append, isValid_cons (by decide), isValid_append_cons (by decide)]
      refine ⟨isValid_joinCommas fun piece hpiece => ?_, isValid_nil⟩
      obtain ⟨v, hv, rfl⟩ := List.mem_map.mp hpiece
      exact ih v hv
  | object _ ih =>
      rw [render_object, List.cons_append, isValid_cons (by decide),
        isValid_append_cons (by decide)]
      refine ⟨isValid_joinCommas fun piece hpiece => ?_, isValid_nil⟩
      obtain ⟨f, hf, rfl⟩ := List.mem_map.mp hpiece
      exact (isValid_append_cons (by decide)).mpr ⟨isValid_renderString f.1, ih f hf⟩

/-- **What was written is read back**, with U+FFFD for what is not UTF-8. -/
theorem read?_render {v : Json} (h : v.Proper) : read? (render e v ++ [lf]) = some v.repaired := by
  have hvalid : isValid (render e v ++ [lf]) := by
    rw [isValid_append_cons (by decide)]
    exact ⟨isValid_render h, isValid_nil⟩
  have hread := h.reads (e := e) (Nat.le_refl _) [lf] (by simp [lf]; rfl)
  rw [read?, if_pos hvalid, List.length_append, List.length_singleton, hread]
  rfl

end Literate.Json
