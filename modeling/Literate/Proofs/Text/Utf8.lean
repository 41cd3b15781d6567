import Literate.Proofs.Text

/-!
# Reading and writing UTF-8

Writing the glyphs of a text gives the text back (`encode_decode`), and a character that is written
is read as itself, whatever follows (`decode_encodeChar_append`). So a text is valid exactly if it
is written from characters (`isValid_iff`), and what is put together from valid parts is valid.

The other way round, a byte below `0x80` is never part of a longer character. A text can be taken
apart at such a byte, and it is valid exactly if both parts are (`isValid_append_cons`).
-/

namespace Literate.Text

/-! ### Bytes as numbers -/

theorem continuation?_eq_some_iff {b : UInt8} {v : Nat} :
    continuation? b = some v ↔ v < 64 ∧ b.toNat = v + 128 := by
  have hb := b.toNat_lt
  unfold continuation?
  simp only [Bool.and_eq_true, decide_eq_true_eq, UInt8.le_iff_toNat_le, UInt8.reduceToNat]
  constructor
  · intro h
    split at h
    · have := Option.some.inj h
      omega
    · cases h
  · rintro ⟨hv, hb⟩
    have hbounds : 128 ≤ b.toNat ∧ b.toNat ≤ 191 := by omega
    rw [if_pos hbounds, hb, Nat.add_sub_cancel]

theorem continuation?_ofNat {v : Nat} (hv : v < 64) :
    continuation? (UInt8.ofNat (v + 128)) = some v := by
  rw [continuation?_eq_some_iff, UInt8.toNat_ofNat', Nat.mod_eq_of_lt (by omega)]
  exact ⟨hv, rfl⟩

theorem charAtLeast?_eq_some_iff {least v : Nat} {c : Char} :
    charAtLeast? least v = some c ↔ least ≤ v ∧ v = c.toNat := by
  unfold charAtLeast?
  simp only [Bool.and_eq_true, Bool.or_eq_true, decide_eq_true_eq]
  constructor
  · intro h
    split at h
    · next hrange =>
      have hvalid : v.isValidChar := hrange.2
      rw [← Option.some.inj h, Char.ofNat, dif_pos hvalid]
      exact ⟨hrange.1, rfl⟩
    · cases h
  · rintro ⟨hleast, rfl⟩
    have hvalid : c.toNat < 0xD800 ∨ 0xDFFF < c.toNat ∧ c.toNat < 0x110000 := c.valid
    rw [if_pos ⟨hleast, hvalid⟩, Char.ofNat_toNat]

/-! ### One character -/

theorem encodeChar_eq (c : Char) :
    encodeChar c =
      if c.toNat ≤ 127 then [UInt8.ofNat c.toNat]
      else if c.toNat ≤ 2047 then
        [UInt8.ofNat (c.toNat / 64 % 32 + 192), UInt8.ofNat (c.toNat % 64 + 128)]
      else if c.toNat ≤ 65535 then
        [UInt8.ofNat (c.toNat / 4096 % 16 + 224), UInt8.ofNat (c.toNat / 64 % 64 + 128),
          UInt8.ofNat (c.toNat % 64 + 128)]
      else
        [UInt8.ofNat (c.toNat / 262144 % 8 + 240), UInt8.ofNat (c.toNat / 4096 % 64 + 128),
          UInt8.ofNat (c.toNat / 64 % 64 + 128), UInt8.ofNat (c.toNat % 64 + 128)] := rfl

/-- The first byte of a character of more than one byte tells how many follow. -/
theorem longChar?_eq (b : UInt8) (rest : Bytes) :
    longChar? b rest =
      if 192 ≤ b.toNat ∧ b.toNat ≤ 223 then
        match rest with
        | b₁ :: _ => do
          let v₁ ← continuation? b₁
          let c ← charAtLeast? 0x80 ((b.toNat - 0xC0) * 64 + v₁)
          some (c, 1)
        | _ => none
      else if 224 ≤ b.toNat ∧ b.toNat ≤ 239 then
        match rest with
        | b₁ :: b₂ :: _ => do
          let v₁ ← continuation? b₁
          let v₂ ← continuation? b₂
          let c ← charAtLeast? 0x800 (((b.toNat - 0xE0) * 64 + v₁) * 64 + v₂)
          some (c, 2)
        | _ => none
      else if 240 ≤ b.toNat ∧ b.toNat ≤ 247 then
        match rest with
        | b₁ :: b₂ :: b₃ :: _ => do
          let v₁ ← continuation? b₁
          let v₂ ← continuation? b₂
          let v₃ ← continuation? b₃
          let c ← charAtLeast? 0x10000 ((((b.toNat - 0xF0) * 64 + v₁) * 64 + v₂) * 64 + v₃)
          some (c, 3)
        | _ => none
      else none := by
  have hrange (low high : UInt8) : (low ≤ b && b ≤ high) = true ↔
      low.toNat ≤ b.toNat ∧ b.toNat ≤ high.toNat := by
    rw [Bool.and_eq_true, decide_eq_true_eq, decide_eq_true_eq, UInt8.le_iff_toNat_le,
      UInt8.le_iff_toNat_le]
  unfold longChar?
  refine ite_congr (propext (hrange 0xC0 0xDF)) (fun _ => rfl) fun _ => ?_
  refine ite_congr (propext (hrange 0xE0 0xEF)) (fun _ => rfl) fun _ => ?_
  exact ite_congr (propext (hrange 0xF0 0xF7)) (fun _ => rfl) fun _ => rfl

theorem toNat_ofNat_of_lt {n : Nat} (h : n < 256) : (UInt8.ofNat n).toNat = n := by
  rw [UInt8.toNat_ofNat', Nat.mod_eq_of_lt h]

theorem ofNat_eq_of_toNat {n : Nat} {b : UInt8} (h : b.toNat = n) : UInt8.ofNat n = b := by
  rw [← h, UInt8.ofNat_toNat]

theorem toNat_lt (c : Char) : c.toNat < 0x110000 := by
  have hvalid : c.toNat < 0xD800 ∨ 0xDFFF < c.toNat ∧ c.toNat < 0x110000 := c.valid
  omega

/-- A character of more than one byte is read as itself, whatever follows. -/
theorem longChar?_encodeChar {c : Char} (hc : 127 < c.toNat) {b : UInt8} {tail : Bytes}
    (h : encodeChar c = b :: tail) (rest : Bytes) :
    longChar? b (tail ++ rest) = some (c, tail.length) := by
  have hlast := toNat_lt c
  have hmod (n : Nat) : continuation? (UInt8.ofNat (n % 64 + 128)) = some (n % 64) :=
    continuation?_ofNat (Nat.mod_lt n (by decide))
  rw [encodeChar_eq, if_neg (by omega)] at h
  split at h
  · cases h
    have hb : (UInt8.ofNat (c.toNat / 64 % 32 + 192)).toNat = c.toNat / 64 % 32 + 192 :=
      toNat_ofNat_of_lt (by omega)
    have hchar : charAtLeast? 0x80 ((c.toNat / 64 % 32 + 192 - 0xC0) * 64 + c.toNat % 64) =
        some c := charAtLeast?_eq_some_iff.mpr ⟨by omega, by omega⟩
    rw [longChar?_eq, hb, if_pos (by omega), List.cons_append]
    simp only [hmod, Option.bind_eq_bind, Option.bind_some, hchar]
    rfl
  split at h
  · cases h
    have hb : (UInt8.ofNat (c.toNat / 4096 % 16 + 224)).toNat = c.toNat / 4096 % 16 + 224 :=
      toNat_ofNat_of_lt (by omega)
    have hchar : charAtLeast? 0x800 (((c.toNat / 4096 % 16 + 224 - 0xE0) * 64 +
        c.toNat / 64 % 64) * 64 + c.toNat % 64) = some c :=
      charAtLeast?_eq_some_iff.mpr ⟨by omega, by omega⟩
    rw [longChar?_eq, hb, if_neg (by omega), if_pos (by omega), List.cons_append,
      List.cons_append]
    simp only [hmod, Option.bind_eq_bind, Option.bind_some, hchar]
    rfl
  · cases h
    have hb : (UInt8.ofNat (c.toNat / 262144 % 8 + 240)).toNat = c.toNat / 262144 % 8 + 240 :=
      toNat_ofNat_of_lt (by omega)
    have hchar : charAtLeast? 0x10000 ((((c.toNat / 262144 % 8 + 240 - 0xF0) * 64 +
        c.toNat / 4096 % 64) * 64 + c.toNat / 64 % 64) * 64 + c.toNat % 64) = some c :=
      charAtLeast?_eq_some_iff.mpr ⟨by omega, by omega⟩
    rw [longChar?_eq, hb, if_neg (by omega), if_neg (by omega), if_pos (by omega),
      List.cons_append, List.cons_append, List.cons_append]
    simp only [hmod, Option.bind_eq_bind, Option.bind_some, hchar]
    rfl

/-- What is read as a character of more than one byte is just that character written. -/
theorem encodeChar_of_longChar? {b : UInt8} {rest : Bytes} {c : Char} {n : Nat}
    (h : longChar? b rest = some (c, n)) :
    encodeChar c = b :: rest.take n ∧ n ≤ rest.length := by
  rw [longChar?_eq] at h
  split at h
  · next hb =>
    split at h
    · next b₁ rest =>
      simp only [Option.bind_eq_bind, Option.bind_eq_some_iff, continuation?_eq_some_iff,
        charAtLeast?_eq_some_iff] at h
      obtain ⟨v₁, ⟨hv₁, hb₁⟩, c', ⟨hleast, hchar⟩, heq⟩ := h
      cases heq
      refine ⟨?_, by simp⟩
      rw [encodeChar_eq, if_neg (by omega), if_pos (by omega),
        ofNat_eq_of_toNat (b := b) (by omega), ofNat_eq_of_toNat (b := b₁) (by omega)]
      rfl
    · cases h
  split at h
  · next hb =>
    split at h
    · next b₁ b₂ rest =>
      simp only [Option.bind_eq_bind, Option.bind_eq_some_iff, continuation?_eq_some_iff,
        charAtLeast?_eq_some_iff] at h
      obtain ⟨v₁, ⟨hv₁, hb₁⟩, v₂, ⟨hv₂, hb₂⟩, c', ⟨hleast, hchar⟩, heq⟩ := h
      cases heq
      refine ⟨?_, by simp⟩
      rw [encodeChar_eq, if_neg (by omega), if_neg (by omega), if_pos (by omega),
        ofNat_eq_of_toNat (b := b) (by omega), ofNat_eq_of_toNat (b := b₁) (by omega),
        ofNat_eq_of_toNat (b := b₂) (by omega)]
      rfl
    · cases h
  split at h
  · next hb =>
    split at h
    · next b₁ b₂ b₃ rest =>
      simp only [Option.bind_eq_bind, Option.bind_eq_some_iff, continuation?_eq_some_iff,
        charAtLeast?_eq_some_iff] at h
      obtain ⟨v₁, ⟨hv₁, hb₁⟩, v₂, ⟨hv₂, hb₂⟩, v₃, ⟨hv₃, hb₃⟩, c', ⟨hleast, hchar⟩, heq⟩ := h
      cases heq
      have hlast := toNat_lt c
      refine ⟨?_, by simp⟩
      rw [encodeChar_eq, if_neg (by omega), if_neg (by omega), if_neg (by omega),
        ofNat_eq_of_toNat (b := b) (by omega), ofNat_eq_of_toNat (b := b₁) (by omega),
        ofNat_eq_of_toNat (b := b₂) (by omega), ofNat_eq_of_toNat (b := b₃) (by omega)]
      rfl
    · cases h
  · cases h

theorem le_of_mem_encodeChar {c : Char} (hc : 127 < c.toNat) {b : UInt8} (hb : b ∈ encodeChar c) :
    128 ≤ b.toNat := by
  have hhigh {n k : Nat} (hk : 128 ≤ k) (hn : n + k < 256) : 128 ≤ (UInt8.ofNat (n + k)).toNat := by
    rw [toNat_ofNat_of_lt hn]
    omega
  rw [encodeChar_eq, if_neg (by omega)] at hb
  split at hb
  · simp only [List.mem_cons, List.not_mem_nil, or_false] at hb
    rcases hb with rfl | rfl <;> exact hhigh (by decide) (by omega)
  split at hb
  · simp only [List.mem_cons, List.not_mem_nil, or_false] at hb
    rcases hb with rfl | rfl | rfl <;> exact hhigh (by decide) (by omega)
  · simp only [List.mem_cons, List.not_mem_nil, or_false] at hb
    rcases hb with rfl | rfl | rfl | rfl <;> exact hhigh (by decide) (by omega)

/-! ### Texts of characters -/

theorem decode_encodeChar_append (c : Char) (rest : Bytes) :
    decode (encodeChar c ++ rest) = .char c :: decode rest := by
  by_cases hc : c.toNat ≤ 127
  · have hbyte : UInt8.ofNat c.toNat < 0x80 := by
      rw [UInt8.lt_iff_toNat_lt, toNat_ofNat_of_lt (by omega)]
      exact Nat.lt_succ_of_le hc
    rw [encodeChar_eq, if_pos hc, List.singleton_append, decode_cons_ascii hbyte, asciiGlyph,
      toNat_ofNat_of_lt (by omega), Char.ofNat_toNat]
  · have hlong : 127 < c.toNat := Nat.lt_of_not_le hc
    cases hchar : encodeChar c with
    | nil =>
        have hempty := String.length_utf8EncodeChar c
        rw [show String.utf8EncodeChar c = [] from hchar] at hempty
        exact absurd hempty.symm (Nat.ne_of_gt c.utf8Size_pos)
    | cons b tail =>
        have hb : ¬ b < 0x80 := by
          rw [UInt8.lt_iff_toNat_lt]
          exact Nat.not_lt.mpr (le_of_mem_encodeChar hlong (hchar ▸ List.mem_cons_self))
        rw [List.cons_append, decode_cons, glyphAt, if_neg hb, longChar?_encodeChar hlong hchar]
        simp

theorem decode_flatMap_encodeChar_append (cs : List Char) (rest : Bytes) :
    decode (cs.flatMap encodeChar ++ rest) = cs.map .char ++ decode rest := by
  induction cs with
  | nil => rfl
  | cons c cs ih =>
      rw [List.flatMap_cons, List.append_assoc, decode_encodeChar_append, ih]
      rfl

theorem decode_flatMap_encodeChar (cs : List Char) :
    decode (cs.flatMap encodeChar) = cs.map .char := by
  have happend := decode_flatMap_encodeChar_append cs []
  rwa [List.append_nil, show decode [] = [] by rw [decode, decodeFrom]; rfl, List.append_nil]
    at happend

theorem bytes_glyphAt (b : UInt8) (rest : Bytes) :
    (glyphAt b rest).1.bytes = b :: rest.take (glyphAt b rest).2 := by
  unfold glyphAt
  split
  · next hb => exact bytes_asciiGlyph hb
  · split
    · next c n hlong => exact (encodeChar_of_longChar? hlong).1
    · rfl

/-- **Nothing is lost in reading.** -/
theorem encode_decode (s : Bytes) : encode (decode s) = s := by
  induction s using glyph_induction with
  | nil => rw [decode, decodeFrom]; rfl
  | glyph b rest ih =>
      rw [encode] at ih ⊢
      rw [decode_cons, List.flatMap_cons, bytes_glyphAt, ih, List.cons_append,
        List.take_append_drop]

/-! ### ASCII bytes -/

theorem not_lt_of_stray_mem_decode {x : UInt8} {s : Bytes} (h : .stray x ∈ decode s) :
    ¬ x < 0x80 := by
  induction s using glyph_induction with
  | nil =>
      rw [decode, decodeFrom] at h
      cases h
  | glyph b rest ih =>
      rw [decode_cons, List.mem_cons] at h
      rcases h with h | h
      · unfold glyphAt at h
        split at h
        · cases h
        · next hb =>
          split at h
          · cases h
          · cases h
            exact hb
      · exact ih h

/-- An ASCII byte is part of no glyph but its own. -/
theorem eq_asciiGlyph_of_mem_bytes {x : UInt8} (hx : x < 0x80) {s : Bytes} {g : Glyph}
    (hg : g ∈ decode s) (hmem : x ∈ g.bytes) : g = asciiGlyph x := by
  cases g with
  | char c =>
      have hc : c.toNat ≤ 127 := by
        refine Nat.le_of_not_lt fun hlong => ?_
        have hle := le_of_mem_encodeChar hlong hmem
        exact Nat.not_lt.mpr hle (UInt8.lt_iff_toNat_lt.mp hx)
      rw [Glyph.bytes, encodeChar_eq, if_pos hc, List.mem_singleton] at hmem
      rw [hmem, asciiGlyph, toNat_ofNat_of_lt (by omega), Char.ofNat_toNat]
  | stray b =>
      rw [Glyph.bytes, List.mem_singleton] at hmem
      exact absurd (hmem ▸ hx) (not_lt_of_stray_mem_decode hg)

/-- No ASCII white space is part of a first field. -/
theorem not_mem_firstField {x : UInt8} (hx : x < 0x80) (hblank : (asciiGlyph x).isBlank = true)
    (s : Bytes) : x ∉ firstField s := by
  intro hmem
  obtain ⟨g, hg, hbytes⟩ := List.mem_flatMap.mp hmem
  have hread : g ∈ decode s := List.dropWhile_subset _ (List.takeWhile_subset _ hg)
  have hsolid := List.all_eq_true.mp List.all_takeWhile g hg
  rw [eq_asciiGlyph_of_mem_bytes hx hread hbytes, hblank] at hsolid
  cases hsolid

/-! ### Valid texts -/

/-- A text is valid exactly if it is written from characters. -/
theorem isValid_iff {s : Bytes} : isValid s ↔ ∃ cs : List Char, s = cs.flatMap encodeChar := by
  constructor
  · intro h
    obtain ⟨cs, hcs⟩ : ∃ cs : List Char, decode s = cs.map .char := by
      rw [isValid] at h
      generalize decode s = gs at h ⊢
      induction gs with
      | nil => exact ⟨[], rfl⟩
      | cons g gs ih =>
          rw [List.all_cons, Bool.and_eq_true] at h
          obtain ⟨cs, rfl⟩ := ih h.2
          cases g with
          | char c => exact ⟨c :: cs, rfl⟩
          | stray b => exact absurd h.1 Bool.false_ne_true
    refine ⟨cs, ?_⟩
    rw [← encode_decode s, hcs, encode, List.flatMap_map]
    rfl
  · rintro ⟨cs, rfl⟩
    rw [isValid, decode_flatMap_encodeChar, List.all_map, List.all_eq_true]
    intro c _
    rfl

theorem isValid_nil : isValid [] := isValid_iff.mpr ⟨[], rfl⟩

theorem isValid_append {s t : Bytes} (hs : isValid s) (ht : isValid t) : isValid (s ++ t) := by
  obtain ⟨cs, rfl⟩ := isValid_iff.mp hs
  obtain ⟨ds, rfl⟩ := isValid_iff.mp ht
  exact isValid_iff.mpr ⟨cs ++ ds, List.flatMap_append.symm⟩

theorem isValid_flatten {ss : List Bytes} (h : ∀ s ∈ ss, isValid s) : isValid ss.flatten := by
  induction ss with
  | nil => exact isValid_nil
  | cons s ss ih =>
      rw [List.flatten_cons]
      exact isValid_append (h s List.mem_cons_self) (ih fun t ht => h t (List.mem_cons_of_mem s ht))

theorem isValid_encodeChar (c : Char) : isValid (encodeChar c) :=
  isValid_iff.mpr ⟨[c], (List.flatMap_singleton encodeChar c).symm⟩

theorem utf8_eq (s : String) : utf8 s = s.toList.flatMap encodeChar := by
  rw [utf8, String.toUTF8, ← String.utf8Encode_toList, List.utf8Encode,
    List.toList_data_toByteArray]
  rfl

theorem isValid_utf8 (s : String) : isValid (utf8 s) := isValid_iff.mpr ⟨s.toList, utf8_eq s⟩

/-! ### Taking texts apart -/

theorem continuation?_of_ascii {x : UInt8} (hx : x < 0x80) : continuation? x = none := by
  cases hv : continuation? x with
  | none => rfl
  | some v =>
      obtain ⟨-, hxv⟩ := continuation?_eq_some_iff.mp hv
      rw [UInt8.lt_iff_toNat_lt, hxv] at hx
      exact absurd hx (Nat.not_lt.mpr (Nat.le_add_left 128 v))

/-- An ASCII byte ends a character that is cut short just as the end of the text does. -/
theorem longChar?_append_cons {x : UInt8} (hx : x < 0x80) (b : UInt8) (rest after : Bytes) :
    longChar? b (rest ++ x :: after) = longChar? b rest := by
  have hno := continuation?_of_ascii hx
  unfold longChar?
  rcases rest with _ | ⟨b₁, _ | ⟨b₂, _ | ⟨b₃, rest⟩⟩⟩ <;>
    rcases after with _ | ⟨c₁, _ | ⟨c₂, after⟩⟩ <;> simp [hno]

theorem glyphAt_append_cons {x : UInt8} (hx : x < 0x80) (b : UInt8) (rest after : Bytes) :
    glyphAt b (rest ++ x :: after) = glyphAt b rest := by
  unfold glyphAt
  rw [longChar?_append_cons hx]

theorem glyphAt_le (b : UInt8) (rest : Bytes) : (glyphAt b rest).2 ≤ rest.length := by
  unfold glyphAt
  split
  · exact Nat.zero_le _
  · split
    · next c n hlong => exact (encodeChar_of_longChar? hlong).2
    · exact Nat.zero_le _

/-- **A text is read in two parts if an ASCII byte stands between them.** -/
theorem decode_append_cons {x : UInt8} (hx : x < 0x80) (s t : Bytes) :
    decode (s ++ x :: t) = decode s ++ asciiGlyph x :: decode t := by
  induction s using glyph_induction with
  | nil => rw [List.nil_append, decode_cons_ascii hx, decode, decode, decodeFrom]; rfl
  | glyph b rest ih =>
      rw [List.cons_append, decode_cons, decode_cons, glyphAt_append_cons hx,
        List.drop_append_of_le_length (glyphAt_le b rest), ih]
      rfl

theorem isValid_append_cons {x : UInt8} (hx : x < 0x80) {s t : Bytes} :
    isValid (s ++ x :: t) ↔ isValid s ∧ isValid t := by
  unfold isValid
  rw [decode_append_cons hx, List.all_append, List.all_cons, Bool.and_eq_true, Bool.and_eq_true]
  simp [asciiGlyph]

theorem isValid_cons {x : UInt8} (hx : x < 0x80) {s : Bytes} : isValid (x :: s) ↔ isValid s := by
  have h := @isValid_append_cons x hx [] s
  rwa [List.nil_append, and_iff_right isValid_nil] at h

theorem isValid_of_ascii {s : Bytes} (h : ∀ b ∈ s, b < 0x80) : isValid s := by
  induction s with
  | nil => exact isValid_nil
  | cons b s ih =>
      rw [isValid_cons (h b List.mem_cons_self)]
      exact ih fun c hc => h c (List.mem_cons_of_mem b hc)

theorem isValid_ascii_append {word : Bytes} (hword : word.all (· < 0x80)) {t : Bytes} :
    isValid (word ++ t) ↔ isValid t := by
  induction word with
  | nil => rfl
  | cons b word ih =>
      rw [List.all_cons, Bool.and_eq_true, decide_eq_true_eq] at hword
      rw [List.cons_append, isValid_cons hword.1, ih hword.2]

/-- A text is valid exactly if what stands before and after an ASCII word is. -/
theorem isValid_append_ascii {word : Bytes} (hne : word ≠ []) (hword : word.all (· < 0x80))
    {s t : Bytes} : isValid (s ++ (word ++ t)) ↔ isValid s ∧ isValid t := by
  cases word with
  | nil => exact absurd rfl hne
  | cons b word =>
      rw [List.all_cons, Bool.and_eq_true, decide_eq_true_eq] at hword
      rw [List.cons_append, isValid_append_cons hword.1, isValid_ascii_append hword.2]

/-! ### Texts that are not valid -/

theorem isValid_repair (s : Bytes) : isValid (repair s) := by
  refine isValid_iff.mpr ⟨(decode s).map Glyph.shown, ?_⟩
  rw [repair, List.flatMap_map]

theorem repair_of_isValid {s : Bytes} (h : isValid s) : repair s = s := by
  obtain ⟨cs, rfl⟩ := isValid_iff.mp h
  rw [repair, decode_flatMap_encodeChar, List.flatMap_map]
  rfl

end Literate.Text
