import Literate.Text.Blank

/-!
# Reading ASCII text

A byte below `0x80` is a character of its own wherever it stands, so a text that starts with an
ASCII word and a space has that word as its first field, whatever follows.
-/

namespace Literate.Text

open Bytes

/-! ### Glyphs -/

/-- Induction on a text, glyph by glyph: the rest after a glyph is no direct part of the text. -/
theorem glyph_induction {P : Bytes → Prop} (nil : P [])
    (glyph : ∀ b rest, P (rest.drop (glyphAt b rest).2) → P (b :: rest)) (s : Bytes) : P s := by
  induction hn : s.length using Nat.strongRecOn generalizing s with
  | _ n ih =>
      cases s with
      | nil => exact nil
      | cons b rest =>
          apply glyph
          refine ih _ ?_ _ rfl
          simp only [List.length_cons, List.length_drop] at hn ⊢
          omega

/-- The glyphs read so far stand in front of the rest. -/
theorem decodeFrom_eq (done : List Glyph) (s : Bytes) :
    decodeFrom done s = done.reverse ++ decode s := by
  induction s using glyph_induction generalizing done with
  | nil => simp [decode, decodeFrom]
  | glyph b rest ih =>
      rw [decode, decodeFrom, decodeFrom, ih, ih [_]]
      simp

theorem decode_cons (b : UInt8) (rest : Bytes) :
    decode (b :: rest) = (glyphAt b rest).1 :: decode (rest.drop (glyphAt b rest).2) := by
  rw [decode, decodeFrom, decodeFrom_eq]
  rfl

/-- The character that an ASCII byte stands for. -/
def asciiGlyph (b : UInt8) : Glyph := .char (Char.ofNat b.toNat)

theorem decode_cons_ascii {b : UInt8} (hb : b < 0x80) (rest : Bytes) :
    decode (b :: rest) = asciiGlyph b :: decode rest := by
  rw [decode_cons, glyphAt, if_pos hb]
  rfl

theorem decode_append_ascii {word : Bytes} (hword : ∀ b ∈ word, b < 0x80) (rest : Bytes) :
    decode (word ++ rest) = word.map asciiGlyph ++ decode rest := by
  induction word with
  | nil => rfl
  | cons b word ih =>
      rw [List.cons_append, decode_cons_ascii (hword b (by simp)),
        ih fun c hc => hword c (by simp [hc])]
      rfl

theorem bytes_asciiGlyph {b : UInt8} (hb : b < 0x80) : (asciiGlyph b).bytes = [b] := by
  have hall : ∀ n : Fin 128, encodeChar (Char.ofNat n) = [n.val.toUInt8] := by decide
  have := hall ⟨b.toNat, hb⟩
  simpa [asciiGlyph, Glyph.bytes] using this

theorem encode_map_asciiGlyph {word : Bytes} (hword : ∀ b ∈ word, b < 0x80) :
    encode (word.map asciiGlyph) = word := by
  induction word with
  | nil => rfl
  | cons b word ih =>
      have ih' := ih fun c hc => hword c (by simp [hc])
      rw [encode] at ih' ⊢
      rw [List.map_cons, List.flatMap_cons, bytes_asciiGlyph (hword b (by simp)), ih']
      rfl

/-! ### Fields -/

/-- An ASCII word at the start of a text and before a space is its first field. -/
theorem firstField_word {word : Bytes} (hne : word ≠ [])
    (hword : ∀ b ∈ word, b < 0x80 ∧ (asciiGlyph b).isBlank = false) (rest : Bytes) :
    firstField (word ++ space :: rest) = word := by
  have hascii : ∀ b ∈ word, b < 0x80 := fun b hb => (hword b hb).1
  have hsolid : ∀ g ∈ word.map asciiGlyph, (!g.isBlank) = true := by
    intro g hg
    obtain ⟨b, hb, rfl⟩ := List.mem_map.mp hg
    simp [(hword b hb).2]
  have hspace : (asciiGlyph space).isBlank = true := by decide
  have hdrop : (decode (word ++ space :: rest)).dropWhile Glyph.isBlank =
      word.map asciiGlyph ++ asciiGlyph space :: decode rest := by
    rw [decode_append_ascii hascii, decode_cons_ascii (by decide)]
    obtain ⟨b, word, rfl⟩ := List.exists_cons_of_ne_nil hne
    simp [(hword b (by simp)).2]
  rw [firstField, hdrop, List.takeWhile_append_of_pos hsolid]
  simp [hspace, encode_map_asciiGlyph hascii]

end Literate.Text
