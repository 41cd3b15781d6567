import Literate.Writer

/-!
# Sinks with and without a limit

A sink that has no limit takes every piece, and what it holds grows by just that piece. A sink with
room for `n` bytes does the same until a piece does not fit, and keeps of that one what does. Either
way it is settled by the text alone, not by how it is cut into pieces: `Offered n text` says what
becomes of a sink that was offered `text`, and writing keeps it.

A relation of this form that writing keeps, for a writer of any type, is a `Ledger`. What holds of a
ledger need not be said again for each writer.
-/

namespace Literate

/-- `Q text w failure` can say what has become of a writer that was offered `text`: each write keeps
it, and once a write has failed it does not matter what else is offered. -/
structure Writer.Ledger {σ : Type} [Writer σ] (Q : Bytes → σ → Option Failure → Prop) : Prop where
  write {text w} : Q text w none → ∀ piece,
    Q (text ++ piece) (Writer.write w piece).1 (Writer.write w piece).2
  append {text w why} : Q text w (some why) → ∀ more, Q (text ++ more) w (some why)

theorem Writer.Ledger.writeAll {σ : Type} [Writer σ] {Q : Bytes → σ → Option Failure → Prop}
    (hQ : Ledger Q) {text : Bytes} {w : σ} (h : Q text w none) (pieces : List Bytes) :
    Q (text ++ pieces.flatten) (Writer.writeAll w pieces).1 (Writer.writeAll w pieces).2 := by
  induction pieces generalizing text w with
  | nil =>
      rw [List.flatten_nil, List.append_nil]
      exact h
  | cons piece pieces ih =>
      have hpiece := hQ.write h piece
      rw [Writer.writeAll, List.flatten_cons, ← List.append_assoc]
      rcases hnext : Writer.write w piece with ⟨w', failure⟩
      rw [hnext] at hpiece
      cases failure with
      | none => exact ih hpiece
      | some why => exact hQ.append hpiece pieces.flatten

namespace Sink

/-- The sink after it has taken some pieces in full. -/
def taking (w : Sink) (pieces : List Bytes) : Sink :=
  { w with pieces := pieces.reverse ++ w.pieces }

@[simp] theorem room_taking (w : Sink) (pieces : List Bytes) :
    (w.taking pieces).room = w.room := rfl

@[simp] theorem taking_taking (w : Sink) (pieces pieces' : List Bytes) :
    (w.taking pieces).taking pieces' = w.taking (pieces ++ pieces') := by
  simp [taking]

@[simp] theorem contents_taking (w : Sink) (pieces : List Bytes) :
    (w.taking pieces).contents = w.contents ++ pieces.flatten := by
  simp [contents, taking]

theorem write_of_room {w : Sink} (hw : w.room = none) (piece : Bytes) :
    w.write piece = (w.taking [piece], none) := by
  simp [write, taking, hw]

theorem writeAll_of_room {w : Sink} (hw : w.room = none) (pieces : List Bytes) :
    Writer.writeAll w pieces = (w.taking pieces, none) := by
  induction pieces generalizing w with
  | nil => rfl
  | cons piece pieces ih =>
      have hwrite : Writer.write w piece = (w.taking [piece], none) := write_of_room hw piece
      have hrest := @ih (w.taking [piece]) hw
      rw [Writer.writeAll, hwrite]
      simpa using hrest

/-! ### Sinks with a limit -/

/-- What a sink with room for `n` bytes has become once it was offered `text`: it holds the part
that fits, and there is a failure exactly if something did not fit. -/
structure Offered (n : Nat) (text : Bytes) (w : Sink) (failure : Option Failure) : Prop where
  contents : w.contents = text.take n
  room : text.length ≤ n → w.room = some (n - text.length)
  failed : failure.isSome ↔ n < text.length

namespace Offered

variable {n : Nat} {text : Bytes} {w : Sink}

theorem fresh (n : Nat) (why : Failure) :
    Offered n [] { room := some n, failure := why } none where
  contents := List.take_nil.symm
  room _ := rfl
  failed := by simp

theorem length_le (h : Offered n text w none) : text.length ≤ n :=
  Nat.not_lt.mp fun hlt => Bool.false_ne_true (h.failed.mpr hlt)

/-- After a failure, what else is offered changes nothing. -/
theorem append {why : Failure} (h : Offered n text w (some why)) (more : Bytes) :
    Offered n (text ++ more) w (some why) := by
  have hlt : n < text.length := h.failed.mp rfl
  have hlt' : n < (text ++ more).length := by
    rw [List.length_append]
    omega
  constructor
  · rw [List.take_append_of_le_length (Nat.le_of_lt hlt)]
    exact h.contents
  · intro hle
    omega
  · exact iff_of_true rfl hlt'

theorem write (h : Offered n text w none) (piece : Bytes) :
    Offered n (text ++ piece) (w.write piece).1 (w.write piece).2 := by
  have hle := h.length_le
  have hcontents : w.contents = text := by rw [h.contents, List.take_of_length_le hle]
  have hlen : (text ++ piece).length = text.length + piece.length := List.length_append
  rw [Sink.write, h.room hle]
  simp only
  split
  · have hle' : (text ++ piece).length ≤ n := by omega
    constructor
    · show (w.taking [piece]).contents = _
      rw [contents_taking, List.flatten_singleton, hcontents, List.take_of_length_le hle']
    · intro _
      rw [hlen, Nat.sub_add_eq]
    · exact iff_of_false Bool.false_ne_true (Nat.not_lt.mpr hle')
  · have hlt : n < (text ++ piece).length := by omega
    constructor
    · show (w.taking [piece.take (n - text.length)]).contents = _
      rw [contents_taking, List.flatten_singleton, hcontents, List.take_append,
        List.take_of_length_le hle]
    · intro hle'
      omega
    · exact iff_of_true rfl hlt

theorem ledger (n : Nat) : Writer.Ledger (Offered n) where
  write h piece := h.write piece
  append h more := h.append more

end Offered

/-! ### Sinks without a limit -/

/-- What a sink without a limit has become once it was offered `text`. -/
structure Holds (text : Bytes) (w : Sink) (failure : Option Failure) : Prop where
  contents : w.contents = text
  room : w.room = none
  failure : failure = none

namespace Holds

theorem fresh : Holds [] {} none := ⟨rfl, rfl, rfl⟩

theorem ledger : Writer.Ledger Holds where
  write {text w} h piece := by
    have hwrite : Writer.write w piece = (w.taking [piece], none) := write_of_room h.room piece
    rw [hwrite]
    refine ⟨?_, h.room, rfl⟩
    rw [contents_taking, h.contents, List.flatten_singleton]
  append h := by cases h.failure

end Holds

/-! ### Either kind of sink -/

/-- Is there room for a text in an empty sink? -/
def Fits (w : Sink) (text : Bytes) : Prop := ∀ n, w.room = some n → text.length ≤ n

theorem Fits.of_prefix {w : Sink} {start text : Bytes} (h : w.Fits text) (hstart : start <+: text) :
    w.Fits start :=
  fun n hn => Nat.le_trans hstart.length_le (h n hn)

/-- A ledger that tells what becomes of an empty sink, with or without a limit: it takes all of a
text that fits, and fails otherwise. -/
structure Takes (w : Sink) (P : Bytes → Sink → Option Failure → Prop) : Prop where
  ledger : Writer.Ledger P
  fresh : P [] w none
  failure_iff {text w' failure} : P text w' failure → (failure = none ↔ w.Fits text)
  contents {text w'} : P text w' none → w'.contents = text

theorem exists_takes {w : Sink} (hempty : w.contents = []) : ∃ P, w.Takes P := by
  cases hw : w.room with
  | none =>
      refine ⟨Holds, Holds.ledger, ⟨hempty, hw, rfl⟩, fun h => ?_, fun h => h.contents⟩
      refine iff_of_true h.failure fun n hn => ?_
      rw [hw] at hn
      cases hn
  | some n =>
      refine ⟨Offered n, Offered.ledger n, ⟨?_, fun _ => hw, ?_⟩, fun h => ?_, fun h => ?_⟩
      · rw [hempty, List.take_nil]
      · simp
      · rw [← Option.not_isSome_iff_eq_none, h.failed, Nat.not_lt, Fits, hw]
        exact ⟨fun hle m hm => Option.some.inj hm ▸ hle, fun hfits => hfits n rfl⟩
      · rw [h.contents, List.take_of_length_le h.length_le]

end Sink

end Literate
