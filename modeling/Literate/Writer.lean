import Literate.Failure

/-!
# Writers

A writer takes bytes piece by piece and may refuse at some point. The basic writer is a `Sink`,
which keeps what it was given and may have a limited amount of room.
-/

namespace Literate

/-- Something that bytes can be written to. A write gives the writer afterwards and, if not all
of the piece was taken, the failure. -/
class Writer (σ : Type) where
  write : σ → Bytes → σ × Option Failure

/-- Write pieces in order, up to the first failure. -/
def Writer.writeAll {σ : Type} [Writer σ] (w : σ) : List Bytes → σ × Option Failure
  | [] => (w, none)
  | piece :: pieces =>
    match Writer.write w piece with
    | (w, none) => writeAll w pieces
    | (w, some failure) => (w, some failure)

/-- A writer that keeps what it was given. -/
structure Sink where
  /-- The pieces taken so far, newest first. -/
  pieces : List Bytes := []
  /-- How many bytes it will still take; there is no limit if absent. -/
  room : Option Nat := none
  /-- What it fails with once there is no room. -/
  failure : Failure := .diskFull

namespace Sink

/-- All bytes taken so far, in order. -/
def contents (s : Sink) : Bytes := s.pieces.reverse.flatten

/-- Take a piece. If it does not fit, the part that fits is kept and the write fails; an empty
piece always fits. -/
def write (s : Sink) (piece : Bytes) : Sink × Option Failure :=
  match s.room with
  | none => ({ s with pieces := piece :: s.pieces }, none)
  | some room =>
    if piece.length ≤ room then
      ({ s with pieces := piece :: s.pieces, room := some (room - piece.length) }, none)
    else
      ({ s with pieces := piece.take room :: s.pieces, room := some 0 }, some s.failure)

instance : Writer Sink := ⟨Sink.write⟩

end Sink

end Literate
