import Literate.Writer

/-!
# Buffered writing

A buffer of 4096 bytes in front of a sink. It is handed on whenever it is full and there is more
to come; a long piece that finds the buffer empty goes to the sink directly. What is still in the
buffer reaches the sink only by `flush`.
-/

namespace Literate

/-- A sink behind a buffer. -/
structure Buffered where
  sink : Sink
  /-- The pieces held back, newest first. -/
  held : List Bytes := []
  /-- The number of bytes held back. -/
  size : Nat := 0
  /-- The first failure of the sink; nothing is written after it. -/
  failure : Option Failure := none

namespace Buffered

/-- The number of bytes the buffer holds. -/
def capacity : Nat := 4096

/-- Keep a piece that fits into the buffer. -/
def hold (b : Buffered) (piece : Bytes) : Buffered :=
  { b with held := piece :: b.held, size := b.size + piece.length }

/-- Hand a piece to the sink, past the empty buffer. -/
def direct (b : Buffered) (piece : Bytes) : Buffered × Option Failure :=
  match b.sink.write piece with
  | (sink, failure) => ({ b with sink, failure }, failure)

/-- Hand the buffer to the sink, if there is anything in it. -/
def flush (b : Buffered) : Buffered × Option Failure :=
  match b.failure with
  | some failure => (b, some failure)
  | none =>
    if b.size = 0 then (b, none)
    else direct { b with held := [], size := 0 } b.held.reverse.flatten

/-- Write a piece that finds the buffer empty. -/
def writeEmpty (b : Buffered) (piece : Bytes) : Buffered × Option Failure :=
  if piece.length ≤ capacity then (b.hold piece, none) else b.direct piece

/-- Write a piece: into the buffer if it fits, else fill the buffer up, hand it on, and write the
rest. -/
def write (b : Buffered) (piece : Bytes) : Buffered × Option Failure :=
  match b.failure with
  | some failure => (b, some failure)
  | none =>
    if b.size + piece.length ≤ capacity then (b.hold piece, none)
    else if b.size = 0 then b.writeEmpty piece
    else
      match (b.hold (piece.take (capacity - b.size))).flush with
      | (b', none) => b'.writeEmpty (piece.drop (capacity - b.size))
      | (b', some failure) => (b', some failure)

instance : Writer Buffered := ⟨Buffered.write⟩

end Buffered

end Literate
