import Mathlib.Tactic
import DtCore.Foundation.Block

/-!
# The coloured stdout sink

`ColorStdoutSinkT` formats messages into a buffer of 64 KB and writes it to a
non-blocking descriptor.  `FlushBuffer` keeps what the descriptor does not take
and `AppendData` discards the oldest bytes when the buffer is still too full.

The results of `write` are part of the state.  A call that needs a result when
none is left is still inside `write`; a copy that would leave `m_buf` ends the
run with `outOfBounds`.

Main definitions:

- `State.writeLoop`, `State.flushBuffer`: `FlushBuffer`.
- `State.appendData`: `AppendData`.
- `State.calls`: a sequence of calls.
-/

namespace DtCore
namespace Log
namespace ColorSink

open Foundation

/-- Bytes of a message or of the terminal's input. -/
abbrev Bytes := List UInt8

/-- `RtLogConstant::INTERNAL_BUF_SIZE`. -/
def internalBufSize : Nat := 65536

/-- The values of `errno` after a failing `write`. -/
inductive Errno where
  | eintr
  | eagain
  | other
deriving DecidableEq

/-- A result of `write`; a count beyond the request stands for a full write. -/
inductive WriteResult where
  | count (n : Nat)
  | fail (errno : Errno)
deriving DecidableEq

/-- The members of a sink, what its descriptor received and the results that
`write` still has in store. -/
structure State where
  buf : Block UInt8 internalBufSize
  pos : Nat
  fd : Bytes
  writes : List WriteResult

/-- The constructor. -/
def State.construct (writes : List WriteResult) : State where
  buf := Block.fill 0
  pos := 0
  fd := []
  writes := writes

/-- How a piece of a member function ends. -/
inductive Outcome (α : Type) where
  | done (a : α)
  | inWrite (s : State)
  | outOfBounds

/-- Continue behind a piece that ended. -/
def Outcome.bind {α β : Type} (x : Outcome α) (f : α → Outcome β) : Outcome β :=
  match x with
  | .done a => f a
  | .inWrite s => .inWrite s
  | .outOfBounds => .outOfBounds

/-- The result of a copy inside `m_buf`. -/
def Outcome.ofCopy {α : Type} : Option α → Outcome α
  | some a => .done a
  | none => .outOfBounds

/-- Subtraction of `size_t`. -/
def sizeSub (a b : Nat) : Nat :=
  (a + 2 ^ 64 - b) % 2 ^ 64

/-! ## FlushBuffer -/

/-- The loop of `FlushBuffer` with the results of `write` in order; it ends with
the number of bytes written. -/
def State.writeLoop : List WriteResult → Nat → State → Outcome (Nat × State)
  | [], written, s =>
      if written < s.pos then .inWrite { s with writes := [] }
      else .done (written, { s with writes := [] })
  | r :: rs, written, s =>
      if written < s.pos then
        (Outcome.ofCopy (s.buf.slice written (s.pos - written))).bind (fun data =>
          match r with
          | .count 0 => .done (written, { s with writes := rs })
          | .count (n + 1) =>
              State.writeLoop rs (written + (data.take (n + 1)).length)
                { s with fd := s.fd ++ data.take (n + 1) }
          | .fail .eintr => State.writeLoop rs written s
          | .fail _ => .done (written, { s with writes := rs }))
      else .done (written, { s with writes := r :: rs })

/-- The end of `FlushBuffer`: slide the unwritten bytes to the front. -/
def State.slide (written : Nat) (s : State) : Outcome State :=
  if written ≥ s.pos then .done { s with pos := 0 }
  else
    let remaining := s.pos - written
    if remaining > 0 ∧ written > 0 then
      (Outcome.ofCopy (s.buf.move 0 written remaining)).bind (fun buf =>
        .done { s with buf := buf, pos := remaining })
    else .done { s with pos := remaining }

/-- `FlushBuffer`. -/
def State.flushBuffer (s : State) : Outcome State :=
  if s.pos = 0 then .done s
  else (State.writeLoop s.writes 0 s).bind (fun e => e.2.slide e.1)

/-! ## AppendData -/

/-- Of a message as large as the buffer only the tail is kept. -/
def clip (data : Bytes) : Bytes :=
  if data.length ≥ internalBufSize then
    data.drop (data.length - (internalBufSize - 1))
  else data

/-- Slide out the oldest bytes when the flush left too many. -/
def State.makeRoom (len : Nat) (s : State) : Outcome State :=
  if s.pos + len > internalBufSize then
    let discard := sizeSub (s.pos + len) internalBufSize
    (Outcome.ofCopy (s.buf.move 0 discard (sizeSub s.pos discard))).bind (fun buf =>
      .done { s with buf := buf, pos := sizeSub s.pos discard })
  else .done s

/-- The final `memcpy` of `AppendData`. -/
def State.store (data : Bytes) (s : State) : Outcome State :=
  (Outcome.ofCopy (s.buf.copyIn s.pos data)).bind (fun buf =>
    .done { s with buf := buf, pos := s.pos + data.length })

/-- `AppendData` behind the clipping. -/
def State.appendClipped (data : Bytes) (s : State) : Outcome State :=
  if s.pos + data.length > internalBufSize then
    (s.flushBuffer.bind (State.makeRoom data.length)).bind (State.store data)
  else s.store data

/-- `AppendData`. -/
def State.appendData (data : Bytes) (s : State) : Outcome State :=
  if data.length = 0 then .done s
  else s.appendClipped (clip data)

/-! ## Runs -/

/-- The calls that the sink's entry points make. -/
inductive Call where
  | appendData (data : Bytes)
  | flushBuffer

/-- The bytes that a call adds to the stream. -/
def Call.bytes : Call → Bytes
  | .appendData data => clip data
  | .flushBuffer => []

/-- One call. -/
def State.call (s : State) : Call → Outcome State
  | .appendData data => s.appendData data
  | .flushBuffer => s.flushBuffer

/-- A sequence of calls. -/
def State.calls : List Call → State → Outcome State
  | [], s => .done s
  | c :: cs, s => (s.call c).bind (State.calls cs)

/-- The stream: what all calls add, in order. -/
def stream (cs : List Call) : Bytes :=
  (cs.map Call.bytes).flatten

end ColorSink
end Log
end DtCore
