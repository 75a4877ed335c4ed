import Mathlib.Tactic
import Mathlib.Data.List.Basic

/-!
# Outboxes

An outbox takes a stream of items and passes them on in order.  Items leave it
at the front, either sent or removed, and the outbox remembers the blocks in
which they left.  Whatever the mixture of sends and removals, the blocks that
left followed by the items still waiting are the stream.

Main definitions:

- `Outbox.stream`, `Outbox.sent`: what was taken and what was passed on.
- `Outbox.accept`: take a block, making room by removing the oldest items.

Main results:

- Theorems `stream_send`, `stream_remove`, `stream_push`: only a push changes
  the stream, and it appends to it.
- Theorem `pending_suffix_stream`: the waiting items are the end of the stream.
- Theorem `stream_accept`: a block that is taken goes to the end of the stream.
-/

namespace DtCore
namespace Foundation

universe u

variable {α : Type u}

/-- What became of a block that left an outbox. -/
inductive Fate where
  | sent
  | removed
deriving DecidableEq

/-- The blocks that left, oldest first, and the items that still wait. -/
structure Outbox (α : Type u) where
  gone : List (Fate × List α)
  pending : List α

namespace Outbox

/-- Nothing was taken. -/
def empty : Outbox α where
  gone := []
  pending := []

/-- Everything that was taken, in order. -/
def stream (o : Outbox α) : List α :=
  (o.gone.map Prod.snd).flatten ++ o.pending

/-- The blocks that left with one fate. -/
def blocks (fate : Fate) (o : Outbox α) : List (List α) :=
  (o.gone.filter (fun b => b.1 = fate)).map Prod.snd

/-- Everything that was passed on, in order. -/
def sent (o : Outbox α) : List α :=
  (o.blocks .sent).flatten

/-- Take a block. -/
def push (data : List α) (o : Outbox α) : Outbox α :=
  { o with pending := o.pending ++ data }

/-- The oldest `n` items leave. -/
def leave (fate : Fate) (n : Nat) (o : Outbox α) : Outbox α where
  gone := o.gone ++ [(fate, o.pending.take n)]
  pending := o.pending.drop n

/-- Pass on the oldest `n` items. -/
def send (n : Nat) (o : Outbox α) : Outbox α :=
  o.leave .sent n

/-- Lose the oldest `n` items. -/
def remove (n : Nat) (o : Outbox α) : Outbox α :=
  o.leave .removed n

/-- Pass on blocks of the given lengths. -/
def sendAll : List Nat → Outbox α → Outbox α
  | [], o => o
  | n :: ns, o => sendAll ns (o.send n)

/-- Take a block; when it does not fit, exactly the oldest items in excess are
removed first. -/
def accept (capacity : Nat) (data : List α) (o : Outbox α) : Outbox α :=
  if o.pending.length + data.length ≤ capacity then o.push data
  else (o.remove (o.pending.length + data.length - capacity)).push data

/-! ## The stream -/

@[simp]
theorem stream_push (data : List α) (o : Outbox α) :
    (o.push data).stream = o.stream ++ data := by
  simp [stream, push]

@[simp]
theorem stream_leave (fate : Fate) (n : Nat) (o : Outbox α) :
    (o.leave fate n).stream = o.stream := by
  simp [stream, leave]

@[simp]
theorem stream_send (n : Nat) (o : Outbox α) : (o.send n).stream = o.stream :=
  stream_leave .sent n o

@[simp]
theorem stream_remove (n : Nat) (o : Outbox α) : (o.remove n).stream = o.stream :=
  stream_leave .removed n o

@[simp]
theorem stream_sendAll (ns : List Nat) (o : Outbox α) : (o.sendAll ns).stream = o.stream := by
  induction ns generalizing o with
  | nil => rfl
  | cons n ns ih => rw [sendAll, ih, stream_send]

@[simp]
theorem stream_accept (capacity : Nat) (data : List α) (o : Outbox α) :
    (o.accept capacity data).stream = o.stream ++ data := by
  rw [accept]
  split
  · exact stream_push data o
  · rw [stream_push, stream_remove]

/-- The waiting items are the end of the stream. -/
theorem pending_suffix_stream (o : Outbox α) : o.pending <:+ o.stream :=
  List.suffix_append _ _

/-! ## What was passed on -/

@[simp]
theorem sent_send (n : Nat) (o : Outbox α) : (o.send n).sent = o.sent ++ o.pending.take n := by
  simp [sent, blocks, send, leave]

@[simp]
theorem sent_remove (n : Nat) (o : Outbox α) : (o.remove n).sent = o.sent := by
  simp [sent, blocks, remove, leave]

@[simp]
theorem pending_push (data : List α) (o : Outbox α) :
    (o.push data).pending = o.pending ++ data :=
  rfl

@[simp]
theorem pending_send (n : Nat) (o : Outbox α) : (o.send n).pending = o.pending.drop n :=
  rfl

@[simp]
theorem pending_remove (n : Nat) (o : Outbox α) : (o.remove n).pending = o.pending.drop n :=
  rfl

end Outbox

end Foundation
end DtCore
