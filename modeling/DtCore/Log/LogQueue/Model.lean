import DtCore.Foundation.StepSystem
import DtCore.Foundation.Tickets

/-!
# The MPSC ring buffer of the real-time logger

`LogQueue` is a ring of `m_capacity` slots.  A producer claims a ticket by a
compare-and-swap on `m_head`, writes the slot's data and publishes it through
the slot's sequence number; the single consumer follows `m_tail`.  All counters
are 32-bit words that wrap.

Each atomic access of `TryPush` and `TryPop` is one step, and a thread's program
counter names the access it makes next, so any interleaving of the accesses of
any number of producers and one consumer is a run of `step`.  The history
fields `calls`, `claims` and `popped`, the slot flag `unread` and the load index
`loadedAt` of a producer are never read by a step: they only record what
happened.

Main definitions:

- `State.producerStep`: the accesses of `TryPush`.
- `State.consumerStep`: the accesses of `TryPop`.
- `FreshClaims`: the scheduling assumption under which a 32-bit ticket is used
  before it can come round again.
-/

namespace DtCore
namespace Log
namespace LogQueue

variable {P Entry : Type}

/-! ## Slots and program counters -/

/-- One ring slot.  `unread` records that the data was written and has not been
read by the consumer since. -/
structure Slot (Entry : Type) where
  seq : BitVec 32
  data : Entry
  unread : Bool

/-- The access a producer makes next.  `loadedAt` is the number of successful
claims at the time `head` was loaded. -/
inductive PushPc (Entry : Type) where
  | idle
  | loadHead (entry : Entry)
  | loadSeq (entry : Entry) (head : BitVec 32) (loadedAt : Nat)
  | cas (entry : Entry) (head : BitVec 32) (loadedAt : Nat)
  | writeData (entry : Entry) (head : BitVec 32) (loadedAt : Nat)
  | storeSeq (entry : Entry) (head : BitVec 32) (loadedAt : Nat)
  | returned (ok : Bool)

/-- The access the consumer makes next. -/
inductive PopPc (Entry : Type) where
  | idle
  | loadSeq (tail : BitVec 32)
  | readData (tail : BitVec 32)
  | storeTail (tail : BitVec 32) (out : Entry)
  | storeSeq (tail : BitVec 32) (out : Entry)
  | returned (out : Option Entry)

/-- A successful compare-and-swap: which producer claimed, in which of its
`TryPush` calls, and the entry that call was made with. -/
structure Claim (P Entry : Type) where
  producer : P
  call : Nat
  entry : Entry
deriving DecidableEq

/-- Queue memory, the local state of every thread, and the history of the run. -/
structure State (P Entry : Type) where
  head : BitVec 32
  tail : BitVec 32
  slots : Nat → Slot Entry
  producers : P → PushPc Entry
  consumer : PopPc Entry
  calls : P → List Entry
  claims : List (Claim P Entry)
  popped : List Entry

/-- `LogQueue()`: slot `i` waits for ticket `i` and both counters are zero. -/
def initial [Inhabited Entry] : State P Entry where
  head := 0
  tail := 0
  slots i := { seq := BitVec.ofNat 32 i, data := default, unread := false }
  producers _ := .idle
  consumer := .idle
  calls _ := []
  claims := []
  popped := []

/-! ## State updates -/

/-- Replace the local state of one producer. -/
def State.setProducer [DecidableEq P] (s : State P Entry) (p : P) (pc : PushPc Entry) :
    State P Entry :=
  { s with producers := Function.update s.producers p pc }

/-- Change one slot. -/
def State.modifySlot (s : State P Entry) (i : Nat) (f : Slot Entry → Slot Entry) :
    State P Entry :=
  { s with slots := Function.update s.slots i (f (s.slots i)) }

/-- `head & (m_capacity - 1)`. -/
def slotIndex (N : Nat) (ticket : BitVec 32) : Nat :=
  ticket.toNat &&& (N - 1)

/-- `(int32_t)seq - (int32_t)head` as a wrapping 32-bit difference. -/
def ticketDiff (seq head : BitVec 32) : Int :=
  (seq - head).toInt

/-! ## The steps of `TryPush` and `TryPop` -/

/-- One access of `TryPush`.  A producer between calls has no step. -/
def State.producerStep [DecidableEq P] (N : Nat) (s : State P Entry) (p : P) :
    Option (State P Entry) :=
  match s.producers p with
  | .idle => none
  | .returned _ => none
  | .loadHead entry => some (s.setProducer p (.loadSeq entry s.head s.claims.length))
  | .loadSeq entry head loadedAt =>
      let diff := ticketDiff (s.slots (slotIndex N head)).seq head
      if diff = 0 then
        some (s.setProducer p (.cas entry head loadedAt))
      else if diff < 0 then
        -- queue full
        some (s.setProducer p (.returned false))
      else
        -- head is stale: reload it and run the loop again
        some (s.setProducer p (.loadHead entry))
  | .cas entry head loadedAt =>
      if s.head = head then
        some
          { s.setProducer p (.writeData entry head loadedAt) with
            head := head + 1
            claims := s.claims ++
              [{ producer := p, call := (s.calls p).length - 1, entry := entry }] }
      else
        -- a failed exchange leaves the current value in `head`
        some (s.setProducer p (.loadSeq entry s.head s.claims.length))
  | .writeData entry head loadedAt =>
      some ((s.setProducer p (.storeSeq entry head loadedAt)).modifySlot (slotIndex N head)
        fun slot => { slot with data := entry, unread := true })
  | .storeSeq _ head _ =>
      some ((s.setProducer p (.returned true)).modifySlot (slotIndex N head)
        fun slot => { slot with seq := head + 1 })

/-- One access of `TryPop`; a consumer between calls starts the next one. -/
def State.consumerStep (N : Nat) (s : State P Entry) : State P Entry :=
  match s.consumer with
  | .idle => { s with consumer := .loadSeq s.tail }
  | .returned _ => { s with consumer := .loadSeq s.tail }
  | .loadSeq tail =>
      if ticketDiff (s.slots (slotIndex N tail)).seq (tail + 1) = 0 then
        { s with consumer := .readData tail }
      else { s with consumer := .returned none }
  | .readData tail =>
      { s.modifySlot (slotIndex N tail) (fun slot => { slot with unread := false }) with
        consumer := .storeTail tail (s.slots (slotIndex N tail)).data }
  | .storeTail tail out => { s with tail := tail + 1, consumer := .storeSeq tail out }
  | .storeSeq tail out =>
      { s.modifySlot (slotIndex N tail)
          (fun slot => { slot with seq := tail + BitVec.ofNat 32 N }) with
        consumer := .returned (some out)
        popped := s.popped ++ [out] }

/-- Which thread moves: a producer enters `TryPush`, makes its next access, or
the consumer makes its next access. -/
inductive Label (P Entry : Type) where
  | call (p : P) (entry : Entry)
  | producer (p : P)
  | consumer

/-- Enter `TryPush(entry)`; a thread is inside at most one call. -/
def State.callStep [DecidableEq P] (s : State P Entry) (p : P) (entry : Entry) :
    Option (State P Entry) :=
  match s.producers p with
  | .idle | .returned _ =>
      some
        { s.setProducer p (.loadHead entry) with
          calls := Function.update s.calls p (s.calls p ++ [entry]) }
  | _ => none

/-- The step function of the queue with its threads. -/
def step [DecidableEq P] (N : Nat) (s : State P Entry) :
    Label P Entry → Option (State P Entry)
  | .call p entry => s.callStep p entry
  | .producer p => s.producerStep N p
  | .consumer => some (s.consumerStep N)

/-! ## Scheduling assumption -/

/-- Number of claims other producers made since `p` loaded the `m_head` value it
is about to exchange. -/
def State.claimAge (s : State P Entry) (p : P) : Nat :=
  match s.producers p with
  | .cas _ _ loadedAt => s.claims.length - loadedAt
  | _ => 0

/-- Fewer than `bound` claims happen between a load of `m_head` and the exchange
that uses it. -/
def FreshClaims (bound : Nat) (s : State P Entry) : Label P Entry → Prop
  | .producer p => s.claimAge p < bound
  | .call _ _ => True
  | .consumer => True

instance decidableFreshClaims (bound : Nat) (s : State P Entry) :
    (l : Label P Entry) → Decidable (FreshClaims bound s l)
  | .producer p => inferInstanceAs (Decidable (s.claimAge p < bound))
  | .call _ _ => inferInstanceAs (Decidable True)
  | .consumer => inferInstanceAs (Decidable True)

theorem FreshClaims.mono {bound bound' : Nat} (hle : bound ≤ bound') {s : State P Entry}
    {l : Label P Entry} (h : FreshClaims bound s l) : FreshClaims bound' s l := by
  cases l with
  | call p entry => trivial
  | consumer => trivial
  | producer p => exact Nat.lt_of_lt_of_le h hle

/-- The number of claims since `p` loaded the value of `m_head` that it uses next. -/
def State.headAge (s : State P Entry) (p : P) : Nat :=
  match s.producers p with
  | .loadSeq _ _ loadedAt => s.claims.length - loadedAt
  | .cas _ _ loadedAt => s.claims.length - loadedAt
  | _ => 0

/-- Fewer than `bound` claims happen between a load of `m_head` and each use of it, in the
comparison and in the exchange. -/
def FreshHeads (bound : Nat) (s : State P Entry) : Label P Entry → Prop
  | .producer p => s.headAge p < bound
  | .call _ _ => True
  | .consumer => True

theorem FreshHeads.mono {bound bound' : Nat} (hle : bound ≤ bound') {s : State P Entry}
    {l : Label P Entry} (h : FreshHeads bound s l) : FreshHeads bound' s l := by
  cases l with
  | call p entry => trivial
  | consumer => trivial
  | producer p => exact Nat.lt_of_lt_of_le h hle

theorem FreshHeads.claims {bound : Nat} {s : State P Entry} {l : Label P Entry}
    (h : FreshHeads bound s l) : FreshClaims bound s l := by
  cases l with
  | call p entry => trivial
  | consumer => trivial
  | producer p =>
      have hage : s.claimAge p ≤ s.headAge p := by
        unfold State.claimAge State.headAge
        cases s.producers p with
        | cas entry head t => exact Nat.le_refl _
        | _ => exact Nat.zero_le _
      exact Nat.lt_of_le_of_lt hage h

/-- States of the queue in runs whose claims are fresh. -/
def Reachable [DecidableEq P] [Inhabited Entry] (N bound : Nat) (s : State P Entry) : Prop :=
  Foundation.Reach (step N) (FreshClaims bound) initial s

end LogQueue
end Log
end DtCore
