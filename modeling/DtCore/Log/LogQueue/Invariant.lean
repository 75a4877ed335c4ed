import DtCore.Log.LogQueue.Model

/-!
# The slot invariant of the ring buffer

The number of claims is the true `m_head` ticket and the number of completed
pops is the first ticket that is not yet released.  The `N` tickets from there
on each own one slot, and the invariant says what the slot of each of them
holds: a ticket not yet claimed finds its slot free, a claimed one is either
still being written by the producer that claimed it or published.

Main results:

- Structure `Invariant`: the facts that tie the wrapped words to the tickets.
- Theorem `Reachable.inv`: every state of every fresh run satisfies it.
-/

namespace DtCore
namespace Log
namespace LogQueue

open Foundation

variable {P Entry : Type}

/-! ## Field lemmas of the state updates -/

section Updates

variable [DecidableEq P]

@[simp]
theorem setProducer_head (s : State P Entry) (p : P) (pc : PushPc Entry) :
    (s.setProducer p pc).head = s.head :=
  rfl

@[simp]
theorem setProducer_tail (s : State P Entry) (p : P) (pc : PushPc Entry) :
    (s.setProducer p pc).tail = s.tail :=
  rfl

@[simp]
theorem setProducer_slots (s : State P Entry) (p : P) (pc : PushPc Entry) :
    (s.setProducer p pc).slots = s.slots :=
  rfl

@[simp]
theorem setProducer_consumer (s : State P Entry) (p : P) (pc : PushPc Entry) :
    (s.setProducer p pc).consumer = s.consumer :=
  rfl

@[simp]
theorem setProducer_calls (s : State P Entry) (p : P) (pc : PushPc Entry) :
    (s.setProducer p pc).calls = s.calls :=
  rfl

@[simp]
theorem setProducer_claims (s : State P Entry) (p : P) (pc : PushPc Entry) :
    (s.setProducer p pc).claims = s.claims :=
  rfl

@[simp]
theorem setProducer_popped (s : State P Entry) (p : P) (pc : PushPc Entry) :
    (s.setProducer p pc).popped = s.popped :=
  rfl

@[simp]
theorem setProducer_self (s : State P Entry) (p : P) (pc : PushPc Entry) :
    (s.setProducer p pc).producers p = pc := by
  simp [State.setProducer]

theorem setProducer_ne (s : State P Entry) {p q : P} (pc : PushPc Entry) (hqp : q ≠ p) :
    (s.setProducer p pc).producers q = s.producers q := by
  simp [State.setProducer, hqp]

end Updates

@[simp]
theorem modifySlot_self (s : State P Entry) (i : Nat) (f : Slot Entry → Slot Entry) :
    (s.modifySlot i f).slots i = f (s.slots i) := by
  simp [State.modifySlot]

theorem modifySlot_ne (s : State P Entry) {i j : Nat} (f : Slot Entry → Slot Entry)
    (hji : j ≠ i) : (s.modifySlot i f).slots j = s.slots j := by
  simp [State.modifySlot, hji]

/-! ## What each thread relies on -/

/-- The ticket a producer has claimed and not yet published. -/
def PushPc.pending : PushPc Entry → Option Nat
  | .writeData _ _ loadedAt => some loadedAt
  | .storeSeq _ _ loadedAt => some loadedAt
  | _ => none

/-- The consumer has read the slot's data but not yet released the slot. -/
def PopPc.hasRead : PopPc Entry → Bool
  | .storeTail _ _ => true
  | .storeSeq _ _ => true
  | _ => false

/-- The consumer found the slot at its tail published and has not released it. -/
def PopPc.holding : PopPc Entry → Bool
  | .readData _ => true
  | .storeTail _ _ => true
  | .storeSeq _ _ => true
  | _ => false

/-- The true ticket behind `m_tail`: it runs one ahead of the completed pops
between the two stores of `TryPop`. -/
def State.tailTicket (s : State P Entry) : Nat :=
  match s.consumer with
  | .storeSeq _ _ => s.popped.length + 1
  | _ => s.popped.length

/-- The slot that serves ticket `t`. -/
def State.slotOf (N : Nat) (s : State P Entry) (t : Nat) : Slot Entry :=
  s.slots (t % N)

/-- The slot of an unclaimed ticket waits for exactly this ticket. -/
def Free (N : Nat) (s : State P Entry) (t : Nat) : Prop :=
  (s.slotOf N t).seq = BitVec.ofNat 32 t ∧ (s.slotOf N t).unread = false

/-- The slot of a published ticket holds its entry until the consumer reads it. -/
def Published (N : Nat) (s : State P Entry) (t : Nat) (c : Claim P Entry) : Prop :=
  (s.slotOf N t).seq = BitVec.ofNat 32 (t + 1) ∧ (s.slotOf N t).data = c.entry ∧
    ((s.slotOf N t).unread = true ∨ (t = s.popped.length ∧ s.consumer.hasRead = true))

/-- Ticket `t` was claimed by `p` for `entry` and its slot is still `p`'s. -/
def Owns (N : Nat) (s : State P Entry) (p : P) (entry : Entry) (t : Nat) : Prop :=
  s.popped.length ≤ t ∧
    (∃ c, s.claims[t]? = some c ∧ c.producer = p ∧ c.entry = entry) ∧
    (s.slotOf N t).seq = BitVec.ofNat 32 t

/-- Facts a producer relies on at each of its accesses. -/
def ProducerOk (N : Nat) (s : State P Entry) (p : P) : PushPc Entry → Prop
  | .idle => True
  | .returned _ => True
  | .loadHead _ => True
  | .loadSeq _ head t => head = BitVec.ofNat 32 t ∧ t ≤ s.claims.length
  | .cas _ head t =>
      head = BitVec.ofNat 32 t ∧ t ≤ s.claims.length ∧
        (t = s.claims.length → s.claims.length < s.popped.length + N)
  | .writeData entry head t =>
      head = BitVec.ofNat 32 t ∧ Owns N s p entry t ∧ (s.slotOf N t).unread = false
  | .storeSeq entry head t =>
      head = BitVec.ofNat 32 t ∧ Owns N s p entry t ∧
        (s.slotOf N t).unread = true ∧ (s.slotOf N t).data = entry

/-- The consumer holds the first unreleased ticket, which is published. -/
def ConsumerHolds (N : Nat) (s : State P Entry) (tail : BitVec 32) : Prop :=
  tail = BitVec.ofNat 32 s.popped.length ∧ s.popped.length < s.claims.length ∧
    (s.slotOf N s.popped.length).seq = BitVec.ofNat 32 (s.popped.length + 1)

/-- The consumer has read the entry of the ticket it holds. -/
def ConsumerRead (N : Nat) (s : State P Entry) (tail : BitVec 32) (out : Entry) : Prop :=
  ConsumerHolds N s tail ∧ (s.slotOf N s.popped.length).unread = false ∧
    ∃ c, s.claims[s.popped.length]? = some c ∧ c.entry = out

/-- Facts the consumer relies on at each of its accesses. -/
def ConsumerOk (N : Nat) (s : State P Entry) : PopPc Entry → Prop
  | .idle => True
  | .returned _ => True
  | .loadSeq tail => tail = BitVec.ofNat 32 s.popped.length
  | .readData tail => ConsumerHolds N s tail
  | .storeTail tail out => ConsumerRead N s tail out
  | .storeSeq tail out => ConsumerRead N s tail out

/-- The invariant of the ring: counters, window, slots and threads. -/
structure Invariant (N : Nat) (s : State P Entry) : Prop where
  head_eq : s.head = BitVec.ofNat 32 s.claims.length
  tail_eq : s.tail = BitVec.ofNat 32 s.tailTicket
  tail_le : s.popped.length ≤ s.claims.length
  room : s.claims.length ≤ s.popped.length + N
  free : ∀ t, s.claims.length ≤ t → t < s.popped.length + N → Free N s t
  claimed : ∀ t c, s.claims[t]? = some c → s.popped.length ≤ t →
    Published N s t c ∨ (s.producers c.producer).pending = some t
  producers : ∀ p, ProducerOk N s p (s.producers p)
  consumer : ConsumerOk N s s.consumer

/-- The capacities the ring is used with: powers of two from 2 to `2 ^ 31`. -/
def ValidCapacity (N : Nat) : Prop :=
  ∃ k, 1 ≤ k ∧ k ≤ 31 ∧ N = 2 ^ k

theorem ValidCapacity.two_le {N : Nat} (hN : ValidCapacity N) : 2 ≤ N := by
  obtain ⟨k, hk, -, rfl⟩ := hN
  calc
    2 = 2 ^ 1 := rfl
    _ ≤ 2 ^ k := Nat.pow_le_pow_right (by decide) hk

theorem ValidCapacity.le {N : Nat} (hN : ValidCapacity N) : N ≤ 2 ^ 31 := by
  obtain ⟨k, -, hk, rfl⟩ := hN
  exact Nat.pow_le_pow_right (by decide) hk

/-- The masked word of a ticket is the index of its slot. -/
theorem ValidCapacity.slotIndex_eq {N : Nat} (hN : ValidCapacity N) (t : Nat) :
    slotIndex N (BitVec.ofNat 32 t) = t % N := by
  obtain ⟨k, -, hk, rfl⟩ := hN
  exact mask_eq_mod (by omega) t

/-! ## Words and tickets -/

/-- A zero difference means that both words agree. -/
theorem ticketDiff_eq_zero_iff (seq head : BitVec 32) :
    ticketDiff seq head = 0 ↔ seq = head := by
  unfold ticketDiff
  constructor
  · intro h
    have hzero : seq - head = 0#32 := BitVec.eq_of_toInt_eq (by simpa using h)
    calc
      seq = seq - head + head := (BitVec.sub_add_cancel seq head).symm
      _ = head := by rw [hzero, BitVec.zero_add]
  · rintro rfl
    simp

theorem word_ne_succ (t : Nat) : BitVec.ofNat 32 t ≠ BitVec.ofNat 32 (t + 1) := by
  intro h
  have := ofNat_eq_of_near (Nat.le_succ t) (by norm_num) h
  omega

/-- A claimed ticket lies inside the window, so two claimed tickets of the
window have different slots. -/
theorem Invariant.slot_ne {N : Nat} {s : State P Entry} (h : Invariant N s) {t u : Nat}
    (ht : s.popped.length ≤ t) (ht' : t < s.claims.length)
    (hu : s.popped.length ≤ u) (hu' : u < s.popped.length + N) (hne : u ≠ t) :
    u % N ≠ t % N :=
  mod_ne_of_window hu hu' ht (Nat.lt_of_lt_of_le ht' h.room) hne

/-- The first unreleased ticket is published as soon as its slot carries the
next sequence number. -/
theorem Invariant.published_of_seq {N : Nat} {s : State P Entry} (h : Invariant N s)
    (hlt : s.popped.length < s.claims.length)
    (hseq : (s.slotOf N s.popped.length).seq = BitVec.ofNat 32 (s.popped.length + 1)) :
    Published N s s.popped.length s.claims[s.popped.length] := by
  rcases h.claimed s.popped.length s.claims[s.popped.length]
    (List.getElem?_eq_getElem hlt) le_rfl with hpub | hpend
  · exact hpub
  · exfalso
    have hok := h.producers s.claims[s.popped.length].producer
    cases hpc : s.producers s.claims[s.popped.length].producer with
    | idle => simp [hpc, PushPc.pending] at hpend
    | loadHead entry => simp [hpc, PushPc.pending] at hpend
    | loadSeq entry head t => simp [hpc, PushPc.pending] at hpend
    | cas entry head t => simp [hpc, PushPc.pending] at hpend
    | returned ok => simp [hpc, PushPc.pending] at hpend
    | writeData entry head t =>
        simp only [hpc, PushPc.pending, Option.some.injEq] at hpend
        simp only [hpc, ProducerOk, Owns, hpend] at hok
        exact word_ne_succ _ (hok.2.1.2.2.symm.trans hseq)
    | storeSeq entry head t =>
        simp only [hpc, PushPc.pending, Option.some.injEq] at hpend
        simp only [hpc, ProducerOk, Owns, hpend] at hok
        exact word_ne_succ _ (hok.2.1.2.2.symm.trans hseq)

/-- A slot that shows sequence number `tail + 1` belongs to a claimed ticket. -/
theorem Invariant.claimed_of_seq {N : Nat} {s : State P Entry} (hN : ValidCapacity N)
    (h : Invariant N s)
    (hseq : (s.slotOf N s.popped.length).seq = BitVec.ofNat 32 (s.popped.length + 1)) :
    s.popped.length < s.claims.length := by
  by_contra hle
  have hfree := h.free s.popped.length (by omega) (by have := hN.two_le; omega)
  exact word_ne_succ _ (hfree.1.symm.trans hseq)

/-! ## Transport to the next state -/

/-- What a producer relies on survives any step of another thread that only
adds claims and pops and leaves the slot of its pending ticket alone. -/
theorem ProducerOk.mono {N : Nat} {s s' : State P Entry} {p : P} {pc : PushPc Entry}
    (h : ProducerOk N s p pc) (hclaims : s.claims <+: s'.claims)
    (hpopped : s.popped.length ≤ s'.popped.length)
    (hpending : ∀ t, pc.pending = some t →
      s'.popped.length ≤ t ∧ s'.slotOf N t = s.slotOf N t) :
    ProducerOk N s' p pc := by
  have hlen := hclaims.length_le
  have howns : ∀ entry t, pc.pending = some t → Owns N s p entry t → Owns N s' p entry t := by
    intro entry t ht ho
    obtain ⟨hle, hslot⟩ := hpending t ht
    obtain ⟨c, hc, hp, he⟩ := ho.2.1
    refine ⟨hle, ⟨c, ?_, hp, he⟩, ?_⟩
    · obtain ⟨more, hmore⟩ := hclaims
      obtain ⟨hlt, -⟩ := List.getElem?_eq_some_iff.mp hc
      rw [← hmore, List.getElem?_append_left hlt]
      exact hc
    · rw [hslot]
      exact ho.2.2
  cases pc with
  | idle => trivial
  | returned ok => trivial
  | loadHead entry => trivial
  | loadSeq entry head t => exact ⟨h.1, h.2.trans hlen⟩
  | cas entry head t =>
      obtain ⟨hhead, hle, hroom⟩ := h
      refine ⟨hhead, hle.trans hlen, ?_⟩
      intro ht
      have := hroom (by omega)
      omega
  | writeData entry head t =>
      obtain ⟨hhead, ho, hunread⟩ := h
      refine ⟨hhead, howns entry t rfl ho, ?_⟩
      rw [(hpending t rfl).2]
      exact hunread
  | storeSeq entry head t =>
      obtain ⟨hhead, ho, hunread, hdata⟩ := h
      refine ⟨hhead, howns entry t rfl ho, ?_⟩
      rw [(hpending t rfl).2]
      exact ⟨hunread, hdata⟩

/-- What the consumer relies on survives any step of a producer that leaves the
slot the consumer holds alone. -/
theorem ConsumerOk.mono {N : Nat} {s s' : State P Entry} {pc : PopPc Entry}
    (h : ConsumerOk N s pc) (hclaims : s.claims <+: s'.claims) (hpopped : s'.popped = s.popped)
    (hslot : pc.holding = true → s'.slotOf N s.popped.length = s.slotOf N s.popped.length) :
    ConsumerOk N s' pc := by
  have hholds : ∀ tail, pc.holding = true → ConsumerHolds N s tail → ConsumerHolds N s' tail := by
    intro tail hpc hh
    obtain ⟨htail, hlt, hseq⟩ := hh
    refine ⟨?_, ?_, ?_⟩
    · rw [hpopped]
      exact htail
    · rw [hpopped]
      exact hlt.trans_le hclaims.length_le
    · rw [hpopped, hslot hpc]
      exact hseq
  have hread : ∀ tail out, pc.holding = true → ConsumerRead N s tail out →
      ConsumerRead N s' tail out := by
    intro tail out hpc hh
    obtain ⟨hold, hun, c, hc, hout⟩ := hh
    refine ⟨hholds tail hpc hold, ?_, c, ?_, hout⟩
    · rw [hpopped, hslot hpc]
      exact hun
    · obtain ⟨more, hmore⟩ := hclaims
      rw [hpopped, ← hmore, List.getElem?_append_left hold.2.1]
      exact hc
  cases pc with
  | idle => trivial
  | returned out => trivial
  | loadSeq tail =>
      change tail = _
      rw [hpopped]
      exact h
  | readData tail => exact hholds tail rfl h
  | storeTail tail out => exact hread tail out rfl h
  | storeSeq tail out => exact hread tail out rfl h

/-- A holding consumer sees its own ticket published. -/
theorem ConsumerOk.seq_of_holding {N : Nat} {s : State P Entry} {pc : PopPc Entry}
    (h : ConsumerOk N s pc) (hpc : pc.holding = true) :
    s.popped.length < s.claims.length ∧
      (s.slotOf N s.popped.length).seq = BitVec.ofNat 32 (s.popped.length + 1) := by
  cases pc with
  | idle => simp [PopPc.holding] at hpc
  | returned out => simp [PopPc.holding] at hpc
  | loadSeq tail => simp [PopPc.holding] at hpc
  | readData tail => exact h.2
  | storeTail tail out => exact h.1.2
  | storeSeq tail out => exact h.1.2

/-- A pending ticket is claimed by its producer and not yet released. -/
theorem ProducerOk.pending_owns {N : Nat} {s : State P Entry} {p : P} {pc : PushPc Entry}
    (h : ProducerOk N s p pc) {t : Nat} (ht : pc.pending = some t) :
    ∃ entry, Owns N s p entry t := by
  cases pc with
  | idle => simp [PushPc.pending] at ht
  | returned ok => simp [PushPc.pending] at ht
  | loadHead entry => simp [PushPc.pending] at ht
  | loadSeq entry head u => simp [PushPc.pending] at ht
  | cas entry head u => simp [PushPc.pending] at ht
  | writeData entry head u =>
      simp only [PushPc.pending, Option.some.injEq] at ht
      exact ⟨entry, ht ▸ h.2.1⟩
  | storeSeq entry head u =>
      simp only [PushPc.pending, Option.some.injEq] at ht
      exact ⟨entry, ht ▸ h.2.1⟩

theorem Owns.lt {N : Nat} {s : State P Entry} {p : P} {entry : Entry} {t : Nat}
    (h : Owns N s p entry t) : t < s.claims.length := by
  obtain ⟨c, hc, -⟩ := h.2.1
  exact (List.getElem?_eq_some_iff.mp hc).1

/-- Two producers never have the same ticket pending. -/
theorem Invariant.pending_ne {N : Nat} {s : State P Entry} (h : Invariant N s) {p q : P}
    (hpq : q ≠ p) {t u : Nat} (ht : (s.producers p).pending = some t)
    (hu : (s.producers q).pending = some u) : u ≠ t := by
  rintro rfl
  obtain ⟨e, -, ⟨c, hc, hcp, -⟩, -⟩ := (h.producers p).pending_owns ht
  obtain ⟨e', -, ⟨c', hc', hcq, -⟩, -⟩ := (h.producers q).pending_owns hu
  rw [hc] at hc'
  cases hc'
  exact hpq (hcq.symm.trans hcp)

/-- The word a producer loads from `m_head` is the word of the next ticket. -/
theorem Invariant.loaded {N : Nat} {s : State P Entry} (h : Invariant N s) (p : P) (entry : Entry) :
    ProducerOk N s p (.loadSeq entry s.head s.claims.length) :=
  ⟨h.head_eq, le_rfl⟩

/-- When the slot shows the loaded ticket itself, either the ticket is already
claimed, so that the exchange will fail, or its slot is free. -/
theorem Invariant.room_of_seq {N : Nat} {s : State P Entry} (hN : ValidCapacity N)
    (h : Invariant N s)
    (hseq : (s.slotOf N s.claims.length).seq = BitVec.ofNat 32 s.claims.length) :
    s.claims.length < s.popped.length + N := by
  have htwo := hN.two_le
  have hle := hN.le
  by_contra hfull
  have heq : s.claims.length = s.popped.length + N := by
    have := h.room
    omega
  -- the ring is full, so this is the slot of the first unreleased ticket
  have hslot : s.slotOf N s.claims.length = s.slotOf N s.popped.length := by
    unfold State.slotOf
    rw [heq, Nat.add_mod_right]
  have hlt : s.popped.length < s.claims.length := by omega
  rw [hslot, heq] at hseq
  rcases h.claimed s.popped.length s.claims[s.popped.length]
    (List.getElem?_eq_getElem hlt) le_rfl with hpub | hpend
  · have := ofNat_eq_of_near (by omega) (by omega) (hpub.1.symm.trans hseq)
    omega
  · obtain ⟨entry, hown⟩ := (h.producers _).pending_owns hpend
    have := ofNat_eq_of_near (by omega) (by omega) (hown.2.2.symm.trans hseq)
    omega

/-- The consumer never holds the slot of a pending ticket. -/
theorem Invariant.holding_ne_pending {N : Nat} {s : State P Entry} (h : Invariant N s)
    {p : P} {t : Nat}
    (hpend : (s.producers p).pending = some t) (hhold : s.consumer.holding = true) :
    s.popped.length ≠ t := by
  rintro rfl
  obtain ⟨entry, hown⟩ := (h.producers p).pending_owns hpend
  exact word_ne_succ _ (hown.2.2.symm.trans (h.consumer.seq_of_holding hhold).2)

/-! ## The steps of `TryPush` -/

section Steps

variable [DecidableEq P] {N : Nat} {s : State P Entry}

/-- A step that only moves a producer between accesses without a claim. -/
theorem Invariant.setProducer (h : Invariant N s) {p : P} {pc : PushPc Entry}
    (hold : (s.producers p).pending = none) (hok : ProducerOk N s p pc)
    (hnew : pc.pending = none) : Invariant N (s.setProducer p pc) where
  head_eq := h.head_eq
  tail_eq := h.tail_eq
  tail_le := h.tail_le
  room := h.room
  free := h.free
  claimed := by
    intro t c hc ht
    rcases h.claimed t c hc ht with hpub | hpend
    · exact Or.inl hpub
    · right
      have hcp : c.producer ≠ p := by
        intro heq
        rw [heq, hold] at hpend
        contradiction
      rw [setProducer_ne s pc hcp]
      exact hpend
  producers := by
    intro q
    by_cases hqp : q = p
    · subst q
      rw [setProducer_self]
      exact hok.mono (List.prefix_refl _) le_rfl (by simp [hnew])
    · rw [setProducer_ne s pc hqp]
      refine (h.producers q).mono (List.prefix_refl _) le_rfl ?_
      intro t ht
      obtain ⟨entry, hown⟩ := (h.producers q).pending_owns ht
      exact ⟨hown.1, rfl⟩
  consumer := h.consumer.mono (List.prefix_refl _) rfl (fun _ => rfl)

/-- A successful exchange of a fresh ticket claims the first unclaimed one. -/
theorem Invariant.claim (h : Invariant N s) {p : P} {entry : Entry} {head : BitVec 32}
    {t call : Nat} (hpc : s.producers p = .cas entry head t)
    (hfresh : s.claims.length - t < 2 ^ 32) (hhead : s.head = head) :
    Invariant N
      { s.setProducer p (.writeData entry head t) with
        head := head + 1
        claims := s.claims ++ [{ producer := p, call := call, entry := entry }] } := by
  have hok := h.producers p
  rw [hpc] at hok
  obtain ⟨hword, hle, hroom⟩ := hok
  have ht : t = s.claims.length :=
    ofNat_eq_of_near hle hfresh (hword.symm.trans (hhead.symm.trans h.head_eq))
  have hlt := hroom ht
  have hfree := h.free t (by omega) (by omega)
  have hnotpend : (s.producers p).pending = none := by rw [hpc]; rfl
  refine
    { head_eq := ?_
      tail_eq := h.tail_eq
      tail_le := ?_
      room := ?_
      free := ?_
      claimed := ?_
      producers := ?_
      consumer := ?_ }
  · simp only [List.length_append, List.length_cons, List.length_nil]
    rw [hword, ht, ofNat_add_one]
  · simp only [List.length_append, List.length_cons, List.length_nil, setProducer_popped]
    have := h.tail_le
    omega
  · simp only [List.length_append, List.length_cons, List.length_nil, setProducer_popped]
    omega
  · intro u hu hu'
    simp only [List.length_append, List.length_cons, List.length_nil] at hu
    exact h.free u (by omega) hu'
  · intro u c hc hu
    by_cases huq : u < s.claims.length
    · rw [List.getElem?_append_left huq] at hc
      rcases h.claimed u c hc hu with hpub | hpend
      · exact Or.inl hpub
      · right
        have hcp : c.producer ≠ p := by
          intro heq
          rw [heq, hnotpend] at hpend
          contradiction
        exact (congrArg PushPc.pending (setProducer_ne s _ hcp)).trans hpend
    · right
      rw [List.getElem?_append_right (by omega)] at hc
      have hu0 : u - s.claims.length = 0 := by
        by_contra hne
        rw [List.getElem?_eq_none (by simp; omega)] at hc
        contradiction
      rw [hu0] at hc
      simp only [List.getElem?_cons_zero, Option.some.injEq] at hc
      subst hc
      refine (congrArg PushPc.pending (setProducer_self s p _)).trans ?_
      simp only [PushPc.pending, Option.some.injEq]
      omega
  · intro q
    by_cases hqp : q = p
    · subst q
      have hself : (s.setProducer p (.writeData entry head t)).producers p =
          .writeData entry head t := setProducer_self s p _
      simp only [hself]
      refine ⟨hword, ⟨?_, ⟨⟨p, call, entry⟩, ?_, rfl, rfl⟩, hfree.1⟩, hfree.2⟩
      · have := h.tail_le
        simp only [setProducer_popped]
        omega
      · simp [ht]
    · have hq : (s.setProducer p (.writeData entry head t)).producers q = s.producers q :=
        setProducer_ne s _ hqp
      simp only [hq]
      refine (h.producers q).mono (List.prefix_append _ _) le_rfl ?_
      intro u hu
      obtain ⟨entry', hown⟩ := (h.producers q).pending_owns hu
      exact ⟨hown.1, rfl⟩
  · exact h.consumer.mono (List.prefix_append _ _) rfl (fun _ => rfl)

/-- A producer that writes or publishes its pending ticket `t` leaves every
other ticket of the window alone. -/
theorem Invariant.slotOf_update (h : Invariant N s) {p : P} {t : Nat} {pc : PushPc Entry}
    (hpend : (s.producers p).pending = some t) (f : Slot Entry → Slot Entry) {u : Nat}
    (hu : s.popped.length ≤ u) (hu' : u < s.popped.length + N) (hne : u ≠ t) :
    ((s.setProducer p pc).modifySlot (t % N) f).slotOf N u = s.slotOf N u := by
  obtain ⟨entry, hown⟩ := (h.producers p).pending_owns hpend
  exact modifySlot_ne _ f (h.slot_ne hown.1 hown.lt hu hu' hne)

/-- A step of the producer that owns ticket `t`, changing only the slot of `t`:
the new slot has to suit the producer's next access, or `t` has to be
published by the step. -/
theorem Invariant.updateOwn (h : Invariant N s) {p : P} {t : Nat} {pc : PushPc Entry}
    {f : Slot Entry → Slot Entry} (hpend : (s.producers p).pending = some t)
    (hok : ProducerOk N ((s.setProducer p pc).modifySlot (t % N) f) p pc)
    (hdone : pc.pending = some t ∨
      ∀ c, s.claims[t]? = some c →
        Published N ((s.setProducer p pc).modifySlot (t % N) f) t c) :
    Invariant N ((s.setProducer p pc).modifySlot (t % N) f) := by
  obtain ⟨entry, hown⟩ := (h.producers p).pending_owns hpend
  have hroom := h.room
  have hlt := hown.lt
  refine
    { head_eq := h.head_eq
      tail_eq := h.tail_eq
      tail_le := h.tail_le
      room := h.room
      free := ?_
      claimed := ?_
      producers := ?_
      consumer := ?_ }
  · intro u hu hu'
    have hslot : ((s.setProducer p pc).modifySlot (t % N) f).slotOf N u = s.slotOf N u :=
      h.slotOf_update hpend f (h.tail_le.trans hu) hu' (Nat.ne_of_gt (hlt.trans_le hu))
    unfold Free
    rw [hslot]
    exact h.free u hu hu'
  · intro u c hc hu
    by_cases hut : u = t
    · subst u
      rcases hdone with hnew | hpub
      · right
        obtain ⟨c', hc', hcp, -⟩ := hown.2.1
        have hcc : c = c' := by
          rw [show s.claims[t]? = some c from hc] at hc'
          exact Option.some.inj hc'
        rw [hcc, hcp]
        exact (congrArg PushPc.pending (setProducer_self s p pc)).trans hnew
      · exact Or.inl (hpub c hc)
    · have hult : u < s.claims.length := (List.getElem?_eq_some_iff.mp hc).1
      rcases h.claimed u c hc hu with hpub | hpend'
      · left
        unfold Published
        rw [h.slotOf_update hpend f hu (hult.trans_le hroom) hut]
        exact hpub
      · right
        have hcp : c.producer ≠ p := by
          intro heq
          rw [heq, hpend] at hpend'
          exact hut (Option.some.inj hpend').symm
        exact (congrArg PushPc.pending (setProducer_ne s pc hcp)).trans hpend'
  · intro q
    by_cases hqp : q = p
    · subst q
      exact (setProducer_self s p pc).symm ▸ hok
    · have hq : ((s.setProducer p pc).modifySlot (t % N) f).producers q = s.producers q :=
        setProducer_ne s pc hqp
      rw [hq]
      refine (h.producers q).mono (List.prefix_refl _) le_rfl ?_
      intro u hu
      obtain ⟨entry', hown'⟩ := (h.producers q).pending_owns hu
      exact ⟨hown'.1, h.slotOf_update hpend f hown'.1 (hown'.lt.trans_le hroom)
        (h.pending_ne hqp hpend hu)⟩
  · refine h.consumer.mono (List.prefix_refl _) rfl ?_
    intro hhold
    have hne := h.holding_ne_pending hpend hhold
    have hle := hown.1
    exact h.slotOf_update hpend f le_rfl (by omega) hne

/-- Writing the entry into the claimed slot. -/
theorem Invariant.write (h : Invariant N s) {p : P} {entry : Entry} {head : BitVec 32} {t : Nat}
    (hpc : s.producers p = .writeData entry head t) :
    Invariant N ((s.setProducer p (.storeSeq entry head t)).modifySlot (t % N)
      fun slot => { slot with data := entry, unread := true }) := by
  have hok := h.producers p
  rw [hpc] at hok
  obtain ⟨hword, hown, -⟩ := hok
  refine h.updateOwn (by rw [hpc]; rfl) ?_ (Or.inl rfl)
  refine ⟨hword, ⟨hown.1, hown.2.1, ?_⟩, ?_, ?_⟩
  · unfold State.slotOf
    rw [modifySlot_self]
    exact hown.2.2
  · unfold State.slotOf
    rw [modifySlot_self]
  · unfold State.slotOf
    rw [modifySlot_self]

/-- Publishing the written slot. -/
theorem Invariant.publish (h : Invariant N s) {p : P} {entry : Entry} {head : BitVec 32} {t : Nat}
    (hpc : s.producers p = .storeSeq entry head t) :
    Invariant N ((s.setProducer p (.returned true)).modifySlot (t % N)
      fun slot => { slot with seq := head + 1 }) := by
  have hok := h.producers p
  rw [hpc] at hok
  obtain ⟨hword, hown, hunread, hdata⟩ := hok
  refine h.updateOwn (by rw [hpc]; rfl) trivial (Or.inr ?_)
  intro c hc
  obtain ⟨c', hc', -, hentry⟩ := hown.2.1
  rw [hc] at hc'
  cases hc'
  unfold Published State.slotOf
  rw [modifySlot_self]
  refine ⟨?_, ?_, Or.inl hunread⟩
  · rw [hword, ofNat_add_one]
  · exact hdata.trans hentry.symm

/-- Every access of `TryPush` keeps the invariant, provided an exchange uses a
fresh ticket. -/
theorem Invariant.producerStep (hN : ValidCapacity N) (h : Invariant N s) {p : P}
    {s' : State P Entry} (hfresh : s.claimAge p < 2 ^ 32)
    (hstep : s.producerStep N p = some s') : Invariant N s' := by
  have hok := h.producers p
  unfold State.producerStep at hstep
  split at hstep <;> rename_i hpc
  · contradiction
  · contradiction
  · cases hstep
    exact h.setProducer (by rw [hpc]; rfl) (h.loaded p _) rfl
  · rename_i entry head t
    rw [hpc] at hok
    have hold : (s.producers p).pending = none := by rw [hpc]; rfl
    simp only at hstep
    split at hstep
    · rename_i hdiff
      cases hstep
      refine h.setProducer hold ⟨hok.1, hok.2, ?_⟩ rfl
      intro ht
      rw [ticketDiff_eq_zero_iff, hok.1, hN.slotIndex_eq, ht] at hdiff
      exact h.room_of_seq hN hdiff
    · split at hstep
      · cases hstep
        exact h.setProducer hold trivial rfl
      · cases hstep
        exact h.setProducer hold trivial rfl
  · rename_i entry head t
    split at hstep
    · rename_i hhead
      cases hstep
      refine h.claim hpc ?_ hhead
      simpa [State.claimAge, hpc] using hfresh
    · cases hstep
      exact h.setProducer (by rw [hpc]; rfl) (h.loaded p entry) rfl
  · rename_i entry head t
    rw [hpc] at hok
    cases hstep
    rw [hok.1, hN.slotIndex_eq]
    exact h.write (hok.1 ▸ hpc)
  · rename_i entry head t
    rw [hpc] at hok
    cases hstep
    rw [hok.1, hN.slotIndex_eq]
    exact h.publish (hok.1 ▸ hpc)

/-- Entering `TryPush` touches no shared memory. -/
theorem Invariant.callStep (h : Invariant N s) {p : P} {entry : Entry} {s' : State P Entry}
    (hstep : s.callStep p entry = some s') : Invariant N s' := by
  have hmove : (s.producers p).pending = none →
      Invariant N (s.setProducer p (.loadHead entry)) :=
    fun hold => h.setProducer hold trivial rfl
  unfold State.callStep at hstep
  split at hstep <;> rename_i hpc
  · cases hstep
    have h' := hmove (by rw [hpc]; rfl)
    exact ⟨h'.head_eq, h'.tail_eq, h'.tail_le, h'.room, h'.free, h'.claimed, h'.producers,
      h'.consumer⟩
  · cases hstep
    have h' := hmove (by rw [hpc]; rfl)
    exact ⟨h'.head_eq, h'.tail_eq, h'.tail_le, h'.room, h'.free, h'.claimed, h'.producers,
      h'.consumer⟩
  · contradiction

end Steps

/-! ## The steps of `TryPop` -/

section Consumer

variable {N : Nat} {s : State P Entry}

theorem tailTicket_of_not_read {s : State P Entry} (h : s.consumer.hasRead = false) :
    s.tailTicket = s.popped.length := by
  unfold State.tailTicket
  cases hc : s.consumer <;> simp_all [PopPc.hasRead]

/-- A step that moves the consumer between accesses before it has read. -/
theorem Invariant.setConsumer (h : Invariant N s) {pc : PopPc Entry}
    (hold : s.consumer.hasRead = false) (hok : ConsumerOk N s pc) (hnew : pc.hasRead = false) :
    Invariant N { s with consumer := pc } where
  head_eq := h.head_eq
  tail_eq := by
    rw [tailTicket_of_not_read (s := { s with consumer := pc }) hnew]
    exact tailTicket_of_not_read hold ▸ h.tail_eq
  tail_le := h.tail_le
  room := h.room
  free := h.free
  claimed := by
    intro t c hc ht
    rcases h.claimed t c hc ht with ⟨hseq, hdata, hread⟩ | hpend
    · left
      rcases hread with hunread | ⟨-, hr⟩
      · exact ⟨hseq, hdata, Or.inl hunread⟩
      · rw [hold] at hr
        contradiction
    · exact Or.inr hpend
  producers := by
    intro q
    refine (h.producers q).mono (List.prefix_refl _) le_rfl ?_
    intro t ht
    obtain ⟨entry, hown⟩ := (h.producers q).pending_owns ht
    exact ⟨hown.1, rfl⟩
  consumer := hok.mono (List.prefix_refl _) rfl (fun _ => rfl)

/-- Starting a `TryPop` loads the word of the first unreleased ticket. -/
theorem Invariant.loadTail (h : Invariant N s) (hold : s.consumer.hasRead = false) :
    Invariant N { s with consumer := .loadSeq s.tail } :=
  h.setConsumer hold (h.tail_eq.trans (congrArg _ (tailTicket_of_not_read hold))) rfl

/-- The comparison of `TryPop` finds a published slot or gives up. -/
theorem Invariant.decide (hN : ValidCapacity N) (h : Invariant N s) {tail : BitVec 32}
    (hpc : s.consumer = .loadSeq tail)
    (hdiff : ticketDiff (s.slots (slotIndex N tail)).seq (tail + 1) = 0) :
    Invariant N { s with consumer := .readData tail } := by
  have hok := h.consumer
  rw [hpc] at hok
  have htail : tail = BitVec.ofNat 32 s.popped.length := hok
  rw [ticketDiff_eq_zero_iff, htail, hN.slotIndex_eq, ofNat_add_one] at hdiff
  refine h.setConsumer (by rw [hpc]; rfl) ?_ rfl
  exact ⟨htail, h.claimed_of_seq hN hdiff, hdiff⟩

/-- The slot of a ticket other than the consumer's is not touched by it. -/
theorem Invariant.slotOf_consumer (h : Invariant N s) (hlt : s.popped.length < s.claims.length)
    (f : Slot Entry → Slot Entry) {u : Nat} (hu : s.popped.length ≤ u)
    (hu' : u < s.popped.length + N) (hne : u ≠ s.popped.length) :
    (s.modifySlot (s.popped.length % N) f).slotOf N u = s.slotOf N u :=
  modifySlot_ne _ f (h.slot_ne le_rfl hlt hu hu' hne)

/-- No producer has the consumer's ticket pending. -/
theorem Invariant.pending_ne_tail (h : Invariant N s)
    (hseq : (s.slotOf N s.popped.length).seq = BitVec.ofNat 32 (s.popped.length + 1)) {q : P}
    {u : Nat} (hu : (s.producers q).pending = some u) : u ≠ s.popped.length := by
  rintro rfl
  obtain ⟨entry, hown⟩ := (h.producers q).pending_owns hu
  exact word_ne_succ _ (hown.2.2.symm.trans hseq)

/-- Reading the data of the held slot. -/
theorem Invariant.read (h : Invariant N s) {tail : BitVec 32}
    (hpc : s.consumer = .readData tail) :
    Invariant N
      { s.modifySlot (s.popped.length % N) (fun slot => { slot with unread := false }) with
        consumer := .storeTail tail (s.slotOf N s.popped.length).data } := by
  have hok := h.consumer
  rw [hpc] at hok
  obtain ⟨htail, hlt, hseq⟩ := hok
  have hpub := h.published_of_seq hlt hseq
  have hslot : ∀ u, s.popped.length ≤ u → u < s.popped.length + N → u ≠ s.popped.length →
      (s.modifySlot (s.popped.length % N) (fun slot => { slot with unread := false })).slotOf N u =
        s.slotOf N u := fun u hu hu' hne => h.slotOf_consumer hlt _ hu hu' hne
  have hself : (s.modifySlot (s.popped.length % N)
      (fun slot => { slot with unread := false })).slotOf N s.popped.length =
        { s.slotOf N s.popped.length with unread := false } := modifySlot_self _ _ _
  have hroom := h.room
  refine
    { head_eq := h.head_eq
      tail_eq := ?_
      tail_le := h.tail_le
      room := h.room
      free := ?_
      claimed := ?_
      producers := ?_
      consumer := ?_ }
  · have hticket := tailTicket_of_not_read (s := s) (by rw [hpc]; rfl)
    exact h.tail_eq.trans (congrArg _ hticket)
  · intro u hu hu'
    have hfree := h.free u hu hu'
    rw [Free, ← hslot u (h.tail_le.trans hu) hu' (by change s.claims.length ≤ u at hu; omega)]
      at hfree
    exact hfree
  · intro u c hc hu
    have hult : u < s.claims.length := (List.getElem?_eq_some_iff.mp hc).1
    by_cases hut : u = s.popped.length
    · subst u
      left
      have hcc : s.claims[s.popped.length] = c := (List.getElem?_eq_some_iff.mp hc).2
      refine ⟨?_, ?_, Or.inr ⟨rfl, rfl⟩⟩
      · exact (congrArg Slot.seq hself).trans hseq
      · exact (congrArg Slot.data hself).trans (hcc ▸ hpub.2.1)
    · rcases h.claimed u c hc hu with ⟨hs, hd, hr⟩ | hpend
      · left
        have heq := hslot u hu (hult.trans_le hroom) hut
        refine ⟨(congrArg Slot.seq heq).trans hs, (congrArg Slot.data heq).trans hd, ?_⟩
        rcases hr with hunread | ⟨hR, -⟩
        · exact Or.inl ((congrArg Slot.unread heq).trans hunread)
        · exact absurd hR hut
      · exact Or.inr hpend
  · intro q
    refine (h.producers q).mono (List.prefix_refl _) le_rfl ?_
    intro u hu
    obtain ⟨entry, hown⟩ := (h.producers q).pending_owns hu
    exact ⟨hown.1, hslot u hown.1 (hown.lt.trans_le hroom) (h.pending_ne_tail hseq hu)⟩
  · refine ⟨⟨htail, hlt, (congrArg Slot.seq hself).trans hseq⟩,
      congrArg Slot.unread hself, s.claims[s.popped.length], ?_, hpub.2.1.symm⟩
    exact List.getElem?_eq_getElem hlt

/-- The store of `m_tail`. -/
theorem Invariant.advance (h : Invariant N s) {tail : BitVec 32} {out : Entry}
    (hpc : s.consumer = .storeTail tail out) :
    Invariant N { s with tail := tail + 1, consumer := .storeSeq tail out } := by
  have hok := h.consumer
  rw [hpc] at hok
  have hnext : ConsumerOk N s (.storeSeq tail out) := hok
  refine
    { head_eq := h.head_eq
      tail_eq := ?_
      tail_le := h.tail_le
      room := h.room
      free := h.free
      claimed := ?_
      producers := ?_
      consumer := hnext.mono (List.prefix_refl _) rfl (fun _ => rfl) }
  · change tail + 1 = BitVec.ofNat 32 (s.popped.length + 1)
    rw [hok.1.1, ofNat_add_one]
  · intro u c hc hu
    rcases h.claimed u c hc hu with ⟨hs, hd, hr⟩ | hpend
    · left
      exact ⟨hs, hd, hr.imp id fun hR => ⟨hR.1, rfl⟩⟩
    · exact Or.inr hpend
  · intro q
    refine (h.producers q).mono (List.prefix_refl _) le_rfl ?_
    intro u hu
    obtain ⟨entry, hown⟩ := (h.producers q).pending_owns hu
    exact ⟨hown.1, rfl⟩

/-- The store that hands the slot to the ticket one lap ahead. -/
theorem Invariant.release (h : Invariant N s) {tail : BitVec 32} {out : Entry}
    (hpc : s.consumer = .storeSeq tail out) :
    Invariant N
      { s.modifySlot (s.popped.length % N)
          (fun slot => { slot with seq := tail + BitVec.ofNat 32 N }) with
        consumer := .returned (some out)
        popped := s.popped ++ [out] } := by
  have hok := h.consumer
  rw [hpc] at hok
  obtain ⟨⟨htail, hlt, hseq⟩, hunread, -⟩ := hok
  have hslot : ∀ u, s.popped.length ≤ u → u < s.popped.length + N → u ≠ s.popped.length →
      (s.modifySlot (s.popped.length % N)
        (fun slot => { slot with seq := tail + BitVec.ofNat 32 N })).slotOf N u =
        s.slotOf N u := fun u hu hu' hne => h.slotOf_consumer hlt _ hu hu' hne
  have hroom := h.room
  have hlen : (s.popped ++ [out]).length = s.popped.length + 1 := by simp
  refine
    { head_eq := h.head_eq
      tail_eq := ?_
      tail_le := ?_
      room := ?_
      free := ?_
      claimed := ?_
      producers := ?_
      consumer := trivial }
  · have ht := h.tail_eq
    simp only [State.tailTicket, hpc] at ht
    change s.tail = BitVec.ofNat 32 (s.popped ++ [out]).length
    rw [hlen]
    exact ht
  · change (s.popped ++ [out]).length ≤ s.claims.length
    omega
  · change s.claims.length ≤ (s.popped ++ [out]).length + N
    omega
  · intro u hu hu'
    change s.claims.length ≤ u at hu
    change u < (s.popped ++ [out]).length + N at hu'
    by_cases huN : u < s.popped.length + N
    · have hfree := h.free u hu huN
      rw [Free, ← hslot u (by omega) huN (by omega)] at hfree
      exact hfree
    · -- the released slot now waits for the ticket one lap ahead
      have hu_eq : u = s.popped.length + N := by omega
      have hself : (s.modifySlot (s.popped.length % N)
          (fun slot => { slot with seq := tail + BitVec.ofNat 32 N })).slotOf N u =
          { s.slotOf N s.popped.length with seq := tail + BitVec.ofNat 32 N } := by
        unfold State.slotOf
        rw [hu_eq, Nat.add_mod_right, modifySlot_self]
      refine ⟨(congrArg Slot.seq hself).trans ?_, (congrArg Slot.unread hself).trans hunread⟩
      change tail + BitVec.ofNat 32 N = BitVec.ofNat 32 u
      rw [htail, hu_eq, BitVec.ofNat_add]
  · intro u c hc hu
    change (s.popped ++ [out]).length ≤ u at hu
    have hult : u < s.claims.length := (List.getElem?_eq_some_iff.mp hc).1
    rcases h.claimed u c hc (by omega) with ⟨hs, hd, hr⟩ | hpend
    · left
      have heq := hslot u (by omega) (by omega) (by omega)
      refine ⟨(congrArg Slot.seq heq).trans hs, (congrArg Slot.data heq).trans hd, ?_⟩
      rcases hr with hur | ⟨hR, -⟩
      · exact Or.inl ((congrArg Slot.unread heq).trans hur)
      · omega
    · exact Or.inr hpend
  · intro q
    refine (h.producers q).mono (List.prefix_refl _) ?_ ?_
    · change s.popped.length ≤ (s.popped ++ [out]).length
      omega
    · intro u hu
      obtain ⟨entry, hown⟩ := (h.producers q).pending_owns hu
      have hne := h.pending_ne_tail hseq hu
      have hle := hown.1
      refine ⟨?_, hslot u hown.1 (hown.lt.trans_le hroom) hne⟩
      change (s.popped ++ [out]).length ≤ u
      omega

/-- Every access of `TryPop` keeps the invariant. -/
theorem Invariant.consumerStep (hN : ValidCapacity N) (h : Invariant N s) :
    Invariant N (s.consumerStep N) := by
  have hok := h.consumer
  unfold State.consumerStep
  split <;> rename_i hpc
  · exact h.loadTail (by rw [hpc]; rfl)
  · exact h.loadTail (by rw [hpc]; rfl)
  · split
    · rename_i hdiff
      exact h.decide hN hpc hdiff
    · exact h.setConsumer (by rw [hpc]; rfl) trivial rfl
  · rename_i tail
    rw [hpc] at hok
    rw [hok.1, hN.slotIndex_eq]
    exact h.read (hok.1 ▸ hpc)
  · exact h.advance hpc
  · rename_i tail out
    rw [hpc] at hok
    rw [hok.1.1, hN.slotIndex_eq]
    exact h.release (hok.1.1 ▸ hpc)

end Consumer

/-! ## All reachable states -/

/-- The constructor leaves every slot free for its first ticket. -/
theorem Invariant.initial [Inhabited Entry] (N : Nat) :
    Invariant N (LogQueue.initial : State P Entry) where
  head_eq := rfl
  tail_eq := rfl
  tail_le := le_rfl
  room := Nat.zero_le _
  free := by
    intro t _ ht
    have hmod : t % N = t := Nat.mod_eq_of_lt (by simpa [LogQueue.initial] using ht)
    unfold Free State.slotOf
    rw [hmod]
    exact ⟨rfl, rfl⟩
  claimed := by
    intro t c hc
    simp [LogQueue.initial] at hc
  producers _ := trivial
  consumer := trivial

/-- Every step keeps the invariant, provided an exchange uses a fresh ticket. -/
theorem Invariant.step [DecidableEq P] {N : Nat} (hN : ValidCapacity N) {s s' : State P Entry}
    {l : Label P Entry} (h : Invariant N s) (hfresh : FreshClaims (2 ^ 32) s l)
    (hstep : step N s l = some s') : Invariant N s' := by
  cases l with
  | call p entry => exact h.callStep hstep
  | producer p => exact h.producerStep hN hfresh hstep
  | consumer =>
      cases hstep
      exact h.consumerStep hN

/-- The slot invariant holds in every state of every run in which fewer than
`2 ^ 32` claims happen between a load of `m_head` and its use. -/
theorem Reachable.inv [DecidableEq P] [Inhabited Entry] {N bound : Nat} (hN : ValidCapacity N)
    (hbound : bound ≤ 2 ^ 32) {s : State P Entry} (h : Reachable N bound s) : Invariant N s := by
  refine Reach.invariant (Invariant.initial N) ?_ h
  intro s l s' hinv hok hstep
  exact hinv.step hN (hok.mono hbound) hstep

end LogQueue
end Log
end DtCore
