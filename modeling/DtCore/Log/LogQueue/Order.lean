import DtCore.Log.LogQueue.Invariant

/-!
# What the ring buffer delivers

The slot invariant says where the entry of every unreleased ticket is.  Here the
history of a run is tied to it: the consumer gets the claimed entries in ticket
order, every claim belongs to one `TryPush` call, and no two threads ever touch
the data of one slot at the same time.

Main results:

- Structure `HistoryOk`: claims, calls and pops of a run agree.
- Theorem `mpsc_queue_correct`: order, exactly-once delivery and race freedom of
  the queue for every interleaving.
-/

namespace DtCore
namespace Log
namespace LogQueue

open Foundation

variable {P Entry : Type}

/-! ## History of a run -/

/-- The entry of a call that has not yet claimed a ticket. -/
def PushPc.unclaimed : PushPc Entry → Option Entry
  | .loadHead entry => some entry
  | .loadSeq entry _ _ => some entry
  | .cas entry _ _ => some entry
  | _ => none

/-- Claims come from calls, in the order of the calls of each producer, and the
consumer has got a prefix of them. -/
structure HistoryOk (s : State P Entry) : Prop where
  popped_eq : s.popped = (s.claims.take s.popped.length).map Claim.entry
  call_entry : ∀ c ∈ s.claims, (s.calls c.producer)[c.call]? = some c.entry
  ordered : s.claims.Pairwise fun a b => a.producer = b.producer → a.call < b.call
  active : ∀ p entry, (s.producers p).unclaimed = some entry →
    (s.calls p).getLast? = some entry ∧
      ∀ c ∈ s.claims, c.producer = p → c.call + 1 < (s.calls p).length

theorem HistoryOk.initial [Inhabited Entry] :
    HistoryOk (LogQueue.initial : State P Entry) where
  popped_eq := rfl
  call_entry := by simp [LogQueue.initial]
  ordered := List.Pairwise.nil
  active := by simp [LogQueue.initial, PushPc.unclaimed]

/-- A step that leaves calls, claims and pops alone and starts no call. -/
theorem HistoryOk.of_same {s s' : State P Entry} (h : HistoryOk s)
    (hcalls : s'.calls = s.calls) (hclaims : s'.claims = s.claims)
    (hpopped : s'.popped = s.popped)
    (hpc : ∀ p entry, (s'.producers p).unclaimed = some entry →
      (s.producers p).unclaimed = some entry) : HistoryOk s' where
  popped_eq := by
    rw [hpopped, hclaims]
    exact h.popped_eq
  call_entry := by
    rw [hcalls, hclaims]
    exact h.call_entry
  ordered := by
    rw [hclaims]
    exact h.ordered
  active := by
    intro p entry hp
    rw [hcalls, hclaims]
    exact h.active p entry (hpc p entry hp)

section Steps

variable [DecidableEq P] {N : Nat} {s : State P Entry}

/-- Moving a producer without starting a call. -/
theorem unclaimed_setProducer {p : P} {pc : PushPc Entry}
    (hpc : ∀ entry, pc.unclaimed = some entry → (s.producers p).unclaimed = some entry)
    (q : P) (entry : Entry) (hq : ((s.setProducer p pc).producers q).unclaimed = some entry) :
    (s.producers q).unclaimed = some entry := by
  by_cases hqp : q = p
  · subst q
    rw [setProducer_self] at hq
    exact hpc entry hq
  · rwa [setProducer_ne s pc hqp] at hq

/-- A successful exchange records the claim of the running call, the latest one
of its producer. -/
theorem HistoryOk.claim (h : HistoryOk s) {p : P} {entry : Entry} {head : BitVec 32} {t : Nat}
    (hroom : s.popped.length ≤ s.claims.length) (hpc : s.producers p = .cas entry head t) :
    HistoryOk
      { s.setProducer p (.writeData entry head t) with
        head := head + 1
        claims := s.claims ++
          [{ producer := p, call := (s.calls p).length - 1, entry := entry }] } := by
  obtain ⟨hlast, hbefore⟩ := h.active p entry (by rw [hpc]; rfl)
  have hpos : 0 < (s.calls p).length := by
    rw [List.length_pos_iff]
    rintro hnil
    rw [hnil] at hlast
    contradiction
  refine
    { popped_eq := ?_
      call_entry := ?_
      ordered := ?_
      active := ?_ }
  · simp only [setProducer_popped]
    rw [List.take_append_of_le_length hroom]
    exact h.popped_eq
  · intro c hc
    rcases List.mem_append.mp hc with hc | hc
    · exact h.call_entry c hc
    · rw [List.mem_singleton] at hc
      subst hc
      simp only [setProducer_calls]
      rw [← List.getLast?_eq_getElem?]
      exact hlast
  · rw [List.pairwise_append]
    refine ⟨h.ordered, List.pairwise_singleton _ _, ?_⟩
    intro a ha b hb hab
    rw [List.mem_singleton] at hb
    subst hb
    have := hbefore a ha hab
    change a.call < (s.calls p).length - 1
    omega
  · intro q e hq
    have hqp : q ≠ p := by
      rintro rfl
      rw [show (s.setProducer q (.writeData entry head t)).producers q = _ from
        setProducer_self s q _] at hq
      contradiction
    rw [show (s.setProducer p (.writeData entry head t)).producers q = _ from
      setProducer_ne s _ hqp] at hq
    obtain ⟨hl, hb⟩ := h.active q e hq
    refine ⟨hl, ?_⟩
    intro c hc hcq
    rcases List.mem_append.mp hc with hc | hc
    · exact hb c hc hcq
    · rw [List.mem_singleton] at hc
      subst hc
      exact absurd hcq.symm hqp

/-- Every access of `TryPush` keeps the history in order. -/
theorem HistoryOk.producerStep (h : HistoryOk s) (hroom : s.popped.length ≤ s.claims.length)
    {p : P} {s' : State P Entry} (hstep : s.producerStep N p = some s') : HistoryOk s' := by
  unfold State.producerStep at hstep
  split at hstep <;> rename_i hpc
  · contradiction
  · contradiction
  · cases hstep
    refine h.of_same rfl rfl rfl (unclaimed_setProducer ?_)
    intro e he
    rw [hpc]
    exact he
  · rename_i entry head t
    simp only at hstep
    split at hstep
    · cases hstep
      refine h.of_same rfl rfl rfl (unclaimed_setProducer ?_)
      intro e he
      rw [hpc]
      exact he
    · split at hstep
      · cases hstep
        exact h.of_same rfl rfl rfl (unclaimed_setProducer (by simp [PushPc.unclaimed]))
      · cases hstep
        refine h.of_same rfl rfl rfl (unclaimed_setProducer ?_)
        intro e he
        rw [hpc]
        exact he
  · rename_i entry head t
    split at hstep
    · cases hstep
      exact h.claim hroom hpc
    · cases hstep
      refine h.of_same rfl rfl rfl (unclaimed_setProducer ?_)
      intro e he
      rw [hpc]
      exact he
  · cases hstep
    exact h.of_same rfl rfl rfl (unclaimed_setProducer (by simp [PushPc.unclaimed]))
  · cases hstep
    exact h.of_same rfl rfl rfl (unclaimed_setProducer (by simp [PushPc.unclaimed]))

/-- Entering `TryPush` appends to the calls of the producer. -/
theorem HistoryOk.enter (h : HistoryOk s) (p : P) (entry : Entry) :
    HistoryOk
      { s.setProducer p (.loadHead entry) with
        calls := Function.update s.calls p (s.calls p ++ [entry]) } where
  popped_eq := h.popped_eq
  call_entry := by
    intro c hc
    have hold := h.call_entry c hc
    by_cases hcp : c.producer = p
    · obtain ⟨hlt, -⟩ := List.getElem?_eq_some_iff.mp hold
      rw [hcp] at hold hlt ⊢
      simp only [Function.update_self]
      rw [List.getElem?_append_left hlt]
      exact hold
    · simp only [Function.update_of_ne hcp]
      exact hold
  ordered := h.ordered
  active := by
    intro q e hq
    by_cases hqp : q = p
    · subst q
      rw [show (s.setProducer p (.loadHead entry)).producers p = _ from
        setProducer_self s p _] at hq
      simp only [PushPc.unclaimed, Option.some.injEq] at hq
      subst hq
      simp only [Function.update_self, List.getLast?_concat, List.length_append,
        List.length_singleton, true_and]
      intro c hc hcp
      obtain ⟨hlt, -⟩ := List.getElem?_eq_some_iff.mp (h.call_entry c hc)
      rw [hcp] at hlt
      omega
    · rw [show (s.setProducer p (.loadHead entry)).producers q = _ from
        setProducer_ne s _ hqp] at hq
      simp only [Function.update_of_ne hqp]
      exact h.active q e hq

/-- Entering `TryPush` keeps the history in order. -/
theorem HistoryOk.callStep (h : HistoryOk s) {p : P} {entry : Entry} {s' : State P Entry}
    (hstep : s.callStep p entry = some s') : HistoryOk s' := by
  unfold State.callStep at hstep
  split at hstep
  · cases hstep
    exact h.enter p entry
  · cases hstep
    exact h.enter p entry
  · contradiction

omit [DecidableEq P] in
/-- Every access of `TryPop` keeps the history in order: the entry handed out is
the one of the next ticket. -/
theorem HistoryOk.consumerStep (h : HistoryOk s) (hinv : Invariant N s) :
    HistoryOk (s.consumerStep N) := by
  have hok := hinv.consumer
  unfold State.consumerStep
  split <;> rename_i hpc
  · exact h.of_same rfl rfl rfl (fun _ _ hp => hp)
  · exact h.of_same rfl rfl rfl (fun _ _ hp => hp)
  · split
    · exact h.of_same rfl rfl rfl (fun _ _ hp => hp)
    · exact h.of_same rfl rfl rfl (fun _ _ hp => hp)
  · exact h.of_same rfl rfl rfl (fun _ _ hp => hp)
  · exact h.of_same rfl rfl rfl (fun _ _ hp => hp)
  · rename_i tail out
    rw [hpc] at hok
    obtain ⟨-, -, c, hc, hout⟩ := hok
    refine
      { popped_eq := ?_
        call_entry := h.call_entry
        ordered := h.ordered
        active := h.active }
    change s.popped ++ [out] = (s.claims.take (s.popped ++ [out]).length).map Claim.entry
    rw [List.length_append, List.length_singleton, List.take_add_one, hc, Option.toList_some,
      List.map_append, ← h.popped_eq, List.map_singleton, hout]

end Steps

/-- The history of every fresh run is in order. -/
theorem Reachable.history [DecidableEq P] [Inhabited Entry] {N bound : Nat}
    (hN : ValidCapacity N) (hbound : bound ≤ 2 ^ 32) {s : State P Entry}
    (h : Reachable N bound s) : HistoryOk s := by
  have hknown : ∀ s : State P Entry, Reachable N bound s → Invariant N s :=
    fun _ hs => hs.inv hN hbound
  refine Reach.invariant_with hknown HistoryOk.initial ?_ h
  intro s l s' hinv _ hhist _ hstep
  cases l with
  | call p entry => exact hhist.callStep hstep
  | producer p => exact hhist.producerStep hinv.tail_le hstep
  | consumer =>
      cases hstep
      exact hhist.consumerStep hinv

/-! ## Data accesses -/

/-- The next access of producer `p` writes the data of slot `i`. -/
def State.WritesData (N : Nat) (s : State P Entry) (p : P) (i : Nat) : Prop :=
  match s.producers p with
  | .writeData _ head _ => slotIndex N head = i
  | _ => False

/-- The next access of the consumer reads the data of slot `i`. -/
def State.ReadsData (N : Nat) (s : State P Entry) (i : Nat) : Prop :=
  match s.consumer with
  | .readData tail => slotIndex N tail = i
  | _ => False

/-- A producer about to write owns a pending ticket whose slot holds nothing
unread. -/
theorem Invariant.writesData {N : Nat} {s : State P Entry} (hN : ValidCapacity N)
    (h : Invariant N s) {p : P} {i : Nat} (hw : s.WritesData N p i) :
    ∃ t, (s.producers p).pending = some t ∧ t % N = i ∧ (s.slots i).unread = false := by
  have hok := h.producers p
  unfold State.WritesData at hw
  split at hw
  · rename_i entry head t hpc
    rw [hpc] at hok
    obtain ⟨hword, -, hunread⟩ := hok
    rw [hword, hN.slotIndex_eq] at hw
    refine ⟨t, ?_, hw, ?_⟩
    · rw [hpc]
      rfl
    · rw [← hw]
      exact hunread
  · exact hw.elim

/-- The consumer never reads a slot a producer is about to write. -/
theorem Invariant.not_readsData {N : Nat} {s : State P Entry} (hN : ValidCapacity N)
    (h : Invariant N s) {p : P} {i : Nat} (hw : s.WritesData N p i) : ¬ s.ReadsData N i := by
  intro hr
  obtain ⟨t, hpend, ht, -⟩ := h.writesData hN hw
  obtain ⟨entry, hown⟩ := (h.producers p).pending_owns hpend
  have hok := h.consumer
  unfold State.ReadsData at hr
  split at hr
  · rename_i tail hpc
    rw [hpc] at hok
    obtain ⟨htail, hlt, hseq⟩ := hok
    rw [htail, hN.slotIndex_eq] at hr
    have hne := h.holding_ne_pending hpend (by rw [hpc]; rfl)
    have hroom := h.room
    exact h.slot_ne hown.1 hown.lt le_rfl (by omega) hne (hr.trans ht.symm)
  · exact hr.elim

/-- Two producers never write one slot at the same time. -/
theorem Invariant.writesData_unique {N : Nat} {s : State P Entry} (hN : ValidCapacity N)
    (h : Invariant N s) {p q : P} {i : Nat} (hp : s.WritesData N p i) (hqp : q ≠ p) :
    ¬ s.WritesData N q i := by
  intro hq
  obtain ⟨t, hpend, ht, -⟩ := h.writesData hN hp
  obtain ⟨u, hpend', hu, -⟩ := h.writesData hN hq
  obtain ⟨e, hown⟩ := (h.producers p).pending_owns hpend
  obtain ⟨e', hown'⟩ := (h.producers q).pending_owns hpend'
  exact h.slot_ne hown.1 hown.lt hown'.1 (hown'.lt.trans_le h.room)
    (h.pending_ne hqp hpend hpend') (hu.trans ht.symm)

/-! ## The queue contract -/

/-- What a multi-producer single-consumer queue owes its users in one state. -/
structure MpscCorrect (N : Nat) (s : State P Entry) : Prop where
  /-- Pops return the claimed entries in ticket order. -/
  popped_prefix : s.popped <+: s.claims.map Claim.entry
  /-- No `TryPush` call claims twice. -/
  claims_once : (s.claims.map fun c => (c.producer, c.call)).Nodup
  /-- A claimed entry is the argument of the call that claimed it. -/
  claims_pushed : ∀ c ∈ s.claims, (s.calls c.producer)[c.call]? = some c.entry
  /-- A slot about to be written holds no entry that was not read. -/
  no_overwrite : ∀ p i, s.WritesData N p i → (s.slots i).unread = false
  /-- Nobody else is about to write or read a slot about to be written. -/
  no_race : ∀ p i, s.WritesData N p i →
    (∀ q, q ≠ p → ¬ s.WritesData N q i) ∧ ¬ s.ReadsData N i
  /-- The popped entries of one producer come from its calls in call order. -/
  producer_order : ∀ p, (s.claims.take s.popped.length).Pairwise fun a b =>
    a.producer = p → b.producer = p → a.call < b.call

/-- `LogQueue` is a correct MPSC queue: for every capacity it is used with, any
number of producers, and every interleaving of the accesses of `TryPush` and
`TryPop` in which fewer than `2 ^ 31` claims separate a load of `m_head` from
its use. -/
theorem mpsc_queue_correct [DecidableEq P] [Inhabited Entry] {N : Nat} (hN : ValidCapacity N)
    {s : State P Entry} (h : Reachable N (2 ^ 31) s) : MpscCorrect N s := by
  have hinv : Invariant N s := h.inv hN (by norm_num)
  have hhist : HistoryOk s := h.history hN (by norm_num)
  refine
    { popped_prefix := ?_
      claims_once := ?_
      claims_pushed := hhist.call_entry
      no_overwrite := ?_
      no_race := ?_
      producer_order := ?_ }
  · rw [hhist.popped_eq, List.map_take]
    exact List.take_prefix _ _
  · rw [List.Nodup, List.pairwise_map]
    refine hhist.ordered.imp ?_
    intro a b hab heq
    simp only [Prod.mk.injEq] at heq
    have := hab heq.1
    omega
  · intro p i hw
    obtain ⟨t, -, -, hunread⟩ := hinv.writesData hN hw
    exact hunread
  · intro p i hw
    exact ⟨fun q hqp => hinv.writesData_unique hN hw hqp, hinv.not_readsData hN hw⟩
  · intro p
    refine (hhist.ordered.sublist (List.take_sublist _ _)).imp ?_
    intro a b hab ha hb
    exact hab (ha.trans hb.symm)

/-- Two producers race for a ring of two slots; the loser of the first exchange
claims the second ticket, publishes first, and both entries are popped. -/
def raceSchedule : List (Label Nat Nat) :=
  [.call 0 10, .call 1 20, .producer 0, .producer 1, .producer 0, .producer 1, .producer 0,
    .producer 1, .producer 1, .producer 1, .producer 1, .producer 1, .consumer, .consumer,
    .producer 0, .producer 0, .consumer, .consumer, .consumer, .consumer, .consumer,
    .consumer, .consumer, .consumer, .consumer, .consumer]

theorem mpsc_queue_correct_race :
    ∃ s : State Nat Nat, s.popped = [10, 20] ∧ MpscCorrect 2 s := by
  have hrun : (run (step 2) (FreshClaims (2 ^ 31)) (initial : State Nat Nat) raceSchedule).map
      State.popped = some [10, 20] := by decide
  obtain ⟨s, hs, hpopped⟩ := exists_reach_of_run hrun
  exact ⟨s, hpopped, mpsc_queue_correct ⟨1, le_rfl, by decide, rfl⟩ hs⟩

end LogQueue
end Log
end DtCore
