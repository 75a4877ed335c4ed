import DtCore.DAQ.Publisher.Control
import DtCore.Foundation.Mutex

/-!
# Cancelling a session

`TryCancelCallAndShutdown` stores `FINISHED` under `_proc_mtx`, and `Publish`
tests `_call_state` under the same mutex.  `OnCompletionEvent` tests it before it
locks: a dispatcher that has seen `WAIT_WRITE_DONE` and waits for the mutex does
not look again, and it overwrites the state once the canceller has unlocked.

The module says in which states the store is final, for every interleaving of
cancellers, `Publish` calls and the dispatcher.

Main results:

- Structure `Locks`: the lock discipline of all threads, cancellers included.
- Theorem `locks_reachable`: every reachable state satisfies it.
- Theorem `finished_stays_iff`: the stored `FINISHED` stays exactly if the
  dispatcher is not between its test and its lock.
-/

namespace DtCore
namespace DAQ
namespace Publisher

open Foundation

variable {P K Msg : Type}

/-! ## The lock discipline -/

/-- The canceller is inside the locked part of `TryCancelCallAndShutdown`. -/
def CancelPc.locked : CancelPc → Bool
  | .storeFinished => true
  | .unlock => true
  | _ => false

/-- The canceller has seen that the client is connected. -/
def CancelPc.past : CancelPc → Bool
  | .idle => false
  | .testConnect => false
  | _ => true

/-- The dispatcher handles the connection request. -/
def EventPc.connecting : EventPc → Bool
  | .addSession => true
  | .lockConnect => true
  | .storeConnected => true
  | _ => false

/-- A thread is inside the part of its call that the mutex protects. -/
def Inside (s : State P K Msg) : Owner P K → Prop
  | .publisher p => (s.publishers p).locked = true
  | .dispatcher => s.dispatcher.locked = true
  | .canceller k => (s.cancellers k).locked = true

/-- What holds in a session whatever its cancellers do. -/
structure Locks (s : State P K Msg) : Prop where
  holds : Guarded Inside State.procMtx s
  publisher_ready : ∀ p msg, s.publishers p = .storeWait msg → s.callState = .readyToWrite
  connecting : s.dispatcher.connecting = true → s.callState = .waitConnect
  past : ∀ k, (s.cancellers k).past = true → s.callState ≠ .waitConnect

theorem locks_initial : Locks (initial : State P K Msg) where
  holds := by
    intro o ho
    cases o <;> simp [Inside, initial, PublishPc.locked, EventPc.locked, CancelPc.locked] at ho
  publisher_ready := by
    intro p msg hp
    simp [initial] at hp
  connecting := by
    intro hd
    simp [initial, EventPc.connecting] at hd
  past := by
    intro k hk
    simp [initial, CancelPc.past] at hk

/-! ## What a step stores and writes -/

/-- What the next access of a thread stores in `_call_state`. -/
def stored (s : State P K Msg) : Owner P K → Option CallState
  | .publisher p =>
      match s.publishers p with
      | .storeWait _ => some .waitWriteDone
      | _ => none
  | .dispatcher =>
      match s.dispatcher with
      | .storeConnected => some .readyToWrite
      | .storeWait => some .waitWriteDone
      | .storeReady => some .readyToWrite
      | _ => none
  | .canceller k =>
      match s.cancellers k with
      | .storeFinished => some .finished
      | _ => none

/-- What the next access of a thread hands to `Write`. -/
def wrote (s : State P K Msg) : Owner P K → Option (Numbered Msg)
  | .publisher p =>
      match s.publishers p with
      | .write msg => some (s.number msg)
      | _ => none
  | .dispatcher =>
      match s.dispatcher with
      | .writeFront => s.msgQueue.head?
      | _ => none
  | .canceller _ => none

/-- The thread that a label moves. -/
def Label.mover : Label P K Msg → Owner P K
  | .publish p _ => .publisher p
  | .publisher p => .publisher p
  | .deliver _ => .dispatcher
  | .event => .dispatcher
  | .cancel k => .canceller k

/-- One access of the thread `o`, as the other threads see it. -/
structure Turn (s s' : State P K Msg) (o : Owner P K) : Prop where
  publishers : ∀ p, .publisher p ≠ o → s'.publishers p = s.publishers p
  dispatcher : .dispatcher ≠ o → s'.dispatcher = s.dispatcher
  cancellers : ∀ k, .canceller k ≠ o → s'.cancellers k = s.cancellers k
  mutex : MutexStep Inside State.procMtx s s' o
  callState : s'.callState = (stored s o).getD s.callState
  written : s'.written = s.written ++ (wrote s o).toList

section Turns

variable [DecidableEq P] [DecidableEq K]

omit [DecidableEq P] in
@[simp]
theorem setCanceller_callState (s : State P K Msg) (k : K) (pc : CancelPc) :
    (s.setCanceller k pc).callState = s.callState :=
  rfl

omit [DecidableEq P] in
@[simp]
theorem setCanceller_dispatcher (s : State P K Msg) (k : K) (pc : CancelPc) :
    (s.setCanceller k pc).dispatcher = s.dispatcher :=
  rfl

omit [DecidableEq P] in
@[simp]
theorem setCanceller_msgQueue (s : State P K Msg) (k : K) (pc : CancelPc) :
    (s.setCanceller k pc).msgQueue = s.msgQueue :=
  rfl

omit [DecidableEq P] in
@[simp]
theorem setCanceller_written (s : State P K Msg) (k : K) (pc : CancelPc) :
    (s.setCanceller k pc).written = s.written :=
  rfl

omit [DecidableEq P] in
@[simp]
theorem setCanceller_self (s : State P K Msg) (k : K) (pc : CancelPc) :
    (s.setCanceller k pc).cancellers k = pc := by
  simp [State.setCanceller]

omit [DecidableEq P] in
theorem setCanceller_other (s : State P K Msg) {k : K} {pc : CancelPc} (j : K)
    (hjk : (.canceller j : Owner P K) ≠ .canceller k) :
    (s.setCanceller k pc).cancellers j = s.cancellers j := by
  have hne : j ≠ k := by
    intro heq
    exact hjk (by rw [heq])
  simp [State.setCanceller, hne]

omit [DecidableEq K] in
theorem setPublisher_other (s : State P K Msg) {p : P} {pc : PublishPc Msg} (r : P)
    (hrp : (.publisher r : Owner P K) ≠ .publisher p) :
    (s.setPublisher p pc).publishers r = s.publishers r := by
  apply setPublisher_ne
  intro heq
  exact hrp (by rw [heq])

omit [DecidableEq K] in
theorem enterPublish_turn {s s' : State P K Msg} {p : P} {msg : Msg}
    (hs : s.enterPublish p msg = some s') : Turn s s' (.publisher p) := by
  unfold State.enterPublish at hs
  split at hs <;> simp only [Option.some.injEq, reduceCtorEq] at hs
  rename_i hpc
  subst hs
  exact ⟨setPublisher_other s, by simp, fun _ _ => rfl,
    .outside rfl (by simp [Inside, PublishPc.locked]), by simp [stored, hpc],
    by simp [wrote, hpc]⟩

omit [DecidableEq K] in
theorem publishStep_turn {queueSize : Int} {s s' : State P K Msg} {p : P}
    (hs : s.publishStep queueSize p = some s') : Turn s s' (.publisher p) := by
  unfold State.publishStep at hs
  split at hs <;> rename_i hpc
  · contradiction
  · -- lock
    split at hs <;> simp only [Option.some.injEq, reduceCtorEq] at hs
    rename_i hfree
    subst hs
    exact ⟨setPublisher_other s, by simp, fun _ _ => rfl, .lock hfree rfl, by simp [stored, hpc],
      by simp [wrote, hpc]⟩
  · -- testState
    split at hs <;> simp only [Option.some.injEq] at hs <;> subst hs <;>
      exact ⟨setPublisher_other s, by simp, fun _ _ => rfl,
        .inside rfl (by simp [Inside, hpc, PublishPc.locked]),
        by simp [stored, hpc], by simp [wrote, hpc]⟩
  · -- enqueue
    split at hs <;> simp only [Option.some.injEq] at hs <;> subst hs <;>
      exact ⟨setPublisher_other s, by simp, fun _ _ => rfl,
        .inside rfl (by simp [Inside, hpc, PublishPc.locked]),
        by simp [stored, hpc], by simp [wrote, hpc]⟩
  · -- storeWait
    simp only [Option.some.injEq] at hs
    subst hs
    exact ⟨setPublisher_other s, by simp, fun _ _ => rfl,
      .inside rfl (by simp [Inside, hpc, PublishPc.locked]),
      by simp [stored, hpc], by simp [wrote, hpc]⟩
  · -- write
    simp only [Option.some.injEq] at hs
    subst hs
    exact ⟨setPublisher_other s, by simp, fun _ _ => rfl,
      .inside rfl (by simp [Inside, hpc, PublishPc.locked]),
      by simp [stored, hpc], by simp [wrote, hpc]⟩
  · -- unlock
    simp only [Option.some.injEq] at hs
    subst hs
    exact ⟨setPublisher_other s, by simp, fun _ _ => rfl,
      .unlock (by simp [Inside, hpc, PublishPc.locked])
        (by simp [Inside, PublishPc.locked]), by simp [stored, hpc],
      by simp [wrote, hpc]⟩

omit [DecidableEq P] [DecidableEq K] in
theorem deliver_turn {s s' : State P K Msg} {op : Operation} (hs : s.deliver op = some s') :
    Turn s s' .dispatcher := by
  unfold State.deliver at hs
  split at hs <;> rename_i hpc
  · split at hs <;> simp only [Option.some.injEq, reduceCtorEq] at hs
    subst hs
    exact ⟨fun _ _ => rfl, by simp, fun _ _ => rfl,
      .outside rfl (by simp [Inside, EventPc.locked]), by simp [stored, hpc],
      by simp [wrote, hpc]⟩
  · split at hs <;> simp only [Option.some.injEq, reduceCtorEq] at hs
    subst hs
    exact ⟨fun _ _ => rfl, by simp, fun _ _ => rfl,
      .outside rfl (by simp [Inside, EventPc.locked]), by simp [stored, hpc],
      by simp [wrote, hpc]⟩
  · contradiction

omit [DecidableEq P] [DecidableEq K] in
theorem eventStep_turn {s s' : State P K Msg} (hs : s.eventStep = some s') :
    Turn s s' .dispatcher := by
  unfold State.eventStep at hs
  split at hs <;> rename_i hpc
  case h_6 | h_8 =>
    -- the two locks
    split at hs <;> simp only [Option.some.injEq, reduceCtorEq] at hs
    rename_i hfree
    subst hs
    exact ⟨fun _ _ => rfl, by simp, fun _ _ => rfl, .lock hfree rfl,
      by simp [stored, hpc], by simp [wrote, hpc]⟩
  case h_14 =>
    -- unlock
    simp only [Option.some.injEq] at hs
    subst hs
    exact ⟨fun _ _ => rfl, by simp, fun _ _ => rfl,
      .unlock (by simp [Inside, hpc, EventPc.locked])
        (by simp [Inside, EventPc.locked]), by simp [stored, hpc],
      by simp [wrote, hpc]⟩
  case h_9 | h_11 =>
    -- testQueue and writeFront
    split at hs <;> rename_i hqueue <;> simp only [Option.some.injEq, reduceCtorEq] at hs <;>
      subst hs <;>
      exact ⟨fun _ _ => rfl, by simp, fun _ _ => rfl,
        .inside rfl (by simp [Inside, hpc, EventPc.locked]), by simp [stored, hpc],
        by simp [wrote, hpc, hqueue]⟩
  case h_2 | h_3 | h_4 =>
    -- the tests outside the mutex
    simp only [Option.some.injEq] at hs
    subst hs
    have hout : ∀ (b : Prop) [Decidable b] {pc pc' : EventPc}, pc.locked = false →
        pc'.locked = false → ¬ (if b then pc else pc').locked = true := by
      intro b _ pc pc' hpc hpc'
      split <;> simp [hpc, hpc']
    exact ⟨fun _ _ => rfl, by simp, fun _ _ => rfl, .outside rfl (hout _ rfl rfl),
      by simp [stored, hpc], by simp [wrote, hpc]⟩
  case h_5 | h_15 =>
    -- the calls of the server
    simp only [Option.some.injEq] at hs
    subst hs
    exact ⟨fun _ _ => rfl, by simp, fun _ _ => rfl,
      .outside rfl (by simp [Inside, EventPc.locked]), by simp [stored, hpc],
      by simp [wrote, hpc]⟩
  case h_1 => contradiction
  all_goals
    -- the stores and popFront
    simp only [Option.some.injEq] at hs
    subst hs
    exact ⟨fun _ _ => rfl, by simp, fun _ _ => rfl,
      .inside rfl (by simp [Inside, hpc, EventPc.locked]), by simp [stored, hpc],
      by simp [wrote, hpc]⟩

omit [DecidableEq P] in
theorem cancelStep_turn {s s' : State P K Msg} {k : K} (hs : s.cancelStep k = some s') :
    Turn s s' (.canceller k) := by
  unfold State.cancelStep at hs
  split at hs <;> rename_i hpc
  case h_6 =>
    -- lock
    split at hs <;> simp only [Option.some.injEq, reduceCtorEq] at hs
    rename_i hfree
    subst hs
    exact ⟨fun _ _ => rfl, fun _ => rfl, setCanceller_other s, .lock hfree rfl,
      by simp [stored, hpc], by simp [wrote]⟩
  case h_7 =>
    -- storeFinished
    simp only [Option.some.injEq] at hs
    subst hs
    exact ⟨fun _ _ => rfl, fun _ => rfl, setCanceller_other s,
      .inside rfl (by simp [Inside, hpc, CancelPc.locked]), by simp [stored, hpc],
      by simp [wrote]⟩
  case h_8 =>
    -- unlock
    simp only [Option.some.injEq] at hs
    subst hs
    exact ⟨fun _ _ => rfl, fun _ => rfl, setCanceller_other s,
      .unlock (by simp [Inside, hpc, CancelPc.locked])
        (by simp [Inside, CancelPc.locked]), by simp [stored, hpc],
      by simp [wrote]⟩
  all_goals
    simp only [Option.some.injEq] at hs
    subst hs
    exact ⟨fun _ _ => rfl, fun _ => rfl, setCanceller_other s,
      .outside rfl (by
        simp only [Inside, setCanceller_self]
        try split
        all_goals simp [CancelPc.locked]),
      by simp [stored, hpc], by simp [wrote]⟩

/-- What a step of the session does. -/
theorem turn {queueSize : Int} {s s' : State P K Msg} {l : Label P K Msg}
    (hs : step queueSize s l = some s') : Turn s s' l.mover := by
  cases l with
  | publish p msg => exact enterPublish_turn hs
  | publisher p => exact publishStep_turn hs
  | deliver op => exact deliver_turn hs
  | event => exact eventStep_turn hs
  | cancel k => exact cancelStep_turn hs

omit [DecidableEq P] [DecidableEq K] in
/-- A completion starts a call of `OnCompletionEvent`. -/
theorem deliver_dispatcher {s s' : State P K Msg} {op : Operation}
    (hs : s.deliver op = some s') : s'.dispatcher = .testConnect := by
  unfold State.deliver at hs
  split at hs <;> (try split at hs) <;>
    simp only [Option.some.injEq, reduceCtorEq] at hs <;> subst hs <;> rfl

/-- A `Publish` call stays where it is, is entered, or goes on. -/
theorem publisher_cases {queueSize : Int} {s s' : State P K Msg} {l : Label P K Msg}
    (hs : step queueSize s l = some s') (p : P) :
    (.publisher p ≠ l.mover ∧ s'.publishers p = s.publishers p) ∨
      (∃ msg, l = .publish p msg ∧ s'.publishers p = .lock msg) ∨
      s.publishStep queueSize p = some s' := by
  by_cases hmove : .publisher p = l.mover
  · right
    cases l with
    | publish r msg =>
        cases hmove
        left
        rw [enterPublish_eq hs, setPublisher_self]
        exact ⟨msg, rfl, rfl⟩
    | publisher r =>
        cases hmove
        exact Or.inr hs
    | deliver | event | cancel => cases hmove
  · exact Or.inl ⟨hmove, (turn hs).publishers p hmove⟩

/-- The dispatcher stays where it is, starts a call of `OnCompletionEvent`, or goes on. -/
theorem dispatcher_cases {queueSize : Int} {s s' : State P K Msg} {l : Label P K Msg}
    (hs : step queueSize s l = some s') :
    (.dispatcher ≠ l.mover ∧ s'.dispatcher = s.dispatcher) ∨
      s'.dispatcher = .testConnect ∨ s.eventStep = some s' := by
  by_cases hmove : .dispatcher = l.mover
  · right
    cases l with
    | deliver op => exact Or.inl (deliver_dispatcher hs)
    | event => exact Or.inr hs
    | publish | publisher | cancel => cases hmove
  · exact Or.inl ⟨hmove, (turn hs).dispatcher hmove⟩

end Turns

/-! ## What the tests let through -/

/-- A `Publish` call stores `WAIT_WRITE_DONE` only in the state `READY_TO_WRITE`. -/
theorem seen_ready [DecidableEq P] {queueSize : Int} {s s' : State P K Msg} {p : P} {msg : Msg}
    (hs : s.publishStep queueSize p = some s') (hp : s'.publishers p = .storeWait msg) :
    s'.callState = .readyToWrite := by
  unfold State.publishStep at hs
  split at hs <;> (try split at hs) <;>
    simp only [Option.some.injEq, reduceCtorEq] at hs <;> subst hs <;> simp_all

/-- A `Publish` call writes after it has stored `WAIT_WRITE_DONE`. -/
theorem stored_before_write [DecidableEq P] {queueSize : Int} {s s' : State P K Msg} {p : P}
    {msg : Msg} (hs : s.publishStep queueSize p = some s')
    (hp : s'.publishers p = .write msg) : s.publishers p = .storeWait msg := by
  unfold State.publishStep at hs
  split at hs <;> (try split at hs) <;>
    simp only [Option.some.injEq, reduceCtorEq] at hs <;> subst hs <;> simp_all

/-- The dispatcher handles a connection request only in the state `WAIT_CONNECT`. -/
theorem seen_waitConnect {s s' : State P K Msg} (hs : s.eventStep = some s')
    (hbefore : s.dispatcher.connecting = true → s.callState = .waitConnect)
    (hd : s'.dispatcher.connecting = true) : s'.callState = .waitConnect := by
  unfold State.eventStep at hs
  by_cases hstate : s.callState = .waitConnect
  · split at hs <;> (try split at hs) <;>
      simp only [Option.some.injEq, reduceCtorEq] at hs <;> subst hs <;>
      simp_all [EventPc.connecting]
  · split at hs <;> (try split at hs) <;>
      simp only [Option.some.injEq, reduceCtorEq] at hs <;> subst hs <;>
      simp_all [EventPc.connecting]

/-- A canceller goes on after it has seen a state other than `WAIT_CONNECT`. -/
theorem seen_connected [DecidableEq K] {s s' : State P K Msg} {k : K}
    (hs : s.cancelStep k = some s')
    (hbefore : (s.cancellers k).past = true → s.callState ≠ .waitConnect)
    (hk : (s'.cancellers k).past = true) : s.callState ≠ .waitConnect := by
  intro hstate
  cases hpc : s.cancellers k with
  | idle =>
      simp only [State.cancelStep, hpc, Option.some.injEq] at hs
      subst hs
      simp [CancelPc.past] at hk
  | testConnect =>
      simp only [State.cancelStep, hpc, Option.some.injEq] at hs
      subst hs
      simp [hstate, CancelPc.past] at hk
  | _ => exact hbefore (by simp [hpc, CancelPc.past]) hstate

/-! ## Every state of a session -/

/-- Only a thread that holds the mutex stores a state. -/
theorem inside_of_stored {s : State P K Msg} {o : Owner P K} {c : CallState}
    (hc : stored s o = some c) : Inside s o := by
  unfold stored at hc
  split at hc <;> split at hc <;>
    simp_all [Inside, PublishPc.locked, EventPc.locked, CancelPc.locked]

theorem stored_ne_waitConnect {s : State P K Msg} {o : Owner P K} {c : CallState}
    (hc : stored s o = some c) : c ≠ .waitConnect := by
  unfold stored at hc
  split at hc <;> split at hc <;> simp_all <;> simp [← hc]

/-- A session that has a client never waits for one again. -/
theorem Turn.connected {s s' : State P K Msg} {o : Owner P K} (h : Turn s s' o)
    (hstate : s.callState ≠ .waitConnect) : s'.callState ≠ .waitConnect := by
  rw [h.callState]
  cases hc : stored s o with
  | none => exact hstate
  | some c => exact stored_ne_waitConnect hc

/-- The threads that did not move are where they were. -/
theorem Turn.inside_other {s s' : State P K Msg} {o : Owner P K} (h : Turn s s' o)
    (o' : Owner P K) (hne : o' ≠ o) : Inside s' o' ↔ Inside s o' := by
  cases o' with
  | publisher p => rw [Inside, Inside, h.publishers p hne]
  | dispatcher => rw [Inside, Inside, h.dispatcher hne]
  | canceller k => rw [Inside, Inside, h.cancellers k hne]

/-- While one thread is inside, a step of another one stores nothing. -/
theorem Turn.keeps_callState {s s' : State P K Msg} {o o' : Owner P K} (h : Turn s s' o)
    (hlocks : Locks s) (ho' : Inside s o') (hne : o' ≠ o) : s'.callState = s.callState := by
  rw [h.callState]
  cases hc : stored s o with
  | none => rfl
  | some c => exact absurd (hlocks.holds.unique ho' (inside_of_stored hc)) hne

/-- While the client is being connected, only the dispatcher stores a state. -/
theorem Locks.stores_nothing {s : State P K Msg} (h : Locks s)
    (hstate : s.callState = .waitConnect) {o : Owner P K} (ho : .dispatcher ≠ o) :
    stored s o = none := by
  cases o with
  | dispatcher => contradiction
  | publisher p =>
      cases hpc : s.publishers p with
      | storeWait msg =>
          have hready := h.publisher_ready p msg hpc
          rw [hstate] at hready
          contradiction
      | _ => simp [stored, hpc]
  | canceller k =>
      cases hpc : s.cancellers k with
      | storeFinished => exact absurd hstate (h.past k (by simp [hpc, CancelPc.past]))
      | _ => simp [stored, hpc]

section Runs

variable [DecidableEq P] [DecidableEq K]

theorem Locks.step {queueSize : Int} {s s' : State P K Msg} {l : Label P K Msg} (h : Locks s)
    (hs : step queueSize s l = some s') : Locks s' := by
  have ht := turn hs
  constructor
  case holds => exact h.holds.step ht.inside_other ht.mutex
  case publisher_ready =>
    intro p msg hp
    rcases publisher_cases hs p with ⟨hmove, hsame⟩ | ⟨m, _, hlock⟩ | hstep
    · rw [hsame] at hp
      have hin : Inside s (.publisher p) := by simp [Inside, hp, PublishPc.locked]
      rw [ht.keeps_callState h hin hmove]
      exact h.publisher_ready p msg hp
    · rw [hlock] at hp
      contradiction
    · exact seen_ready hstep hp
  case connecting =>
    intro hd
    rcases dispatcher_cases hs with ⟨hmove, hsame⟩ | htest | hstep
    · rw [hsame] at hd
      have hstate := h.connecting hd
      rw [ht.callState, h.stores_nothing hstate hmove]
      exact hstate
    · simp [htest, EventPc.connecting] at hd
    · exact seen_waitConnect hstep h.connecting hd
  case past =>
    intro k hk
    apply ht.connected
    by_cases hmove : .canceller k = l.mover
    · cases l with
      | cancel j =>
          cases hmove
          exact seen_connected hs (h.past k) hk
      | publish | publisher | deliver | event => cases hmove
    · rw [ht.cancellers k hmove] at hk
      exact h.past k hk

theorem locks_reachable {queueSize : Int} {ok : State P K Msg → Label P K Msg → Prop}
    {s : State P K Msg} (hr : Reach (step queueSize) ok initial s) : Locks s :=
  hr.invariant locks_initial (fun _ _ _ h _ hs => h.step hs)

end Runs

/-! ## The finished session -/

/-- The dispatcher has no store of the state before it. -/
def EventPc.calm : EventPc → Bool
  | .next => true
  | .testConnect => true
  | .testWriteDone => true
  | .testFinish => true
  | .removeSession => true
  | _ => false

/-- A finished session in which every thread will test the state again before it
stores or writes. -/
structure Calm (s : State P K Msg) : Prop where
  finished : s.callState = .finished
  dispatcher : s.dispatcher.calm = true
  no_store : ∀ p msg, s.publishers p ≠ .storeWait msg
  no_write : ∀ p msg, s.publishers p ≠ .write msg

theorem Calm.stored {s : State P K Msg} (h : Calm s) (o : Owner P K) :
    (stored s o).getD s.callState = .finished := by
  cases o with
  | publisher p =>
      cases hpc : s.publishers p with
      | storeWait msg => exact absurd hpc (h.no_store p msg)
      | _ => simp [Publisher.stored, hpc, h.finished]
  | dispatcher =>
      have hd := h.dispatcher
      cases hpc : s.dispatcher <;>
        simp_all [Publisher.stored, EventPc.calm, h.finished]
  | canceller k =>
      cases hpc : s.cancellers k <;> simp [Publisher.stored, hpc, h.finished]

theorem Calm.wrote {s : State P K Msg} (h : Calm s) (o : Owner P K) : wrote s o = none := by
  cases o with
  | publisher p =>
      cases hpc : s.publishers p with
      | write msg => exact absurd hpc (h.no_write p msg)
      | _ => simp [Publisher.wrote, hpc]
  | dispatcher =>
      have hd := h.dispatcher
      cases hpc : s.dispatcher <;> simp_all [Publisher.wrote, EventPc.calm]
  | canceller k => rfl

theorem Calm.eventStep {s s' : State P K Msg} (h : Calm s) (hs : s.eventStep = some s') :
    s'.dispatcher.calm = true := by
  have hd := h.dispatcher
  have hstate := h.finished
  unfold State.eventStep at hs
  split at hs <;> (try split at hs) <;>
    simp only [Option.some.injEq, reduceCtorEq] at hs <;> subst hs <;>
    simp_all [EventPc.calm]

section Finished

variable [DecidableEq P] [DecidableEq K]

theorem Calm.step {queueSize : Int} {s s' : State P K Msg} {l : Label P K Msg} (h : Calm s)
    (hs : step queueSize s l = some s') : Calm s' ∧ s'.written = s.written := by
  have ht := turn hs
  have hfinished : s'.callState = .finished := by rw [ht.callState, h.stored]
  apply And.intro
  · constructor
    case finished => exact hfinished
    case dispatcher =>
      rcases dispatcher_cases hs with ⟨_, hsame⟩ | htest | hstep
      · rw [hsame]
        exact h.dispatcher
      · rw [htest]
        rfl
      · exact h.eventStep hstep
    case no_store =>
      intro p msg hp
      rcases publisher_cases hs p with ⟨_, hsame⟩ | ⟨m, _, hlock⟩ | hstep
      · rw [hsame] at hp
        exact h.no_store p msg hp
      · rw [hlock] at hp
        contradiction
      · have hready := seen_ready hstep hp
        rw [hfinished] at hready
        contradiction
    case no_write =>
      intro p msg hp
      rcases publisher_cases hs p with ⟨_, hsame⟩ | ⟨m, _, hlock⟩ | hstep
      · rw [hsame] at hp
        exact h.no_write p msg hp
      · rw [hlock] at hp
        contradiction
      · exact h.no_store p msg (stored_before_write hstep hp)
  · rw [ht.written, h.wrote]
    simp

/-- The session stays finished and writes nothing more, whatever its threads do
from here. -/
def Settled (queueSize : Int) (s : State P K Msg) : Prop :=
  ∀ t, Reach (step queueSize) (fun _ _ => True) s t →
    t.callState = .finished ∧ t.written = s.written

theorem Calm.settled {queueSize : Int} {s : State P K Msg} (h : Calm s) :
    Settled queueSize s := by
  intro t ht
  have hrun : Calm t ∧ t.written = s.written := by
    induction ht with
    | start => exact ⟨h, rfl⟩
    | step _ _ hs ih =>
        rcases ih.1.step hs with ⟨hcalm, hwritten⟩
        exact ⟨hcalm, hwritten.trans ih.2⟩
  exact ⟨hrun.1.finished, hrun.2⟩

/-- The store of `FINISHED` outside the dispatcher's gap between test and lock
leaves a calm session. -/
theorem Locks.calm {queueSize : Int} {s s' : State P K Msg} {k : K} (h : Locks s)
    (hk : s.cancellers k = .storeFinished) (hd : s.dispatcher ≠ .lockWriteDone)
    (hs : Publisher.step queueSize s (.cancel k) = some s') : Calm s' := by
  have ht := turn hs
  have hin : Inside s (.canceller k) := by simp [Inside, hk, CancelPc.locked]
  have houtside : ∀ o, o ≠ .canceller k → ¬ Inside s o := by
    intro o hne ho
    exact hne (h.holds.unique ho hin)
  constructor
  case finished =>
    rw [ht.callState]
    simp [stored, Label.mover, hk]
  case dispatcher =>
    rw [ht.dispatcher (by simp [Label.mover])]
    have hunlocked := houtside .dispatcher (by simp)
    have hconnecting := h.connecting
    have hstate := h.past k (by simp [hk, CancelPc.past])
    cases hpc : s.dispatcher <;>
      simp_all [Inside, EventPc.locked, EventPc.connecting, EventPc.calm]
  case no_store =>
    intro p msg hp
    rw [ht.publishers p (by simp [Label.mover])] at hp
    exact houtside (.publisher p) (by simp) (by simp [Inside, hp, PublishPc.locked])
  case no_write =>
    intro p msg hp
    rw [ht.publishers p (by simp [Label.mover])] at hp
    exact houtside (.publisher p) (by simp) (by simp [Inside, hp, PublishPc.locked])

/-- The dispatcher in the gap overwrites the stored `FINISHED`. -/
theorem overwritten {queueSize : Int} {s s' : State P K Msg} {k : K}
    (hk : s.cancellers k = .storeFinished) (hd : s.dispatcher = .lockWriteDone)
    (hs : step queueSize s (.cancel k) = some s') :
    ∃ t, Reach (step queueSize) (fun _ _ => True) s' t ∧ t.callState ≠ .finished := by
  simp only [Publisher.step, State.cancelStep, hk, Option.some.injEq] at hs
  -- the canceller unlocks, the dispatcher locks, looks at the queue and stores
  have hrun : ∃ t, run (step queueSize) (fun _ _ => True) s' [.cancel k, .event, .event, .event]
      = some t ∧ t.callState ≠ .finished := by
    rw [← hs]
    cases hqueue : s.msgQueue <;>
      simp [run, Publisher.step, State.cancelStep, State.eventStep, hd, hqueue]
  rcases hrun with ⟨t, ht, hstate⟩
  exact ⟨t, reach_of_run Reach.start ht, hstate⟩

/-- Nobody stores `FINISHED` while the dispatcher is between its test of
`WAIT_WRITE_DONE` and its lock. -/
def StoresOutsideGap (s : State P K Msg) : Label P K Msg → Prop
  | .cancel k => s.cancellers k = .storeFinished → s.dispatcher ≠ .lockWriteDone
  | _ => True

instance decidableStoresOutsideGap (s : State P K Msg) :
    (l : Label P K Msg) → Decidable (StoresOutsideGap s l)
  | .cancel k =>
      inferInstanceAs (Decidable (s.cancellers k = .storeFinished →
        s.dispatcher ≠ .lockWriteDone))
  | .publish _ _ => inferInstanceAs (Decidable True)
  | .publisher _ => inferInstanceAs (Decidable True)
  | .deliver _ => inferInstanceAs (Decidable True)
  | .event => inferInstanceAs (Decidable True)

theorem calm_of_finished {queueSize : Int} {s : State P K Msg}
    (hr : Reach (step queueSize) StoresOutsideGap initial s) (hstate : s.callState = .finished) :
    Calm s := by
  have hinv : s.callState = .finished → Calm s := by
    apply hr.invariant_with (fun t ht => locks_reachable ht)
    · intro h
      simp [initial] at h
    · intro t l t' hlocks _ ih hok hs hfinished
      by_cases hbefore : t.callState = .finished
      · exact ((ih hbefore).step hs).1
      · have ht := turn hs
        rw [ht.callState] at hfinished
        cases l with
        | cancel k =>
            cases hk : t.cancellers k with
            | storeFinished => exact hlocks.calm hk (hok hk) hs
            | _ =>
                simp [stored, Label.mover, hk] at hfinished
                exact absurd hfinished hbefore
        | publish p m | publisher p =>
            cases hp : t.publishers p <;> simp_all [stored, Label.mover]
        | deliver | event =>
            cases hd : t.dispatcher <;> simp_all [stored, Label.mover]
  exact hinv hstate

/-- In every run, a canceller that stores `FINISHED` settles the session exactly
if the dispatcher is not between its test of `WAIT_WRITE_DONE` and its lock; and
in a run without such a store every finished session is settled. -/
theorem finished_stays_iff (queueSize : Int) :
    (∀ (s s' : State P K Msg) (k : K),
      Reach (step queueSize) (fun _ _ => True) initial s → s.cancellers k = .storeFinished →
      step queueSize s (.cancel k) = some s' →
      (Settled queueSize s' ↔ s.dispatcher ≠ .lockWriteDone)) ∧
    (∀ s : State P K Msg, Reach (step queueSize) StoresOutsideGap initial s →
      s.callState = .finished → Settled queueSize s) := by
  apply And.intro
  · intro s s' k hr hk hs
    constructor
    · intro hsettled hd
      rcases overwritten hk hd hs with ⟨t, ht, hstate⟩
      exact hstate (hsettled t ht).1
    · intro hd
      exact ((locks_reachable hr).calm hk hd hs).settled
  · intro s hr hstate
    exact (calm_of_finished hr hstate).settled

end Finished

/-! ## The two schedules -/

/-- A client connects. -/
def connects : List (Label Unit Unit Nat) :=
  .deliver .connect :: List.replicate 5 .event

/-- One canceller, from its first test up to the store of `FINISHED`. -/
def cancels : List (Label Unit Unit Nat) :=
  List.replicate 6 (.cancel ())

/-- A session that is cancelled while no write is under way is settled. -/
theorem finished_stays_iff_connected :
    (∃ s s' : State Unit Unit Nat, Reach (step 4) (fun _ _ => True) initial s ∧
      step 4 s (.cancel ()) = some s' ∧ Settled 4 s') ∧
    (∃ s : State Unit Unit Nat, Reach (step 4) StoresOutsideGap initial s ∧
      s.callState = .finished ∧ Settled 4 s) := by
  have hrun : ∃ s, run (step 4) (fun _ _ => True) initial (connects ++ cancels) = some s ∧
      s.cancellers () = .storeFinished ∧ s.dispatcher ≠ .lockWriteDone :=
    ⟨_, rfl, rfl, by decide⟩
  have hguarded : ∃ s, run (step 4) StoresOutsideGap initial
      (connects ++ cancels ++ [.cancel ()]) = some s ∧ s.callState = .finished :=
    ⟨_, rfl, rfl⟩
  apply And.intro
  · rcases hrun with ⟨s, hs, hk, hd⟩
    have hr := reach_of_run Reach.start hs
    have hstep : step 4 s (.cancel ()) = some { s.setCanceller () .unlock with
        callState := .finished } := by
      simp [step, State.cancelStep, hk]
    exact ⟨s, _, hr, hstep, ((finished_stays_iff 4).1 s _ () hr hk hstep).mpr hd⟩
  · rcases hguarded with ⟨s, hs, hstate⟩
    have hr := reach_of_run Reach.start hs
    exact ⟨s, hr, hstate, (finished_stays_iff 4).2 s hr hstate⟩

/-- Two messages are published, the first write completes, and the dispatcher has
seen `WAIT_WRITE_DONE` when the canceller stores `FINISHED`. -/
def cancelledInGap : List (Label Unit Unit Nat) :=
  connects ++ .publish () 1 :: List.replicate 5 (.publisher ()) ++
    .publish () 2 :: List.replicate 4 (.publisher ()) ++
    [.deliver .write, .event, .event] ++ cancels ++ [.cancel ()]

/-- The finished session takes the state `WAIT_WRITE_DONE` again and writes the
second message. -/
theorem finished_session_writes :
    ∃ s t : State Unit Unit Nat, Reach (step 4) (fun _ _ => True) initial s ∧
      s.callState = .finished ∧ Reach (step 4) (fun _ _ => True) s t ∧
      t.callState = .waitWriteDone ∧ t.written = s.written ++ [⟨1, 2⟩] := by
  have hrun : ∃ s, run (step 4) (fun _ _ => True) initial cancelledInGap = some s ∧
      s.callState = .finished ∧ s.written = [⟨0, 1⟩] ∧
      ∃ t, run (step 4) (fun _ _ => True) s [.cancel (), .event, .event, .event, .event] =
        some t ∧ t.callState = .waitWriteDone ∧ t.written = [⟨0, 1⟩, ⟨1, 2⟩] :=
    ⟨_, rfl, rfl, rfl, _, rfl, rfl, rfl⟩
  rcases hrun with ⟨s, hs, hfinished, hbefore, t, ht, hstate, hafter⟩
  exact ⟨s, t, reach_of_run Reach.start hs, hfinished, reach_of_run Reach.start ht, hstate, by
    rw [hafter, hbefore]
    rfl⟩

end Publisher
end DAQ
end DtCore
