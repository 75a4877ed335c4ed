import DtCore.DAQ.Publisher.Session

/-!
# Who may touch a session

`_proc_mtx` protects the queue and every store to `_call_state`, but the
dispatcher tests the state before it locks.  The test stays valid because in
each state only one side may change it: while a write is outstanding or its
completion is being handled, a `Publish` call can only queue.

Main results:

- Structure `Control`: the lock discipline and what each thread relies on.
- Theorem `control_reachable`: every state of an uncancelled session satisfies
  it.
-/

namespace DtCore
namespace DAQ
namespace Publisher

open Foundation

variable {P K Msg : Type}

/-! ## Field lemmas of the state updates -/

section Updates

variable [DecidableEq P]

@[simp]
theorem setPublisher_callState (s : State P K Msg) (p : P) (pc : PublishPc Msg) :
    (s.setPublisher p pc).callState = s.callState :=
  rfl

@[simp]
theorem setPublisher_msgQueue (s : State P K Msg) (p : P) (pc : PublishPc Msg) :
    (s.setPublisher p pc).msgQueue = s.msgQueue :=
  rfl

@[simp]
theorem setPublisher_procMtx (s : State P K Msg) (p : P) (pc : PublishPc Msg) :
    (s.setPublisher p pc).procMtx = s.procMtx :=
  rfl

@[simp]
theorem setPublisher_connectPending (s : State P K Msg) (p : P) (pc : PublishPc Msg) :
    (s.setPublisher p pc).connectPending = s.connectPending :=
  rfl

@[simp]
theorem setPublisher_outstanding (s : State P K Msg) (p : P) (pc : PublishPc Msg) :
    (s.setPublisher p pc).outstanding = s.outstanding :=
  rfl

@[simp]
theorem setPublisher_dispatcher (s : State P K Msg) (p : P) (pc : PublishPc Msg) :
    (s.setPublisher p pc).dispatcher = s.dispatcher :=
  rfl

@[simp]
theorem setPublisher_connected (s : State P K Msg) (p : P) (pc : PublishPc Msg) :
    (s.setPublisher p pc).connected = s.connected :=
  rfl

@[simp]
theorem setPublisher_published (s : State P K Msg) (p : P) (pc : PublishPc Msg) :
    (s.setPublisher p pc).published = s.published :=
  rfl

@[simp]
theorem setPublisher_written (s : State P K Msg) (p : P) (pc : PublishPc Msg) :
    (s.setPublisher p pc).written = s.written :=
  rfl

@[simp]
theorem setPublisher_queued (s : State P K Msg) (p : P) (pc : PublishPc Msg) :
    (s.setPublisher p pc).queued = s.queued :=
  rfl

@[simp]
theorem setPublisher_self (s : State P K Msg) (p : P) (pc : PublishPc Msg) :
    (s.setPublisher p pc).publishers p = pc := by
  simp [State.setPublisher]

theorem setPublisher_ne (s : State P K Msg) {p r : P} (pc : PublishPc Msg) (hrp : r ≠ p) :
    (s.setPublisher p pc).publishers r = s.publishers r := by
  simp [State.setPublisher, hrp]

/-- Entering `Publish` moves the call in front of the mutex. -/
theorem enterPublish_eq {s s' : State P K Msg} {p : P} {msg : Msg}
    (hs : s.enterPublish p msg = some s') : s' = s.setPublisher p (.lock msg) := by
  unfold State.enterPublish at hs
  split at hs <;> simp only [Option.some.injEq, reduceCtorEq] at hs
  exact hs.symm

end Updates

/-! ## What each thread relies on -/

/-- The call is inside the locked part of `Publish`. -/
def PublishPc.locked : PublishPc Msg → Bool
  | .idle => false
  | .lock _ => false
  | _ => true

/-- The dispatcher is inside a locked part of `OnCompletionEvent`. -/
def EventPc.locked : EventPc → Bool
  | .storeConnected => true
  | .testQueue => true
  | .storeWait => true
  | .writeFront => true
  | .popFront => true
  | .storeReady => true
  | .unlock => true
  | _ => false

/-- What a `Publish` call relies on after its state test. -/
def PublisherOk (s : State P K Msg) : PublishPc Msg → Prop
  | .enqueue _ => s.callState = .waitWriteDone
  | .storeWait _ => s.callState = .readyToWrite
  | .write _ =>
      s.callState = .waitWriteDone ∧ s.outstanding = 0 ∧ s.dispatcher = .next ∧
        s.msgQueue = []
  | _ => True

/-- What the dispatcher relies on while it handles a completion. -/
def DispatcherOk (s : State P K Msg) : EventPc → Prop
  | .next => True
  | .testConnect =>
      (s.callState = .waitConnect ∨ s.callState = .waitWriteDone) ∧ s.outstanding = 0 ∧
        s.connectPending = false
  | .testWriteDone => s.callState = .waitWriteDone ∧ s.outstanding = 0
  | .testFinish => False
  | .addSession => s.callState = .waitConnect ∧ s.connectPending = false
  | .lockConnect => s.callState = .waitConnect ∧ s.connectPending = false
  | .storeConnected => s.callState = .waitConnect ∧ s.connectPending = false
  | .lockWriteDone => s.callState = .waitWriteDone ∧ s.outstanding = 0
  | .testQueue => s.callState = .waitWriteDone ∧ s.outstanding = 0
  | .storeWait => s.callState = .waitWriteDone ∧ s.outstanding = 0 ∧ s.msgQueue ≠ []
  | .writeFront => s.callState = .waitWriteDone ∧ s.outstanding = 0 ∧ s.msgQueue ≠ []
  | .popFront => s.callState = .waitWriteDone ∧ s.msgQueue ≠ []
  | .storeReady => s.callState = .waitWriteDone ∧ s.outstanding = 0 ∧ s.msgQueue = []
  | .unlock => s.callState ≠ .waitConnect
  | .removeSession => False

/-- What `_call_state` says about the rest of the session. -/
def PhaseOk (s : State P K Msg) : CallState → Prop
  | .waitConnect =>
      s.connected = false ∧ s.outstanding = 0 ∧ s.msgQueue = [] ∧ s.published = [] ∧
        s.written = [] ∧ s.queued = []
  | .readyToWrite =>
      s.connected = true ∧ s.outstanding = 0 ∧ s.msgQueue = [] ∧ s.connectPending = false ∧
        (s.dispatcher = .next ∨ s.dispatcher = .unlock)
  | .waitWriteDone => s.connected = true ∧ s.outstanding ≤ 1 ∧ s.connectPending = false
  | _ => False

/-- The control invariant of an uncancelled session. -/
structure Control (s : State P K Msg) : Prop where
  publisher_holds : ∀ p, (s.publishers p).locked = true → s.procMtx = some (.publisher p)
  dispatcher_holds : s.dispatcher.locked = true → s.procMtx = some .dispatcher
  publisher_ok : ∀ p, PublisherOk s (s.publishers p)
  dispatcher_ok : DispatcherOk s s.dispatcher
  phase : PhaseOk s s.callState

theorem PublisherOk.of_unlocked {s : State P K Msg} {pc : PublishPc Msg}
    (hpc : pc.locked = false) : PublisherOk s pc := by
  cases pc <;> simp_all [PublisherOk, PublishPc.locked]

/-- Outside the lock the dispatcher relies on no queue. -/
theorem DispatcherOk.of_unlocked {s t : State P K Msg} {pc : EventPc}
    (h : DispatcherOk s pc) (hpc : pc.locked = false) (hstate : t.callState = s.callState)
    (hout : t.outstanding = s.outstanding) (hpend : t.connectPending = s.connectPending) :
    DispatcherOk t pc := by
  cases pc <;> simp_all [DispatcherOk, EventPc.locked]

theorem Control.publisher_unlocked {s : State P K Msg} (h : Control s) {o : Owner P K}
    (ho : s.procMtx = some o) {p : P} (hop : o ≠ .publisher p) :
    (s.publishers p).locked = false := by
  by_contra hlocked
  have hp := h.publisher_holds p (by simpa using hlocked)
  rw [ho] at hp
  exact hop (Option.some.inj hp)

theorem Control.dispatcher_unlocked {s : State P K Msg} (h : Control s) {p : P}
    (hp : s.procMtx = some (.publisher p)) : s.dispatcher.locked = false := by
  by_contra hlocked
  have hd := h.dispatcher_holds (by simpa using hlocked)
  simp [hp] at hd

theorem Control.other_unlocked {s : State P K Msg} (h : Control s) {p r : P}
    (hp : s.procMtx = some (.publisher p)) (hrp : r ≠ p) :
    (s.publishers r).locked = false := by
  apply h.publisher_unlocked hp
  intro heq
  cases heq
  exact hrp rfl

theorem Control.free_unlocked {s : State P K Msg} (h : Control s) (hfree : s.procMtx = none)
    (p : P) : (s.publishers p).locked = false := by
  by_contra hlocked
  have hp := h.publisher_holds p (by simpa using hlocked)
  simp [hfree] at hp

/-- Inside the dispatcher's locked part no `Publish` call is under way. -/
theorem Control.publishers_unlocked {s : State P K Msg} (h : Control s)
    (hd : s.dispatcher.locked = true) (p : P) : (s.publishers p).locked = false := by
  apply h.publisher_unlocked (h.dispatcher_holds hd)
  intro heq
  cases heq

/-! ## The initial state -/

theorem control_initial : Control (initial : State P K Msg) where
  publisher_holds := by
    intro p hp
    simp [initial, PublishPc.locked] at hp
  dispatcher_holds := by
    intro hd
    simp [initial, EventPc.locked] at hd
  publisher_ok := by
    intro p
    simp [initial, PublisherOk]
  dispatcher_ok := by simp [initial, DispatcherOk]
  phase := by simp [initial, PhaseOk]

/-! ## Steps of `Publish` -/

section Publish

variable [DecidableEq P]

theorem setPublisher_holds {s : State P K Msg} {p : P} {pc : PublishPc Msg}
    {mtx : Option (Owner P K)} (hp : pc.locked = true → mtx = some (.publisher p))
    (hother : ∀ r, r ≠ p → (s.publishers r).locked = true → mtx = some (.publisher r))
    (r : P) (hr : ((s.setPublisher p pc).publishers r).locked = true) :
    mtx = some (.publisher r) := by
  by_cases hrp : r = p
  · subst hrp
    exact hp (by simpa using hr)
  · rw [setPublisher_ne s pc hrp] at hr
    exact hother r hrp hr

theorem setPublisher_ok {s t : State P K Msg} {p : P} {pc : PublishPc Msg}
    (hp : PublisherOk t pc) (hother : ∀ r, r ≠ p → PublisherOk t (s.publishers r)) (r : P) :
    PublisherOk t ((s.setPublisher p pc).publishers r) := by
  by_cases hrp : r = p
  · subst hrp
    simpa using hp
  · rw [setPublisher_ne s pc hrp]
    exact hother r hrp

/-- A call that holds the mutex keeps the discipline if it keeps what it and the
dispatcher rely on. -/
theorem Control.inside {s t : State P K Msg} {p : P} (pc : PublishPc Msg) (h : Control s)
    (hp : s.procMtx = some (.publisher p))
    (hpubs : t.publishers = (s.setPublisher p pc).publishers) (hmtx : t.procMtx = s.procMtx)
    (hdisp : t.dispatcher = s.dispatcher) (hok : PublisherOk t pc)
    (hdispOk : DispatcherOk t t.dispatcher) (hphase : PhaseOk t t.callState) : Control t where
  publisher_holds := by
    rw [hpubs]
    apply setPublisher_holds
    · intro _
      rw [hmtx, hp]
    · intro r hrp hr
      rw [h.other_unlocked hp hrp] at hr
      contradiction
  dispatcher_holds := by
    intro hd
    rw [hdisp, h.dispatcher_unlocked hp] at hd
    contradiction
  publisher_ok := by
    rw [hpubs]
    apply setPublisher_ok hok
    intro r hrp
    exact PublisherOk.of_unlocked (h.other_unlocked hp hrp)
  dispatcher_ok := hdispOk
  phase := hphase

theorem Control.enterPublish {s s' : State P K Msg} {p : P} {msg : Msg} (h : Control s)
    (hs : s.enterPublish p msg = some s') : Control s' := by
  rw [enterPublish_eq hs]
  exact {
    publisher_holds := by
      apply setPublisher_holds
      · intro hp
        simp [PublishPc.locked] at hp
      · intro r _ hr
        exact h.publisher_holds r hr
    dispatcher_holds := h.dispatcher_holds
    publisher_ok := by
      apply setPublisher_ok
      · trivial
      · intro r _
        exact h.publisher_ok r
    dispatcher_ok := h.dispatcher_ok
    phase := h.phase }

/-- A call that waits for the mutex takes it when it is free. -/
theorem Control.takeMutex {s : State P K Msg} {p : P} (h : Control s)
    (hfree : s.procMtx = none) (msg : Msg) :
    Control { s.setPublisher p (.testState msg) with procMtx := some (.publisher p) } where
  publisher_holds := by
    apply setPublisher_holds
    · intro _
      rfl
    · intro r _ hr
      rw [h.free_unlocked hfree r] at hr
      contradiction
  dispatcher_holds := by
    intro hd
    have := h.dispatcher_holds hd
    simp [hfree] at this
  publisher_ok := by
    apply setPublisher_ok
    · trivial
    · intro r _
      exact PublisherOk.of_unlocked (h.free_unlocked hfree r)
  dispatcher_ok := h.dispatcher_ok
  phase := h.phase

/-- A call that leaves gives the mutex back. -/
theorem Control.giveMutex {s : State P K Msg} {p : P} (h : Control s)
    (hp : s.procMtx = some (.publisher p)) :
    Control { s.setPublisher p .idle with procMtx := none } where
  publisher_holds := by
    apply setPublisher_holds
    · intro hidle
      simp [PublishPc.locked] at hidle
    · intro r hrp hr
      rw [h.other_unlocked hp hrp] at hr
      contradiction
  dispatcher_holds := by
    intro hd
    have := h.dispatcher_holds hd
    simp [hp] at this
  publisher_ok := by
    apply setPublisher_ok
    · trivial
    · intro r hrp
      exact PublisherOk.of_unlocked (h.other_unlocked hp hrp)
  dispatcher_ok := h.dispatcher_ok
  phase := h.phase

theorem Control.publishStep {queueSize : Int} {s s' : State P K Msg} {p : P}
    (h : Control s) (hs : s.publishStep queueSize p = some s') : Control s' := by
  have hholds := h.publisher_holds p
  have hok := h.publisher_ok p
  have hphase := h.phase
  unfold State.publishStep at hs
  split at hs <;> rename_i hpc
  · contradiction
  · -- lock
    split at hs <;> simp only [Option.some.injEq, reduceCtorEq] at hs
    rename_i hfree
    subst hs
    exact h.takeMutex hfree _
  · -- testState
    rename_i msg
    have hp := hholds (by rw [hpc]; rfl)
    split at hs <;> rename_i hstate <;> simp only [Option.some.injEq] at hs <;> subst hs
    · exact h.inside (.enqueue msg) hp rfl rfl rfl hstate h.dispatcher_ok h.phase
    · exact h.inside (.storeWait msg) hp rfl rfl rfl hstate h.dispatcher_ok h.phase
    · exact h.inside .unlock hp rfl rfl rfl trivial
        (h.dispatcher_ok.of_unlocked (h.dispatcher_unlocked hp) rfl rfl rfl)
        (by cases hc : s.callState <;> simp_all [PhaseOk])
  · -- enqueue
    have hp := hholds (by rw [hpc]; rfl)
    have hstate : s.callState = .waitWriteDone := by simpa [hpc, PublisherOk] using hok
    split at hs <;> simp only [Option.some.injEq] at hs <;> subst hs
    · exact h.inside .unlock hp rfl rfl rfl trivial
        (h.dispatcher_ok.of_unlocked (h.dispatcher_unlocked hp) rfl rfl rfl)
        (by simpa [hstate, PhaseOk] using hphase)
    · exact h.inside .unlock hp rfl rfl rfl trivial
        (h.dispatcher_ok.of_unlocked (h.dispatcher_unlocked hp) rfl rfl rfl)
        (by simpa [hstate, PhaseOk] using hphase)
  · -- storeWait
    rename_i msg
    simp only [Option.some.injEq] at hs
    subst hs
    have hp := hholds (by rw [hpc]; rfl)
    have hdisp := h.dispatcher_unlocked hp
    have hstate : s.callState = .readyToWrite := by simpa [hpc, PublisherOk] using hok
    rw [hstate] at hphase
    rcases hphase with ⟨hconn, hout, hqueue, hpend, hnext | hunlock⟩
    · exact h.inside (.write msg) hp rfl rfl rfl ⟨rfl, hout, hnext, hqueue⟩
        (by simp [hnext, DispatcherOk]) (by simp [PhaseOk, hconn, hout, hpend])
    · simp [hunlock, EventPc.locked] at hdisp
  · -- write
    simp only [Option.some.injEq] at hs
    subst hs
    have hp := hholds (by rw [hpc]; rfl)
    rw [hpc] at hok
    rcases hok with ⟨hstate, hout, hnext, hqueue⟩
    exact h.inside .unlock hp rfl rfl rfl trivial (by simp [hnext, DispatcherOk])
      (by simp_all [PhaseOk])
  · -- unlock
    simp only [Option.some.injEq] at hs
    subst hs
    exact h.giveMutex (hholds (by rw [hpc]; rfl))

end Publish

/-! ## Steps of the dispatcher -/

/-- A dispatcher step outside a lock change that leaves the publishers alone. -/
theorem Control.handled {s t : State P K Msg} (h : Control s)
    (hpubs : t.publishers = s.publishers) (hmtx : t.procMtx = s.procMtx)
    (hlocked : t.dispatcher.locked = s.dispatcher.locked)
    (hok : ∀ p, PublisherOk t (s.publishers p)) (hdispOk : DispatcherOk t t.dispatcher)
    (hphase : PhaseOk t t.callState) : Control t where
  publisher_holds := by
    rw [hpubs, hmtx]
    exact h.publisher_holds
  dispatcher_holds := by
    rw [hlocked, hmtx]
    exact h.dispatcher_holds
  publisher_ok := by
    rw [hpubs]
    exact hok
  dispatcher_ok := hdispOk
  phase := hphase

/-- What the calls rely on survives a step of a busy dispatcher that keeps the
state. -/
theorem Control.publisherOk_of_busy {s t : State P K Msg} (h : Control s)
    (hbusy : s.dispatcher ≠ .next) (hstate : t.callState = s.callState) (p : P) :
    PublisherOk t (s.publishers p) := by
  have hok := h.publisher_ok p
  cases hpc : s.publishers p <;> simp_all [PublisherOk]

/-- A step of a busy dispatcher that keeps the state and the mutex. -/
theorem Control.handledBusy {s t : State P K Msg} (h : Control s)
    (hbusy : s.dispatcher ≠ .next) (hstate : t.callState = s.callState)
    (hpubs : t.publishers = s.publishers) (hmtx : t.procMtx = s.procMtx)
    (hlocked : t.dispatcher.locked = s.dispatcher.locked)
    (hdispOk : DispatcherOk t t.dispatcher) (hphase : PhaseOk t t.callState) : Control t :=
  h.handled hpubs hmtx hlocked (h.publisherOk_of_busy hbusy hstate) hdispOk hphase

/-- A step of the dispatcher while it has the mutex: no call is between its locks. -/
theorem Control.handledLocked {s t : State P K Msg} (h : Control s)
    (hlocked : s.dispatcher.locked = true) (hpubs : t.publishers = s.publishers)
    (hmtx : t.procMtx = s.procMtx) (hstill : t.dispatcher.locked = true)
    (hdispOk : DispatcherOk t t.dispatcher) (hphase : PhaseOk t t.callState) : Control t :=
  h.handled hpubs hmtx (hstill.trans hlocked.symm)
    (fun p => PublisherOk.of_unlocked (h.publishers_unlocked hlocked p)) hdispOk hphase

theorem Control.deliver {s s' : State P K Msg} {op : Operation} (h : Control s)
    (hs : s.deliver op = some s') : Control s' := by
  have hphase := h.phase
  unfold State.deliver at hs
  split at hs
  · rename_i hnext
    split at hs <;> simp only [Option.some.injEq, reduceCtorEq] at hs
    rename_i hpend
    subst hs
    have hstate : s.callState = .waitConnect := by
      cases hc : s.callState <;> simp_all [PhaseOk]
    rw [hstate] at hphase
    apply h.handled
    · rfl
    · rfl
    · simp [hnext, EventPc.locked]
    · intro p
      have hok := h.publisher_ok p
      cases hpc : s.publishers p <;> simp_all [PublisherOk]
    · simp [DispatcherOk, hstate, hphase.2.1]
    · simpa [hstate, PhaseOk] using hphase
  · rename_i hnext
    split at hs <;> simp only [Option.some.injEq, reduceCtorEq] at hs
    rename_i hout
    subst hs
    have hstate : s.callState = .waitWriteDone := by
      cases hc : s.callState <;> simp_all [PhaseOk]
    rw [hstate] at hphase
    rcases hphase with ⟨hconn, hle, hpend⟩
    apply h.handled
    · rfl
    · rfl
    · simp [hnext, EventPc.locked]
    · intro p
      have hok := h.publisher_ok p
      cases hpc : s.publishers p <;> simp_all [PublisherOk]
    · exact ⟨Or.inr hstate, Nat.sub_eq_zero_of_le hle, hpend⟩
    · have hless : s.outstanding - 1 ≤ 1 := by omega
      simpa [hstate, PhaseOk, hconn, hpend] using hless
  · contradiction

/-- The dispatcher takes the mutex when it is free. -/
theorem Control.lockDispatcher {s : State P K Msg} {pc : EventPc} (h : Control s)
    (hfree : s.procMtx = none)
    (hok : DispatcherOk { s with procMtx := some .dispatcher, dispatcher := pc } pc)
    (hphase : PhaseOk { s with procMtx := some .dispatcher, dispatcher := pc } s.callState) :
    Control { s with procMtx := some .dispatcher, dispatcher := pc } where
  publisher_holds := by
    intro p hp
    rw [h.free_unlocked hfree p] at hp
    contradiction
  dispatcher_holds := by
    intro _
    rfl
  publisher_ok := by
    intro p
    exact PublisherOk.of_unlocked (h.free_unlocked hfree p)
  dispatcher_ok := hok
  phase := hphase

/-- The dispatcher gives the mutex back. -/
theorem Control.unlockDispatcher {s : State P K Msg} (h : Control s)
    (hunlock : s.dispatcher = .unlock) :
    Control { s with procMtx := none, dispatcher := .next } where
  publisher_holds := by
    intro p hp
    rw [h.publishers_unlocked (by rw [hunlock]; rfl) p] at hp
    contradiction
  dispatcher_holds := by
    intro hd
    simp [EventPc.locked] at hd
  publisher_ok := by
    intro p
    exact PublisherOk.of_unlocked (h.publishers_unlocked (by rw [hunlock]; rfl) p)
  dispatcher_ok := trivial
  phase := by
    have hphase := h.phase
    cases hc : s.callState <;> simp_all [PhaseOk]

theorem Control.eventStep {s s' : State P K Msg} (h : Control s)
    (hs : s.eventStep = some s') : Control s' := by
  have hphase := h.phase
  have hok := h.dispatcher_ok
  -- from `lockConnect` and `lockWriteDone` on the dispatcher has the mutex
  unfold State.eventStep at hs
  split at hs <;> rename_i hpc <;> rw [hpc] at hok
  · contradiction
  · -- testConnect
    simp only [Option.some.injEq] at hs
    subst hs
    rcases hok with ⟨hstate | hstate, hout, hpend⟩ <;>
      refine h.handledBusy (by simp [hpc]) rfl rfl rfl (by simp [hstate, hpc, EventPc.locked]) ?_ ?_
    · simp [hstate, hpend, DispatcherOk]
    · simpa [hstate, PhaseOk] using hphase
    · simp [hstate, hout, DispatcherOk]
    · simpa [hstate, PhaseOk] using hphase
  · -- testWriteDone
    simp only [Option.some.injEq] at hs
    subst hs
    rcases hok with ⟨hstate, hout⟩
    refine h.handledBusy (by simp [hpc]) rfl rfl rfl (by simp [hstate, hpc, EventPc.locked]) ?_ ?_
    · simp [hstate, hout, DispatcherOk]
    · simpa [hstate, PhaseOk] using hphase
  · exact hok.elim
  · -- addSession
    simp only [Option.some.injEq] at hs
    subst hs
    refine h.handledBusy (by simp [hpc]) rfl rfl rfl (by simp [hpc, EventPc.locked]) ?_ ?_
    · simpa [DispatcherOk] using hok
    · simpa [hok.1, PhaseOk] using hphase
  · -- lockConnect
    split at hs <;> simp only [Option.some.injEq, reduceCtorEq] at hs
    rename_i hmtx
    subst hs
    apply h.lockDispatcher hmtx
    · simpa [DispatcherOk] using hok
    · simpa [hok.1, PhaseOk] using hphase
  · -- storeConnected
    simp only [Option.some.injEq] at hs
    subst hs
    rw [hok.1] at hphase
    refine h.handledLocked (by rw [hpc]; rfl) rfl rfl rfl ?_ ?_
    · simp [DispatcherOk]
    · simp [PhaseOk, hphase.2.1, hphase.2.2.1, hok.2]
  · -- lockWriteDone
    split at hs <;> simp only [Option.some.injEq, reduceCtorEq] at hs
    rename_i hmtx
    subst hs
    apply h.lockDispatcher hmtx
    · simpa [DispatcherOk] using hok
    · simpa [hok.1, PhaseOk] using hphase
  · -- testQueue
    split at hs <;> rename_i hqueue <;> simp only [Option.some.injEq] at hs <;> subst hs <;>
      refine h.handledLocked (by rw [hpc]; rfl) rfl rfl rfl ?_ ?_
    · simpa [DispatcherOk, hqueue] using hok
    · simpa [hok.1, PhaseOk] using hphase
    · simpa [DispatcherOk, hqueue] using hok
    · simpa [hok.1, PhaseOk] using hphase
  · -- storeWait
    simp only [Option.some.injEq] at hs
    subst hs
    refine h.handledLocked (by rw [hpc]; rfl) rfl rfl rfl ?_ ?_
    · simpa [DispatcherOk] using hok.2
    · simpa [hok.1, PhaseOk] using hphase
  · -- writeFront
    split at hs <;> rename_i hqueue <;> simp only [Option.some.injEq, reduceCtorEq] at hs
    subst hs
    rw [hok.1] at hphase
    refine h.handledLocked (by rw [hpc]; rfl) rfl rfl rfl ?_ ?_
    · simp [DispatcherOk, hok.1, hqueue]
    · simp [hok.1, hok.2.1, PhaseOk, hphase.1, hphase.2.2]
  · -- popFront
    simp only [Option.some.injEq] at hs
    subst hs
    refine h.handledLocked (by rw [hpc]; rfl) rfl rfl rfl ?_ ?_
    · simp [DispatcherOk, hok.1]
    · simpa [hok.1, PhaseOk] using hphase
  · -- storeReady
    simp only [Option.some.injEq] at hs
    subst hs
    rw [hok.1] at hphase
    refine h.handledLocked (by rw [hpc]; rfl) rfl rfl rfl ?_ ?_
    · simp [DispatcherOk]
    · simp [PhaseOk, hok.2, hphase.1, hphase.2.2]
  · -- unlock
    simp only [Option.some.injEq] at hs
    subst hs
    exact h.unlockDispatcher hpc
  · exact hok.elim

/-! ## All runs -/

theorem Control.step [DecidableEq P] [DecidableEq K] {queueSize : Int}
    {s s' : State P K Msg} {l : Label P K Msg} (h : Control s) (hok : NeverCancelled s l)
    (hs : step queueSize s l = some s') : Control s' := by
  cases l with
  | publish p msg => exact h.enterPublish hs
  | publisher p => exact h.publishStep hs
  | deliver op => exact h.deliver hs
  | event => exact h.eventStep hs
  | cancel k => exact hok.elim

/-- Every state of an uncancelled session obeys the lock discipline. -/
theorem control_reachable [DecidableEq P] [DecidableEq K] (queueSize : Int)
    {s : State P K Msg} (h : Reach (step queueSize) NeverCancelled initial s) : Control s := by
  apply h.invariant control_initial
  intro s l s' hctl hok hs
  exact hctl.step hok hs

end Publisher
end DAQ
end DtCore
