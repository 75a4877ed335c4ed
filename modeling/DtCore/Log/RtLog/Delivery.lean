import DtCore.Log.RtLog.Machine

/-!
# From the queue to the loggers

The queue of the machine moves by the steps of the ring buffer, so everything
proved about the ring buffer holds of it.  Only one thread at a time runs
`DrainAll`, and it flushes the popped entries one by one: what was passed to
`FlushEntry` is always the entries of a prefix of the claims.

Main results:

- Theorem `queue_reachable`: the queue is in a state the ring buffer reaches.
- Theorem `drainOk`: the popped entries are the flushed ones and at most one that
  is about to be flushed.
- Theorem `flushed_eq`: entry number `t` to be flushed is the one of ticket `t`.
- Theorem `claimedOk`: every push that returned has claimed a ticket.
-/

namespace DtCore
namespace Log
namespace RtLog

open Foundation

section Delivery

variable {P C β : Type}

/-! ## Field lemmas -/

@[simp]
theorem setCall_self [DecidableEq P] (s : State P C β) (p : P) (pc : CallPc β) :
    (s.setCall p pc).calls p = pc := by
  simp [State.setCall]

theorem setCall_ne [DecidableEq P] (s : State P C β) {p q : P} (pc : CallPc β) (hqp : q ≠ p) :
    (s.setCall p pc).calls q = s.calls q := by
  simp [State.setCall, hqp]

@[simp]
theorem setCall_queue [DecidableEq P] (s : State P C β) (p : P) (pc : CallPc β) :
    (s.setCall p pc).queue = s.queue :=
  rfl

@[simp]
theorem setCall_drain [DecidableEq P] (s : State P C β) (p : P) (pc : CallPc β) :
    (s.setCall p pc).drain = s.drain :=
  rfl

@[simp]
theorem setCall_returned [DecidableEq P] (s : State P C β) (p : P) (pc : CallPc β) :
    (s.setCall p pc).returned = s.returned :=
  rfl

@[simp]
theorem setSync_self [DecidableEq C] (s : State P C β) (c : C) (pc : SyncPc P β) :
    (s.setSync c pc).syncs c = pc := by
  simp [State.setSync]

theorem setSync_ne [DecidableEq C] (s : State P C β) {c d : C} (pc : SyncPc P β) (hdc : d ≠ c) :
    (s.setSync c pc).syncs d = s.syncs d := by
  simp [State.setSync, hdc]

/-! ## What each kind of step leaves alone -/

/-- A step of a logging thread: the queue may move by an access of `TryPush`, and
of the drain thread's members only the drop counter may change. -/
structure LoggerFrame (s s' : State P C β) : Prop where
  drain : ∃ drops, s'.drain = { s.drain with dropCount := drops }
  initialized : s'.initialized = s.initialized
  run : s'.run = s.run
  syncSeq : s'.syncSeq = s.syncSeq
  syncAck : s'.syncAck = s.syncAck
  poller : s'.poller = s.poller
  syncs : s'.syncs = s.syncs
  terminator : s'.terminator = s.terminator
  reported : s'.reported = s.reported
  flushed : s'.flushed = s.flushed

theorem LoggerFrame.setCall [DecidableEq P] (s : State P C β) (p : P) (pc : CallPc β) :
    LoggerFrame s (s.setCall p pc) :=
  ⟨⟨_, rfl⟩, rfl, rfl, rfl, rfl, rfl, rfl, rfl, rfl, rfl⟩

/-- Other fields than those of the frame may change as they like. -/
theorem LoggerFrame.congr {s s' t : State P C β} (h : LoggerFrame s s')
    (ht : t = { s' with queue := t.queue, returned := t.returned, passed := t.passed }) :
    LoggerFrame s t := by
  rw [ht]
  exact
    { drain := h.drain
      initialized := h.initialized
      run := h.run
      syncSeq := h.syncSeq
      syncAck := h.syncAck
      poller := h.poller
      syncs := h.syncs
      terminator := h.terminator
      reported := h.reported
      flushed := h.flushed }

theorem loggerStep_frame [DecidableEq P] {N : Nat} {s s' : State P C β} {p : P}
    (h : s.loggerStep N p = some s') : LoggerFrame s s' := by
  unfold State.loggerStep at h
  split at h
  · contradiction
  · contradiction
  · cases h
    exact LoggerFrame.setCall s p _
  · split at h
    · cases h
      exact LoggerFrame.setCall s p _
    · cases h
      exact (LoggerFrame.setCall s p _).congr rfl
  · rcases Option.map_eq_some_iff.mp h with ⟨queue, -, rfl⟩
    exact (LoggerFrame.setCall s p _).congr rfl
  · split at h
    · cases h
      exact LoggerFrame.setCall s p _
    · rcases Option.map_eq_some_iff.mp h with ⟨queue, -, rfl⟩
      exact (LoggerFrame.setCall s p _).congr rfl
    · rcases Option.map_eq_some_iff.mp h with ⟨queue, -, rfl⟩
      exact ⟨⟨_, rfl⟩, rfl, rfl, rfl, rfl, rfl, rfl, rfl, rfl, rfl⟩
  · cases h
    exact (LoggerFrame.setCall s p _).congr rfl
  · cases h
    exact ⟨⟨_, rfl⟩, rfl, rfl, rfl, rfl, rfl, rfl, rfl, rfl, rfl⟩

theorem logStep_frame [DecidableEq P] {s s' : State P C β} {p : P} {e : Entry β}
    (h : s.logStep p e = some s') :
    LoggerFrame s s' ∧ s' = s.setCall p (.checkInitialized e) ∧
      (s.calls p = .idle ∨ s.calls p = .returned) := by
  unfold State.logStep at h
  split at h
  · rename_i hpc
    cases h
    exact ⟨LoggerFrame.setCall s p _, rfl, Or.inl hpc⟩
  · rename_i hpc
    cases h
    exact ⟨LoggerFrame.setCall s p _, rfl, Or.inr hpc⟩
  · contradiction

/-- The part of the state that a `Sync()` caller does not touch. -/
structure SyncFrame (s s' : State P C β) : Prop where
  queue : s'.queue = s.queue
  drain : s'.drain = s.drain
  initialized : s'.initialized = s.initialized
  calls : s'.calls = s.calls
  poller : s'.poller = s.poller
  terminator : s'.terminator = s.terminator
  reported : s'.reported = s.reported
  flushed : s'.flushed = s.flushed
  returned : s'.returned = s.returned
  passed : s'.passed = s.passed

theorem syncStep_frame [DecidableEq C] {s s' : State P C β} {c : C}
    (h : s.syncStep c = some s') : SyncFrame s s' := by
  unfold State.syncStep at h
  split at h
  · contradiction
  · contradiction
  all_goals
    cases h
    exact ⟨rfl, rfl, rfl, rfl, rfl, rfl, rfl, rfl, rfl, rfl⟩

theorem enterSync_frame [DecidableEq C] {s s' : State P C β} {c : C}
    (h : s.enterSync c = some s') :
    SyncFrame s s' ∧ s' = s.setSync c (.checkInitialized s.returned) := by
  unfold State.enterSync at h
  split at h
  · cases h
    exact ⟨⟨rfl, rfl, rfl, rfl, rfl, rfl, rfl, rfl, rfl, rfl⟩, rfl⟩
  · cases h
    exact ⟨⟨rfl, rfl, rfl, rfl, rfl, rfl, rfl, rfl, rfl, rfl⟩, rfl⟩
  · contradiction

/-! ## The queue of the machine -/

variable {env : Spdlog} {N : Nat}

/-- Every step leaves the queue alone or is a step of the ring buffer, by the same
producer if it is an access of `TryPush`. -/
theorem step_queue [DecidableEq P] [DecidableEq C] [LogByte β] {s s' : State P C β}
    {l : Label P C β} (h : step env N s l = some s') :
    s'.queue = s.queue ∨
      ∃ k, LogQueue.step N s.queue k = some s'.queue ∧ ∀ p, k = .producer p → l = .logger p := by
  have hdrain : ∀ pc : DrainPc β, (s.drainStep env N pc).1.queue = s.queue ∨
      LogQueue.step N s.queue .consumer = some (s.drainStep env N pc).1.queue := by
    intro pc
    cases pc with
    | popping => exact Or.inr rfl
    | flushing e => exact Or.inl rfl
  cases l with
  | log p e =>
      rw [(logStep_frame h).2.1]
      exact Or.inl rfl
  | logger p =>
      change s.loggerStep N p = some s' at h
      unfold State.loggerStep at h
      split at h
      · contradiction
      · contradiction
      · cases h
        exact Or.inl rfl
      · split at h <;> cases h <;> exact Or.inl rfl
      · rename_i e _
        rcases Option.map_eq_some_iff.mp h with ⟨queue, hq, rfl⟩
        exact Or.inr ⟨.call p e, hq, by simp⟩
      · split at h
        · cases h
          exact Or.inl rfl
        · rcases Option.map_eq_some_iff.mp h with ⟨queue, hq, rfl⟩
          exact Or.inr ⟨.producer p, hq, by simp⟩
        · rcases Option.map_eq_some_iff.mp h with ⟨queue, hq, rfl⟩
          exact Or.inr ⟨.producer p, hq, by simp⟩
      · cases h
        exact Or.inl rfl
      · cases h
        exact Or.inl rfl
  | poll =>
      change s.pollStep env N = some s' at h
      unfold State.pollStep at h
      split at h
      case h_2 pc _ =>
        have hq : s'.queue = (s.drainStep env N pc).1.queue := by
          dsimp only at h
          split at h <;> cases h <;> rfl
        rw [hq]
        rcases hdrain pc with heq | hstep
        · exact Or.inl heq
        · exact Or.inr ⟨.consumer, hstep, by simp⟩
      case h_7 => contradiction
      all_goals
        cases h
        exact Or.inl rfl
  | enterSync c => exact Or.inl (enterSync_frame h).1.queue
  | sync c => exact Or.inl (syncStep_frame h).queue
  | terminate =>
      change s.termStep env N = some s' at h
      unfold State.termStep at h
      split at h
      case h_5 =>
        split at h
        · cases h
          exact Or.inl rfl
        · contradiction
      case h_6 pc _ =>
        have hq : s'.queue = (s.drainStep env N pc).1.queue := by
          dsimp only at h
          split at h <;> cases h <;> rfl
        rw [hq]
        rcases hdrain pc with heq | hstep
        · exact Or.inl heq
        · exact Or.inr ⟨.consumer, hstep, by simp⟩
      case h_10 => contradiction
      all_goals
        cases h
        exact Or.inl rfl
  | setLevel level =>
      cases h
      exact Or.inl rfl

/-- The queue of a run with fresh claims is in a state the ring buffer reaches. -/
theorem queue_reachable [DecidableEq P] [DecidableEq C] [LogByte β] {bound : Nat}
    {ok : State P C β → Label P C β → Prop}
    (hok : ∀ s l, ok s l → FreshClaims bound s l) {pattern : String} {tb : TimeBase}
    {contLevel : LogLevel} {level : Int} {found : Found P β} (hfound : found.AtRest N bound)
    {s : State P C β} (h : Reach (step env N) ok (initial pattern tb contLevel level found) s) :
    LogQueue.Reachable N bound s.queue := by
  refine hfound.reachable.trans (Reach.project State.queue ?_ h)
  intro s l s' hl hstep
  rcases step_queue hstep with heq | ⟨k, hk, hprod⟩
  · exact Or.inl heq
  · refine Or.inr ⟨k, ?_, hk⟩
    cases k with
    | call p e => exact trivial
    | producer p =>
        rw [hprod p rfl] at hl
        exact hok _ _ hl
    | consumer => exact trivial

/-! ## What the consumer has handed out -/

/-- The entry `TryPop` has just returned. -/
def handedOut : LogQueue.PopPc (Entry β) → List (Entry β)
  | .returned (some e) => [e]
  | _ => []

/-- A consumer access pops exactly when it ends a successful `TryPop`; it claims
nothing. -/
theorem consumerStep_popped (N : Nat) (q : LogQueue.State P (Entry β)) :
    (q.consumerStep N).popped = q.popped ++ handedOut (q.consumerStep N).consumer ∧
      (q.consumerStep N).claims = q.claims ∧ (q.consumerStep N).calls = q.calls ∧
      (q.consumerStep N).producers = q.producers := by
  unfold LogQueue.State.consumerStep
  split
  case h_3 =>
    split <;> exact ⟨(List.append_nil _).symm, rfl, rfl, rfl⟩
  case h_6 => exact ⟨rfl, rfl, rfl, rfl⟩
  all_goals exact ⟨(List.append_nil _).symm, rfl, rfl, rfl⟩

/-- An access of `TryPush` pops nothing and only appends claims. -/
theorem producerStep_claims [DecidableEq P] {N : Nat} {q q' : LogQueue.State P (Entry β)} {p : P}
    (h : q.producerStep N p = some q') :
    q'.popped = q.popped ∧ q'.calls = q.calls ∧ q.claims <+: q'.claims := by
  unfold LogQueue.State.producerStep at h
  split at h
  · contradiction
  · contradiction
  · cases h
    exact ⟨rfl, rfl, List.prefix_refl _⟩
  · dsimp only at h
    split at h
    · cases h
      exact ⟨rfl, rfl, List.prefix_refl _⟩
    · split at h <;> cases h <;> exact ⟨rfl, rfl, List.prefix_refl _⟩
  · split at h
    · cases h
      exact ⟨rfl, rfl, List.prefix_append _ _⟩
    · cases h
      exact ⟨rfl, rfl, List.prefix_refl _⟩
  · cases h
    exact ⟨rfl, rfl, List.prefix_refl _⟩
  · cases h
    exact ⟨rfl, rfl, List.prefix_refl _⟩

/-- Entering `TryPush` pops and claims nothing. -/
theorem callStep_claims [DecidableEq P] {q q' : LogQueue.State P (Entry β)} {p : P} {e : Entry β}
    (h : q.callStep p e = some q') : q'.popped = q.popped ∧ q'.claims = q.claims := by
  unfold LogQueue.State.callStep at h
  split at h
  · cases h
    exact ⟨rfl, rfl⟩
  · cases h
    exact ⟨rfl, rfl⟩
  · contradiction

/-- A logging thread pops nothing and only appends claims. -/
theorem loggerStep_claims [DecidableEq P] {s s' : State P C β} {p : P}
    (h : s.loggerStep N p = some s') :
    s'.queue.popped = s.queue.popped ∧ s.queue.claims <+: s'.queue.claims := by
  unfold State.loggerStep at h
  split at h
  · contradiction
  · contradiction
  · cases h
    exact ⟨rfl, List.prefix_refl _⟩
  · split at h <;> cases h <;> exact ⟨rfl, List.prefix_refl _⟩
  · rcases Option.map_eq_some_iff.mp h with ⟨queue, hq, rfl⟩
    rcases callStep_claims hq with ⟨hpopped, hclaims⟩
    exact ⟨hpopped, hclaims ▸ List.prefix_refl _⟩
  · split at h
    · cases h
      exact ⟨rfl, List.prefix_refl _⟩
    · rcases Option.map_eq_some_iff.mp h with ⟨queue, hq, rfl⟩
      exact ⟨(producerStep_claims hq).1, (producerStep_claims hq).2.2⟩
    · rcases Option.map_eq_some_iff.mp h with ⟨queue, hq, rfl⟩
      exact ⟨(producerStep_claims hq).1, (producerStep_claims hq).2.2⟩
  · cases h
    exact ⟨rfl, List.prefix_refl _⟩
  · cases h
    exact ⟨rfl, List.prefix_refl _⟩

/-- The part of the state that the thread running `DrainAll` does not touch. -/
structure DrainFrame (s s' : State P C β) : Prop where
  claims : s'.queue.claims = s.queue.claims
  queueCalls : s'.queue.calls = s.queue.calls
  producers : s'.queue.producers = s.queue.producers
  calls : s'.calls = s.calls
  syncs : s'.syncs = s.syncs
  syncSeq : s'.syncSeq = s.syncSeq
  returned : s'.returned = s.returned
  passed : s'.passed = s.passed

/-- A step of `DrainAll` moves neither its caller nor another thread. -/
theorem drainStep_frame [LogByte β] (env : Spdlog) (N : Nat) (s : State P C β)
    (pc : DrainPc β) :
    DrainFrame s (s.drainStep env N pc).1 ∧
      (s.drainStep env N pc).1.poller = s.poller ∧
      (s.drainStep env N pc).1.terminator = s.terminator ∧
      (s.drainStep env N pc).1.syncAck = s.syncAck ∧
      (s.drainStep env N pc).1.initialized = s.initialized ∧
      (s.drainStep env N pc).1.reported = s.reported := by
  cases pc with
  | popping =>
      rcases consumerStep_popped N s.queue with ⟨-, hclaims, hcalls, hprod⟩
      exact ⟨⟨hclaims, hcalls, hprod, rfl, rfl, rfl, rfl, rfl⟩, rfl, rfl, rfl, rfl, rfl⟩
  | flushing e => exact ⟨⟨rfl, rfl, rfl, rfl, rfl, rfl, rfl, rfl⟩, rfl, rfl, rfl, rfl, rfl⟩

/-- `DrainAll` takes back no flushed entry. -/
theorem drainStep_flushed [LogByte β] (env : Spdlog) (N : Nat) (s : State P C β)
    (pc : DrainPc β) : s.flushed.length ≤ (s.drainStep env N pc).1.flushed.length := by
  cases pc with
  | popping => exact le_rfl
  | flushing e =>
      change s.flushed.length ≤ (s.flushed ++ [e]).length
      simp

theorem DrainFrame.congr {s s' t : State P C β} (h : DrainFrame s s')
    (ht : t = { s' with
      drain := t.drain, initialized := t.initialized, run := t.run, syncAck := t.syncAck,
      poller := t.poller, terminator := t.terminator, reported := t.reported }) :
    DrainFrame s t := by
  rw [ht]
  exact
    { claims := h.claims
      queueCalls := h.queueCalls
      producers := h.producers
      calls := h.calls
      syncs := h.syncs
      syncSeq := h.syncSeq
      returned := h.returned
      passed := h.passed }

theorem DrainFrame.refl (s : State P C β) : DrainFrame s s :=
  ⟨rfl, rfl, rfl, rfl, rfl, rfl, rfl, rfl⟩

/-- The drain thread claims and pushes nothing and moves no other thread. -/
theorem pollStep_frame [LogByte β] {s s' : State P C β} (h : s.pollStep env N = some s') :
    DrainFrame s s' := by
  unfold State.pollStep at h
  split at h
  case h_2 pc _ =>
    dsimp only at h
    split at h
    · cases h
      exact (drainStep_frame env N s pc).1.congr rfl
    · cases h
      exact (drainStep_frame env N s pc).1.congr rfl
  case h_7 => contradiction
  all_goals
    cases h
    exact (DrainFrame.refl s).congr rfl

/-- `Terminate()` claims and pushes nothing and moves no other thread. -/
theorem termStep_frame [LogByte β] {s s' : State P C β} (h : s.termStep env N = some s') :
    DrainFrame s s' := by
  unfold State.termStep at h
  split at h
  case h_5 =>
    split at h
    · cases h
      exact (DrainFrame.refl s).congr rfl
    · contradiction
  case h_6 pc _ =>
    dsimp only at h
    split at h
    · cases h
      exact (drainStep_frame env N s pc).1.congr rfl
    · cases h
      exact (drainStep_frame env N s pc).1.congr rfl
  case h_10 => contradiction
  all_goals
    cases h
    exact (DrainFrame.refl s).congr rfl

/-- `Terminate()` moves neither the drain thread nor the acknowledge, and takes
back no flushed entry. -/
theorem termStep_poller [LogByte β] {s s' : State P C β} (h : s.termStep env N = some s') :
    s'.poller = s.poller ∧ s'.syncAck = s.syncAck ∧
      s.flushed.length ≤ s'.flushed.length := by
  unfold State.termStep at h
  split at h
  case h_5 =>
    split at h
    · cases h
      exact ⟨rfl, rfl, le_rfl⟩
    · contradiction
  case h_6 pc _ =>
    rcases drainStep_frame env N s pc with ⟨-, hpoller, -, hack, -, -⟩
    have hflushed := drainStep_flushed env N s pc
    dsimp only at h
    split at h <;> cases h <;> exact ⟨hpoller, hack, hflushed⟩
  case h_10 => contradiction
  all_goals
    cases h
    exact ⟨rfl, rfl, le_rfl⟩

/-! ## The end of the drain loop -/

/-- The next load of a slot's sequence number ends `TryPop` without an entry. -/
def popFails {P E : Type} (N : Nat) (q : LogQueue.State P E) : Bool :=
  match q.consumer with
  | .loadSeq tail =>
      LogQueue.ticketDiff (q.slots (LogQueue.slotIndex N tail)).seq (tail + 1) != 0
  | _ => false

/-- A failing `TryPop` is the one that found no published entry. -/
theorem popFails_of_returned {E : Type} {N : Nat} {q : LogQueue.State P E}
    (h : (q.consumerStep N).consumer = .returned none) : popFails N q = true := by
  unfold LogQueue.State.consumerStep at h
  unfold popFails
  split at h <;> rename_i hpc
  · contradiction
  · contradiction
  · rw [hpc]
    split at h
    · contradiction
    · rename_i hne
      simpa using hne
  · contradiction
  · contradiction
  · cases h

/-- `DrainAll` ends with a failing `TryPop`. -/
theorem popFails_of_drained [LogByte β] {s : State P C β}
    (h : (s.drainStep env N .popping).2 = none) : popFails N s.queue = true := by
  refine popFails_of_returned ?_
  unfold State.drainStep at h
  dsimp only at h
  split at h
  · assumption
  · contradiction
  · contradiction

/-! ## One thread drains at a time -/

/-- The popped entry that is about to be flushed. -/
def DrainPc.inFlight : DrainPc β → List (Entry β)
  | .popping => []
  | .flushing e => [e]

/-- The entry the drain thread is about to flush. -/
def PollPc.inFlight : PollPc β → List (Entry β)
  | .drainAll pc => pc.inFlight
  | _ => []

/-- The entry `Terminate()` is about to flush. -/
def TermPc.inFlight : TermPc β → List (Entry β)
  | .drainAll pc => pc.inFlight
  | _ => []

/-- `pthread_join` has returned. -/
def TermPc.joined : TermPc β → Bool
  | .drainAll _ => true
  | .flushCont => true
  | .storeInitialized => true
  | .resetLogger => true
  | _ => false

/-- The popped entries are the flushed ones and at most one that is about to be
flushed; `Terminate()` drains after the drain thread has ended. -/
structure DrainOk (s : State P C β) : Prop where
  popped_eq : s.queue.popped = s.flushed ++ (s.poller.inFlight ++ s.terminator.inFlight)
  exclusive : s.terminator.joined = true → s.poller = .exited

theorem DrainOk.of_same {s s' : State P C β} (h : DrainOk s)
    (hpopped : s'.queue.popped = s.queue.popped) (hflushed : s'.flushed = s.flushed)
    (hpoller : s'.poller = s.poller) (hterm : s'.terminator = s.terminator) : DrainOk s' where
  popped_eq := by
    rw [hpopped, hflushed, hpoller, hterm]
    exact h.popped_eq
  exclusive := by
    rw [hpoller, hterm]
    exact h.exclusive

/-- Before `pthread_join` returns `Terminate()` flushes nothing. -/
theorem inFlight_of_not_joined {t : TermPc β} (h : t.joined = false) : t.inFlight = [] := by
  cases t with
  | drainAll pc => contradiction
  | _ => rfl

/-- One step of `DrainAll`: what was popped is what was flushed and what is in
flight. -/
theorem drainStep_popped [LogByte β] (env : Spdlog) (N : Nat) (s : State P C β) (pc : DrainPc β)
    (h : s.queue.popped = s.flushed ++ pc.inFlight) :
    (s.drainStep env N pc).1.queue.popped =
      (s.drainStep env N pc).1.flushed ++
        ((s.drainStep env N pc).2.elim [] DrainPc.inFlight) := by
  cases pc with
  | popping =>
      change (s.queue.consumerStep N).popped = s.flushed ++ _
      rw [(consumerStep_popped N s.queue).1, h, DrainPc.inFlight, List.append_nil]
      congr 1
      unfold State.drainStep
      dsimp only
      split
      · rename_i hpc
        rw [hpc]
        rfl
      · rename_i hpc
        rw [hpc]
        rfl
      · rename_i hnone hsome
        unfold handedOut
        split
        · rename_i e hpc
          exact absurd hpc (hsome e)
        · rfl
  | flushing e =>
      change s.queue.popped = (s.flushed ++ [e]) ++ []
      rw [h, List.append_nil, DrainPc.inFlight]

theorem DrainOk.pollStep [LogByte β] {s s' : State P C β} (h : DrainOk s)
    (hstep : s.pollStep env N = some s') : DrainOk s' := by
  have hrunning : s.poller ≠ .exited → s.terminator.joined = false := by
    intro hne
    cases hj : s.terminator.joined with
    | false => rfl
    | true => exact absurd (h.exclusive hj) hne
  have hpopped := h.popped_eq
  unfold State.pollStep at hstep
  split at hstep
  case h_1 hpc =>
    cases hstep
    rw [hpc] at hpopped
    refine { popped_eq := ?_, exclusive := ?_ }
    · rw [hpopped]
      cases s.run <;> rfl
    · intro hj
      have hnot := hrunning (by rw [hpc]; simp)
      rw [hnot] at hj
      contradiction
  case h_2 pc hpc =>
    have hnot := hrunning (by rw [hpc]; simp)
    rw [hpc, inFlight_of_not_joined hnot, List.append_nil] at hpopped
    have hnext := drainStep_popped env N s pc hpopped
    have hterm := (drainStep_frame env N s pc).2.2.1
    dsimp only at hstep
    split at hstep
    · rename_i pc' hpc'
      cases hstep
      rw [hpc'] at hnext
      refine { popped_eq := ?_, exclusive := ?_ }
      · change _ = _ ++ (pc'.inFlight ++ _)
        rw [hterm, inFlight_of_not_joined hnot, List.append_nil]
        exact hnext
      · intro hj
        change (s.drainStep env N pc).1.terminator.joined = true at hj
        rw [hterm, hnot] at hj
        contradiction
    · rename_i hpc'
      cases hstep
      rw [hpc'] at hnext
      refine { popped_eq := ?_, exclusive := ?_ }
      · change _ = _ ++ ([] ++ _)
        rw [hterm, inFlight_of_not_joined hnot]
        exact hnext
      · intro hj
        change (s.drainStep env N pc).1.terminator.joined = true at hj
        rw [hterm, hnot] at hj
        contradiction
  case h_7 => contradiction
  all_goals
    rename_i hpc
    have hnot := hrunning (by rw [hpc]; simp)
    cases hstep
    rw [hpc] at hpopped
    refine { popped_eq := ?_, exclusive := ?_ }
    · rw [hpopped]
      try rfl
      try (dsimp only; split <;> rfl)
    · intro hj
      rw [hnot] at hj
      contradiction

theorem DrainOk.termStep [LogByte β] {s s' : State P C β} (h : DrainOk s)
    (hstep : s.termStep env N = some s') : DrainOk s' := by
  have hpopped := h.popped_eq
  unfold State.termStep at hstep
  split at hstep
  case h_5 hpc =>
    split at hstep
    · rename_i hexit
      cases hstep
      rw [hpc] at hpopped
      exact { popped_eq := hpopped, exclusive := fun _ => hexit }
    · contradiction
  case h_6 pc hpc =>
    have hexit : s.poller = .exited := h.exclusive (by rw [hpc]; rfl)
    rw [hpc, hexit] at hpopped
    have hnext := drainStep_popped env N s pc hpopped
    have hpoller := (drainStep_frame env N s pc).2.1
    dsimp only at hstep
    split at hstep
    · rename_i pc' hpc'
      cases hstep
      rw [hpc'] at hnext
      refine { popped_eq := ?_, exclusive := fun _ => hpoller.trans hexit }
      change _ = _ ++ ((s.drainStep env N pc).1.poller.inFlight ++ pc'.inFlight)
      rw [hpoller, hexit]
      exact hnext
    · rename_i hpc'
      cases hstep
      rw [hpc'] at hnext
      refine { popped_eq := ?_, exclusive := fun _ => hpoller.trans hexit }
      change _ = _ ++ ((s.drainStep env N pc).1.poller.inFlight ++ [])
      rw [hpoller, hexit]
      exact hnext
  case h_10 => contradiction
  all_goals
    rename_i hpc
    cases hstep
    rw [hpc] at hpopped
    refine { popped_eq := ?_, exclusive := ?_ }
    · rw [hpopped]
      try rfl
      try (dsimp only; split <;> rfl)
    · intro hj
      first
        | exact h.exclusive (by rw [hpc]; rfl)
        | (dsimp only at hj; split at hj <;> contradiction)
        | contradiction

/-- In every run the popped entries are flushed one by one. -/
theorem drainOk [DecidableEq P] [DecidableEq C] [LogByte β]
    {ok : State P C β → Label P C β → Prop} {pattern : String} {tb : TimeBase}
    {contLevel : LogLevel} {level : Int} {found : Found P β} {s : State P C β}
    (h : Reach (step env N) ok (initial pattern tb contLevel level found) s) : DrainOk s := by
  have hstart : DrainOk (initial pattern tb contLevel level found : State P C β) :=
    { popped_eq := (List.append_nil _).symm, exclusive := fun hj => by contradiction }
  refine Reach.invariant hstart ?_ h
  intro s l s' hs _ hstep
  cases l with
  | log p e =>
      rcases logStep_frame hstep with ⟨hf, heq, -⟩
      exact hs.of_same (by rw [heq]; rfl) hf.flushed hf.poller hf.terminator
  | logger p =>
      have hf := loggerStep_frame hstep
      exact hs.of_same (loggerStep_claims hstep).1 hf.flushed hf.poller hf.terminator
  | poll => exact hs.pollStep hstep
  | enterSync c =>
      have hf := (enterSync_frame hstep).1
      exact hs.of_same (by rw [hf.queue]) hf.flushed hf.poller hf.terminator
  | sync c =>
      have hf := syncStep_frame hstep
      exact hs.of_same (by rw [hf.queue]) hf.flushed hf.poller hf.terminator
  | terminate => exact hs.termStep hstep
  | setLevel level =>
      cases hstep
      exact hs.of_same rfl rfl rfl rfl

/-! ## What was flushed -/

/-- In every run with fresh claims the flushed entries are those of the first
tickets, in ticket order. -/
theorem flushed_eq [DecidableEq P] [DecidableEq C] [LogByte β] (hN : LogQueue.ValidCapacity N)
    {bound : Nat} (hbound : bound ≤ 2 ^ 32) {ok : State P C β → Label P C β → Prop}
    (hok : ∀ s l, ok s l → FreshClaims bound s l) {pattern : String} {tb : TimeBase}
    {contLevel : LogLevel} {level : Int} {found : Found P β} (hfound : found.AtRest N bound)
    {s : State P C β} (h : Reach (step env N) ok (initial pattern tb contLevel level found) s) :
    s.flushed = (s.queue.claims.take s.flushed.length).map LogQueue.Claim.entry ∧
      s.queue.popped.length ≤ s.queue.claims.length := by
  have hqueue := queue_reachable hok hfound h
  have hpopped := (hqueue.history hN hbound).popped_eq
  have hinv := hqueue.inv hN hbound
  have hdrain := (drainOk h).popped_eq
  refine ⟨?_, hinv.tail_le⟩
  have hle : s.flushed.length ≤ s.queue.popped.length := by
    rw [hdrain, List.length_append]
    omega
  calc s.flushed = s.queue.popped.take s.flushed.length := by rw [hdrain, List.take_left]
    _ = ((s.queue.claims.take s.queue.popped.length).map LogQueue.Claim.entry).take
          s.flushed.length := by rw [← hpopped]
    _ = (s.queue.claims.take s.flushed.length).map LogQueue.Claim.entry := by
        rw [← List.map_take, List.take_take, Nat.min_eq_left hle]

end Delivery

end RtLog
end Log
end DtCore
