import DtCore.Log.RtLog.Delivery
import DtCore.Log.RtLog.Handed

/-!
# What `Terminate()` accounts for

`Terminate()` loads the drop counter, ends the drain thread, drains the queue once
more and only then clears `m_initialized`.  A logging call that has passed its
checks can push into the queue after that last drain, or count a drop after the
counter was loaded; the last drain can end at a ticket that is claimed but not
published; and continuation text can be cut off without being counted.
`push_after_last_drain` is such a run.  `Orderly` names these events as
conditions on a step, and without them nothing is lost unaccounted.

Main results:

- Theorem `shutdownOk`: what the threads keep true up to the end of `Terminate()`.
- Theorem `shutdown_accounted_of_orderly`: in orderly runs every logging call that
  passed its checks is handed to a logger or counted, and the report is right.
-/

namespace DtCore
namespace Log
namespace RtLog

open Foundation

/-! ## How far `Terminate()` has come -/

/-- `m_initialized` was not tested yet. -/
def TermPc.atStart {β : Type} : TermPc β → Bool
  | .idle => true
  | .checkInitialized => true
  | _ => false

/-- The drop counter was loaded for the report. -/
def TermPc.loadedDrops {β : Type} : TermPc β → Bool
  | .idle => false
  | .checkInitialized => false
  | .loadDrops => false
  | _ => true

/-- The last drain has ended. -/
def TermPc.drained {β : Type} : TermPc β → Bool
  | .flushCont => true
  | .storeInitialized => true
  | .resetLogger => true
  | .returned => true
  | _ => false

/-- The last continuation line was flushed. -/
def TermPc.flushedCont {β : Type} : TermPc β → Bool
  | .storeInitialized => true
  | .resetLogger => true
  | .returned => true
  | _ => false

/-- `Terminate()` has returned. -/
def TermPc.isReturned {β : Type} : TermPc β → Bool
  | .returned => true
  | _ => false

theorem TermPc.eq_returned {β : Type} {pc : TermPc β} (h : pc.isReturned = true) :
    pc = .returned := by
  cases pc <;> first | rfl | contradiction

/-- The logging call is about to count a drop. -/
def CallPc.countsDrop {β : Type} : CallPc β → Bool
  | .countDrop => true
  | _ => false

/-- The thread is in no logging call. -/
def CallPc.atRest {β : Type} : CallPc β → Bool
  | .idle => true
  | .returned => true
  | _ => false

/-! ## Conditions on a step -/

section Orderly

variable {P C β : Type}

/-- The next access of the thread is an exchange on `m_head` that will succeed. -/
def State.claimsNow (s : State P C β) (p : P) : Bool :=
  match s.calls p, s.queue.producers p with
  | .pushing, .cas _ head _ => s.queue.head == head
  | _, _ => false

/-- Flushing `e` cuts off no text, throws in no continuation line, and throws in the
entry only before the drop counter was loaded. -/
def State.FlushOk [LogByte β] (env : Spdlog) (s : State P C β) (e : Entry β) : Prop :=
  Uncut s.drain.contBuf.length e ∧
    env.QuietFrom s.drain.lineCalls (s.drain.linesFor (e.tagged s.flushed.length)).length ∧
    (e.isCont = false → s.terminator.loadedDrops = true →
      env.entryThrows s.drain.entryCalls = false)

/-- Steps that lose nothing: claims are fresh and made before the last drain has
ended; drops are counted before the counter is loaded; the last drain ends on an
empty queue; flushing cuts off no text and throws in no continuation line. -/
def Orderly [LogByte β] (env : Spdlog) (N bound : Nat) (s : State P C β) : Label P C β → Prop
  | .logger p =>
      s.queue.claimAge p < bound ∧
        (s.claimsNow p = true → s.terminator.drained = false) ∧
        ((s.calls p).countsDrop = true → s.terminator.loadedDrops = false)
  | .poll =>
      match s.poller with
      | .drainAll (.flushing e) => s.FlushOk env e
      | _ => True
  | .terminate =>
      match s.terminator with
      | .drainAll (.flushing e) => s.FlushOk env e
      | .drainAll .popping =>
          popFails N s.queue = true → s.queue.popped.length = s.queue.claims.length
      | .flushCont =>
          env.QuietFrom s.drain.lineCalls (takenLines true s.drain.contBuf).length
      | _ => True
  | _ => True

theorem Orderly.fresh [LogByte β] {env : Spdlog} {N bound : Nat} {s : State P C β}
    {l : Label P C β} (h : Orderly env N bound s l) : FreshClaims bound s l := by
  cases l with
  | logger p => exact h.1
  | _ => trivial

/-! ## Calls that passed their checks -/

/-- A producer whose push may still succeed or fail. -/
def pushOpen : LogQueue.PushPc (Entry β) → Nat
  | .writeData _ _ _ => 0
  | .storeSeq _ _ _ => 0
  | .returned ok => if ok then 0 else 1
  | _ => 1

/-- One for a thread inside a call that passed its checks and has neither claimed
a ticket nor counted a drop. -/
def State.openCall (s : State P C β) (p : P) : Nat :=
  match s.calls p with
  | .enqueue _ => 1
  | .pushing => pushOpen (s.queue.producers p)
  | .countDrop => 1
  | _ => 0

/-- Every call that passed its checks is still open, has claimed a ticket, or has
counted a drop; the drain thread counted the other drops. -/
def PassedOk (s : State P C β) (counted : Nat) : Prop :=
  ∃ A : Finset P, (∀ p, p ∈ A ↔ s.openCall p = 1) ∧
    s.passed + counted = s.queue.claims.length + s.drain.dropCount + A.card

theorem pushOpen_le (pc : LogQueue.PushPc (Entry β)) : pushOpen pc ≤ 1 := by
  unfold pushOpen
  split
  · exact Nat.zero_le _
  · exact Nat.zero_le _
  · split <;> omega
  · exact le_rfl

theorem openCall_le (s : State P C β) (p : P) : s.openCall p ≤ 1 := by
  unfold State.openCall
  split
  · exact le_rfl
  · exact pushOpen_le _
  · exact le_rfl
  · exact Nat.zero_le _

/-- One thread moves: what its call is no longer open for was claimed or counted. -/
theorem PassedOk.move [DecidableEq P] {s s' : State P C β} {counted : Nat}
    (h : PassedOk s counted) (p : P) (hother : ∀ q, q ≠ p → s'.openCall q = s.openCall q)
    (hsum : s'.passed + (s.queue.claims.length + s.drain.dropCount + s.openCall p) =
      s.passed + (s'.queue.claims.length + s'.drain.dropCount + s'.openCall p)) :
    PassedOk s' counted := by
  rcases h with ⟨A, hA, hcount⟩
  have hle := openCall_le s p
  have hle' := openCall_le s' p
  by_cases hin : s.openCall p = 1
  · have hpA : p ∈ A := (hA p).mpr hin
    by_cases hin' : s'.openCall p = 1
    · refine ⟨A, ?_, by omega⟩
      intro q
      by_cases hqp : q = p
      · rw [hqp]
        exact ⟨fun _ => hin', fun _ => hpA⟩
      · rw [hA q, hother q hqp]
    · refine ⟨A.erase p, ?_, ?_⟩
      · intro q
        rw [Finset.mem_erase]
        by_cases hqp : q = p
        · rw [hqp]
          exact ⟨fun hq => absurd rfl hq.1, fun hq => absurd hq hin'⟩
        · rw [hA q, hother q hqp]
          exact ⟨fun hq => hq.2, fun hq => ⟨hqp, hq⟩⟩
      · have hcard := Finset.card_erase_add_one hpA
        omega
  · have hpA : p ∉ A := fun hp => hin ((hA p).mp hp)
    by_cases hin' : s'.openCall p = 1
    · refine ⟨insert p A, ?_, ?_⟩
      · intro q
        rw [Finset.mem_insert]
        by_cases hqp : q = p
        · rw [hqp]
          exact ⟨fun _ => hin', fun _ => Or.inl rfl⟩
        · rw [hA q, hother q hqp]
          exact ⟨fun hq => hq.resolve_left hqp, Or.inr⟩
      · rw [Finset.card_insert_of_notMem hpA]
        omega
    · refine ⟨A, ?_, by omega⟩
      intro q
      by_cases hqp : q = p
      · rw [hqp]
        exact ⟨fun hp => absurd hp hpA, fun hp => absurd hp hin'⟩
      · rw [hA q, hother q hqp]

/-- The drain thread counts what it drops. -/
theorem PassedOk.of_drain {s s' : State P C β} {counted counted' : Nat}
    (h : PassedOk s counted) (hframe : DrainFrame s s')
    (hdrop : s'.drain.dropCount + counted = s.drain.dropCount + counted') :
    PassedOk s' counted' := by
  rcases h with ⟨A, hA, hcount⟩
  refine ⟨A, ?_, ?_⟩
  · intro p
    unfold State.openCall
    rw [hframe.calls, hframe.producers]
    exact hA p
  · rw [hframe.passed, hframe.claims]
    omega

/-- No call is open once all threads are at rest. -/
theorem PassedOk.at_rest {s : State P C β} {counted : Nat} (h : PassedOk s counted)
    (hrest : ∀ p, (s.calls p).atRest = true) :
    s.passed + counted = s.queue.claims.length + s.drain.dropCount := by
  rcases h with ⟨A, hA, hcount⟩
  have hempty : A = ∅ := by
    rw [Finset.eq_empty_iff_forall_notMem]
    intro p hp
    have hopen := (hA p).mp hp
    have hidle := hrest p
    unfold State.openCall at hopen
    split at hopen <;> rename_i hpc
    · rw [hpc] at hidle
      contradiction
    · rw [hpc] at hidle
      contradiction
    · rw [hpc] at hidle
      contradiction
    · contradiction
  rw [hcount, hempty, Finset.card_empty, Nat.add_zero]

/-! ## Steps of a logging call -/

variable [DecidableEq P] {N : Nat}

theorem openCall_setCall_ne (s : State P C β) {p q : P} (pc : CallPc β) (hqp : q ≠ p) :
    (s.setCall p pc).openCall q = s.openCall q := by
  unfold State.openCall
  rw [setCall_ne s pc hqp]
  rfl

/-- An access of `TryPush` moves one producer; its push is open until its claim. -/
theorem producerStep_open {q q' : LogQueue.State P (Entry β)} {p : P}
    (h : q.producerStep N p = some q') :
    (∀ r, r ≠ p → q'.producers r = q.producers r) ∧
      pushOpen (q.producers p) + q.claims.length =
        pushOpen (q'.producers p) + q'.claims.length ∧
      (q'.claims = q.claims ∨ ∃ e head t, q.producers p = .cas e head t ∧ q.head = head) := by
  unfold LogQueue.State.producerStep at h
  split at h <;> rename_i hpc
  · contradiction
  · contradiction
  · cases h
    refine ⟨fun r hr => LogQueue.setProducer_ne q _ hr, ?_, Or.inl rfl⟩
    rw [hpc, LogQueue.setProducer_self]
    rfl
  · dsimp only at h
    split at h
    · cases h
      refine ⟨fun r hr => LogQueue.setProducer_ne q _ hr, ?_, Or.inl rfl⟩
      rw [hpc, LogQueue.setProducer_self]
      rfl
    · split at h <;> cases h <;>
        refine ⟨fun r hr => LogQueue.setProducer_ne q _ hr, ?_, Or.inl rfl⟩
      · rw [hpc, LogQueue.setProducer_self]
        rfl
      · rw [hpc, LogQueue.setProducer_self]
        rfl
  · rename_i e head t
    split at h
    · rename_i hhead
      cases h
      refine ⟨fun r hr => LogQueue.setProducer_ne q _ hr, ?_, Or.inr ⟨e, head, t, hpc, hhead⟩⟩
      rw [hpc]
      change 1 + _ = pushOpen ((q.setProducer p (.writeData e head t)).producers p) + _
      rw [LogQueue.setProducer_self, List.length_append]
      simp [pushOpen, Nat.add_comm]
    · cases h
      refine ⟨fun r hr => LogQueue.setProducer_ne q _ hr, ?_, Or.inl rfl⟩
      rw [hpc, LogQueue.setProducer_self]
      rfl
  · rename_i e head t
    cases h
    refine ⟨fun r hr => LogQueue.setProducer_ne q _ hr, ?_, Or.inl rfl⟩
    rw [hpc]
    change 0 + _ = pushOpen ((q.setProducer p (.storeSeq e head t)).producers p) + _
    rw [LogQueue.setProducer_self]
    rfl
  · cases h
    refine ⟨fun r hr => LogQueue.setProducer_ne q _ hr, ?_, Or.inl rfl⟩
    rw [hpc]
    change 0 + _ = pushOpen ((q.setProducer p (.returned true)).producers p) + _
    rw [LogQueue.setProducer_self]
    rfl

/-- Entering `TryPush` opens the push. -/
theorem callStep_open {q q' : LogQueue.State P (Entry β)} {p : P} {e : Entry β}
    (h : q.callStep p e = some q') :
    q'.producers = (q.setProducer p (.loadHead e)).producers ∧ q'.claims = q.claims := by
  unfold LogQueue.State.callStep at h
  split at h
  · cases h
    exact ⟨rfl, rfl⟩
  · cases h
    exact ⟨rfl, rfl⟩
  · contradiction

/-- A logging call claims only by a successful exchange and counts a drop only
where it says so. -/
theorem loggerStep_counts {s s' : State P C β} {p : P} (h : s.loggerStep N p = some s') :
    (s'.queue.claims = s.queue.claims ∨ s.claimsNow p = true) ∧
      (s'.drain.dropCount = s.drain.dropCount ∨ (s.calls p).countsDrop = true) := by
  unfold State.loggerStep at h
  split at h <;> rename_i hpc
  · contradiction
  · contradiction
  · cases h
    exact ⟨Or.inl rfl, Or.inl rfl⟩
  · split at h <;> cases h <;> exact ⟨Or.inl rfl, Or.inl rfl⟩
  · rcases Option.map_eq_some_iff.mp h with ⟨queue, hq, rfl⟩
    exact ⟨Or.inl (callStep_open hq).2, Or.inl rfl⟩
  · have hclaims : ∀ queue, s.queue.producerStep N p = some queue →
        queue.claims = s.queue.claims ∨ s.claimsNow p = true := by
      intro queue hq
      rcases (producerStep_open hq).2.2 with hsame | ⟨e, head, t, hcas, hhead⟩
      · exact Or.inl hsame
      · right
        unfold State.claimsNow
        rw [hpc, hcas]
        simpa using hhead
    split at h
    · cases h
      exact ⟨Or.inl rfl, Or.inl rfl⟩
    · rcases Option.map_eq_some_iff.mp h with ⟨queue, hq, rfl⟩
      exact ⟨hclaims queue hq, Or.inl rfl⟩
    · rcases Option.map_eq_some_iff.mp h with ⟨queue, hq, rfl⟩
      exact ⟨hclaims queue hq, Or.inl rfl⟩
  · cases h
    exact ⟨Or.inl rfl, Or.inl rfl⟩
  · cases h
    refine ⟨Or.inl rfl, Or.inr ?_⟩
    rw [hpc]
    rfl

/-- Every access of a logging call keeps the count. -/
theorem PassedOk.loggerStep {s s' : State P C β} {counted : Nat} (h : PassedOk s counted)
    {p : P} (hstep : s.loggerStep N p = some s') : PassedOk s' counted := by
  have hself : ∀ pc : CallPc β, (s.setCall p pc).calls p = pc := setCall_self s p
  unfold State.loggerStep at hstep
  split at hstep <;> rename_i hpc
  · contradiction
  · contradiction
  · cases hstep
    refine h.move p (fun q hq => openCall_setCall_ne s _ hq) ?_
    unfold State.openCall
    rw [hself, hpc]
    cases s.initialized <;> rfl
  · rename_i e
    split at hstep
    · cases hstep
      refine h.move p (fun q hq => openCall_setCall_ne s _ hq) ?_
      unfold State.openCall
      rw [hself, hpc]
      rfl
    · cases hstep
      refine h.move p (fun q hq => openCall_setCall_ne s (.enqueue e) hq) ?_
      unfold State.openCall
      rw [show State.calls { s.setCall p (.enqueue e) with passed := s.passed + 1 } p =
        .enqueue e from hself _, hpc]
      simp
      omega
  · rename_i e
    rcases Option.map_eq_some_iff.mp hstep with ⟨queue, hq, rfl⟩
    rcases callStep_open hq with ⟨hprod, hclaims⟩
    refine h.move p ?_ ?_
    · intro r hr
      unfold State.openCall
      dsimp only
      rw [setCall_ne s .pushing hr, hprod, LogQueue.setProducer_ne _ _ hr]
    · unfold State.openCall
      dsimp only
      rw [setCall_self, hpc, hprod, LogQueue.setProducer_self, hclaims]
      rfl
  · split at hstep <;> rename_i hprod
    · rename_i ok
      cases hstep
      refine h.move p (fun q hq => openCall_setCall_ne s _ hq) ?_
      unfold State.openCall
      rw [hself, hpc]
      dsimp only
      rw [hprod]
      cases ok <;> rfl
    · rename_i e head t
      rcases Option.map_eq_some_iff.mp hstep with ⟨queue, hq, rfl⟩
      rcases producerStep_open hq with ⟨hother, hopen, hclaims⟩
      have hsame : queue.claims = s.queue.claims := by
        refine hclaims.resolve_right ?_
        rintro ⟨e', head', t', hcas, -⟩
        rw [hprod] at hcas
        contradiction
      refine h.move p ?_ ?_
      · intro r hr
        unfold State.openCall
        dsimp only
        rw [setCall_ne s (.pushed e) hr, hother r hr]
      · unfold State.openCall
        dsimp only
        rw [setCall_self, hpc, hsame]
        dsimp only
        rw [hprod]
        rfl
    · rcases Option.map_eq_some_iff.mp hstep with ⟨queue, hq, rfl⟩
      rcases producerStep_open hq with ⟨hother, hopen, -⟩
      refine h.move p ?_ ?_
      · intro r hr
        unfold State.openCall
        dsimp only
        rw [hother r hr]
      · unfold State.openCall
        dsimp only
        rw [hpc]
        dsimp only
        omega
  · rename_i e
    cases hstep
    refine h.move p (fun q hq => openCall_setCall_ne s .returned hq) ?_
    unfold State.openCall
    dsimp only
    rw [hself, hpc]
    rfl
  · cases hstep
    refine h.move p (fun q hq => openCall_setCall_ne s .returned hq) ?_
    unfold State.openCall
    dsimp only
    rw [hself, hpc]
    change s.passed + (s.queue.claims.length + s.drain.dropCount + 1) =
      s.passed + (s.queue.claims.length + (s.drain.dropCount + 1) + 0)
    omega

end Orderly

/-! ## The whole machine -/

section Shutdown

variable {P C β : Type} [LogByte β]

/-- The number of entries that were flushed before the session. -/
def Found.before (found : Found P β) : Nat :=
  found.queue.popped.length

/-- What was claimed and counted before the session. -/
def Found.counted (found : Found P β) : Nat :=
  found.queue.claims.length + found.dropCount

/-- What the threads keep true up to the end of `Terminate()`. -/
structure ShutdownOk (found : Found P β) (s : State P C β) : Prop where
  passed : PassedOk s (found.counted + s.drain.events.countP Event.counted)
  later : found.before ≤ s.flushed.length
  accounted : Accounted found.before s.drain (s.flushed.drop found.before)
  logger : s.terminator.isReturned = false → s.drain.logger.isSome = true
  initialized : s.terminator.atStart = true → s.initialized = true
  reported : s.terminator.loadedDrops = true → s.reported = some s.drain.dropCount
  exited : s.terminator.drained = true → s.poller = .exited
  drained : s.terminator.drained = true → s.queue.claims.length = s.flushed.length
  empty : s.terminator.flushedCont = true → s.drain.contBuf = []

variable {found : Found P β}

/-- The drop counter is no part of what was handed over. -/
theorem Accounted.setDrops {n : Nat} {d : Drain (β × Origin)} {flushed : List (Entry β)}
    (h : Accounted n d flushed) (drops : Nat) :
    Accounted n { d with dropCount := drops } flushed where
  room := h.room
  entries := h.entries
  lines := h.lines
  text := h.text

/-- A step of a logging thread. -/
theorem ShutdownOk.of_logger {s s' : State P C β} (h : ShutdownOk found s)
    (hf : LoggerFrame s s')
    (hpassed : PassedOk s' (found.counted + s.drain.events.countP Event.counted))
    (hclaims : s.terminator.drained = true → s'.queue.claims = s.queue.claims)
    (hdrops : s.terminator.loadedDrops = true → s'.drain.dropCount = s.drain.dropCount) :
    ShutdownOk found s' := by
  rcases hf.drain with ⟨drops, hdrain⟩
  refine
    { passed := ?_
      later := ?_
      accounted := ?_
      logger := ?_
      initialized := ?_
      reported := ?_
      exited := ?_
      drained := ?_
      empty := ?_ }
  · rw [hdrain]
    exact hpassed
  · rw [hf.flushed]
    exact h.later
  · rw [hdrain, hf.flushed]
    exact h.accounted.setDrops drops
  · rw [hf.terminator, hdrain]
    exact h.logger
  · rw [hf.terminator, hf.initialized]
    exact h.initialized
  · rw [hf.terminator, hf.reported]
    intro hl
    rw [hdrops hl]
    exact h.reported hl
  · rw [hf.terminator, hf.poller]
    exact h.exited
  · rw [hf.terminator, hf.flushed]
    intro hd
    rw [hclaims hd]
    exact h.drained hd
  · rw [hf.terminator, hdrain]
    exact h.empty

/-- A step that moves neither a logging thread nor the drain. -/
theorem ShutdownOk.of_same {s s' : State P C β} (h : ShutdownOk found s)
    (hqueue : s'.queue = s.queue)
    (hdrain : s'.drain = s.drain) (hinit : s'.initialized = s.initialized)
    (hcalls : s'.calls = s.calls) (hpoller : s'.poller = s.poller)
    (hterm : s'.terminator = s.terminator) (hreported : s'.reported = s.reported)
    (hflushed : s'.flushed = s.flushed) (hpassed : s'.passed = s.passed) :
    ShutdownOk found s' where
  passed := by
    unfold PassedOk State.openCall
    rw [hqueue, hdrain, hcalls, hpassed]
    exact h.passed
  later := by
    rw [hflushed]
    exact h.later
  accounted := by
    rw [hdrain, hflushed]
    exact h.accounted
  logger := by
    rw [hterm, hdrain]
    exact h.logger
  initialized := by
    rw [hterm, hinit]
    exact h.initialized
  reported := by
    rw [hterm, hreported, hdrain]
    exact h.reported
  exited := by
    rw [hterm, hpoller]
    exact h.exited
  drained := by
    rw [hterm, hqueue, hflushed]
    exact h.drained
  empty := by
    rw [hterm, hdrain]
    exact h.empty

variable {env : Spdlog} {N bound : Nat}

/-- What the machine keeps of the flushed entries when one more is flushed. -/
structure Flushes (found : Found P β) (s : State P C β) (d : Drain (β × Origin))
    (flushed : List (Entry β)) : Prop where
  later : found.before ≤ flushed.length
  accounted : Accounted found.before d (flushed.drop found.before)
  logger : d.logger.isSome = true
  dropCount : d.dropCount + (found.counted + s.drain.events.countP Event.counted) =
    s.drain.dropCount + (found.counted + d.events.countP Event.counted)
  no_drop : s.terminator.loadedDrops = true → d.dropCount = s.drain.dropCount

theorem ShutdownOk.flush {s : State P C β} (h : ShutdownOk found s)
    (hlogger : s.drain.logger.isSome = true) {e : Entry β} (hok : s.FlushOk env e) :
    Flushes found s (s.drain.flushEntry env (e.tagged s.flushed.length)) (s.flushed ++ [e]) := by
  rcases hok with ⟨huncut, hquiet, hthrow⟩
  rcases flushEntry_emits env hlogger h.accounted.room (e.tagged s.flushed.length) with
    ⟨ps, hemit⟩
  have hnumber : s.flushed.length = found.before + (s.flushed.drop found.before).length := by
    rw [List.length_drop, Nat.add_sub_of_le h.later]
  refine
    { later := ?_
      accounted := ?_
      logger := hemit.logger.trans hlogger
      dropCount := ?_
      no_drop := ?_ }
  · rw [List.length_append]
    exact h.later.trans (Nat.le_add_right _ _)
  · rw [List.drop_append_of_le_length h.later]
    rw [hnumber] at hquiet ⊢
    exact h.accounted.flushEntry hlogger huncut hquiet
  · have hcount := hemit.dropCount
    omega
  · intro hl
    exact flushEntry_no_drop hlogger h.accounted.room hquiet fun hreg => hthrow hreg hl

/-- Nothing is flushed. -/
theorem ShutdownOk.keeps {s : State P C β} (h : ShutdownOk found s)
    (hlogger : s.drain.logger.isSome = true) : Flushes found s s.drain s.flushed where
  later := h.later
  accounted := h.accounted
  logger := hlogger
  dropCount := rfl
  no_drop _ := rfl

/-- A step of the drain thread moves the queue or flushes what it popped, and
nothing of `Terminate()`. -/
theorem pollStep_drain {s s' : State P C β} (h : s.pollStep env N = some s') :
    s'.terminator = s.terminator ∧ s'.initialized = s.initialized ∧
      s'.reported = s.reported ∧
      ((s'.drain = s.drain ∧ s'.flushed = s.flushed) ∨
        ∃ e, s.poller = .drainAll (.flushing e) ∧
          s'.drain = s.drain.flushEntry env (e.tagged s.flushed.length) ∧
          s'.flushed = s.flushed ++ [e]) := by
  unfold State.pollStep at h
  split at h <;> rename_i hpc
  case h_2 pc =>
    rcases drainStep_frame env N s pc with ⟨-, -, hterm, -, hinit, hrep⟩
    have hdrain : ((s.drainStep env N pc).1.drain = s.drain ∧
        (s.drainStep env N pc).1.flushed = s.flushed) ∨
        ∃ e, s.poller = .drainAll (.flushing e) ∧
          (s.drainStep env N pc).1.drain =
            s.drain.flushEntry env (e.tagged s.flushed.length) ∧
          (s.drainStep env N pc).1.flushed = s.flushed ++ [e] := by
      cases pc with
      | popping => exact Or.inl ⟨rfl, rfl⟩
      | flushing e => exact Or.inr ⟨e, hpc, rfl, rfl⟩
    dsimp only at h
    split at h <;> cases h <;> exact ⟨hterm, hinit, hrep, hdrain⟩
  case h_7 => contradiction
  all_goals
    cases h
    exact ⟨rfl, rfl, rfl, Or.inl ⟨rfl, rfl⟩⟩

/-- Before the end of the last drain nothing is known about what it leaves. -/
theorem ShutdownOk.of_not_drained {s s' : State P C β}
    (hdrained : s'.terminator.drained = false)
    (hpassed : PassedOk s' (found.counted + s'.drain.events.countP Event.counted))
    (hflushes : Flushes found s s'.drain s'.flushed)
    (hinitialized : s'.terminator.atStart = true → s'.initialized = true)
    (hreported : s'.terminator.loadedDrops = true → s'.reported = some s'.drain.dropCount) :
    ShutdownOk found s' where
  passed := hpassed
  later := hflushes.later
  accounted := hflushes.accounted
  logger _ := hflushes.logger
  initialized := hinitialized
  reported := hreported
  exited hd := by
    rw [hdrained] at hd
    contradiction
  drained hd := by
    rw [hdrained] at hd
    contradiction
  empty hd := by
    cases ht : s'.terminator <;> rw [ht] at hd hdrained <;> contradiction

/-- The drain thread flushes orderly while `Terminate()` waits for it. -/
theorem ShutdownOk.pollStep {s s' : State P C β} (h : ShutdownOk found s)
    (hok : Orderly env N bound s .poll) (hstep : s.pollStep env N = some s') :
    ShutdownOk found s' := by
  have hframe := pollStep_frame hstep
  have hrunning : s.poller ≠ .exited := by
    intro hexit
    unfold State.pollStep at hstep
    rw [hexit] at hstep
    contradiction
  have hnot : s.terminator.drained = false := by
    cases hd : s.terminator.drained with
    | false => rfl
    | true => exact absurd (h.exited hd) hrunning
  have hlive : s.terminator.isReturned = false := by
    cases ht : s.terminator <;> rw [ht] at hnot <;> first | rfl | contradiction
  have hlogger := h.logger hlive
  rcases pollStep_drain hstep with ⟨hterm, hinit, hrep, hdrain⟩
  have hflushes : Flushes found s s'.drain s'.flushed := by
    rcases hdrain with ⟨hd, hf⟩ | ⟨e, hpc, hd, hf⟩
    · rw [hd, hf]
      exact h.keeps hlogger
    · have hflush : s.FlushOk env e := by
        simp only [Orderly, hpc] at hok
        exact hok
      rw [hd, hf]
      exact h.flush hlogger hflush
  apply ShutdownOk.of_not_drained
  case hdrained => rw [hterm, hnot]
  case hpassed => exact h.passed.of_drain hframe hflushes.dropCount
  case hflushes => exact hflushes
  case hinitialized =>
    rw [hterm, hinit]
    exact h.initialized
  case hreported =>
    rw [hterm, hrep]
    intro hl
    rw [hflushes.no_drop hl]
    exact h.reported hl

/-- `Terminate()` accounts for what it drains and ends its drain on an empty
queue. -/
theorem ShutdownOk.termStep {s s' : State P C β} (h : ShutdownOk found s)
    (hdrainOk : DrainOk s) (hok : Orderly env N bound s .terminate)
    (hstep : s.termStep env N = some s') : ShutdownOk found s' := by
  have hframe := termStep_frame hstep
  have hpassed : s'.drain.dropCount + (found.counted + s.drain.events.countP Event.counted) =
      s.drain.dropCount + (found.counted + s'.drain.events.countP Event.counted) →
      PassedOk s' (found.counted + s'.drain.events.countP Event.counted) :=
    fun hcount => h.passed.of_drain hframe hcount
  have hlive : s.terminator.isReturned = false := by
    unfold State.termStep at hstep
    cases ht : s.terminator with
    | returned =>
        rw [ht] at hstep
        contradiction
    | _ => rfl
  have hlogger := h.logger hlive
  have hkeeps := h.keeps hlogger
  unfold State.termStep at hstep
  split at hstep <;> rename_i hpc
  · -- idle
    cases hstep
    have hinit : s.initialized = true := h.initialized (by rw [hpc]; rfl)
    exact .of_not_drained rfl (hpassed rfl) hkeeps (fun _ => hinit)
      (fun hl => by contradiction)
  · -- checkInitialized
    have hinit : s.initialized = true := h.initialized (by rw [hpc]; rfl)
    rw [if_pos hinit] at hstep
    cases hstep
    exact .of_not_drained rfl (hpassed rfl) hkeeps (fun hd => by contradiction)
      (fun hl => by contradiction)
  · -- loadDrops
    cases hstep
    exact .of_not_drained rfl (hpassed rfl) hkeeps (fun hd => by contradiction)
      (fun _ => rfl)
  · -- storeRun
    cases hstep
    have hreported := h.reported (by rw [hpc]; rfl)
    exact .of_not_drained rfl (hpassed rfl) hkeeps (fun hd => by contradiction)
      (fun _ => hreported)
  · -- join
    split at hstep
    · cases hstep
      have hreported := h.reported (by rw [hpc]; rfl)
      exact .of_not_drained rfl (hpassed rfl) hkeeps (fun hd => by contradiction)
        (fun _ => hreported)
    · contradiction
  · rename_i pc
    have hexit : s.poller = .exited := hdrainOk.exclusive (by rw [hpc]; rfl)
    have hreported : s.reported = some s.drain.dropCount := h.reported (by rw [hpc]; rfl)
    cases pc with
    | popping =>
        dsimp only at hstep
        split at hstep
        · cases hstep
          exact .of_not_drained rfl (hpassed rfl) hkeeps
            (fun hd => by contradiction) (fun _ => hreported)
        · -- the last drain ends: the condition says that the queue is empty
          rename_i hend
          cases hstep
          have hempty : s.queue.popped.length = s.queue.claims.length := by
            simp only [Orderly, hpc] at hok
            exact hok (popFails_of_drained hend)
          have hflushed : s.queue.popped = s.flushed := by
            have := hdrainOk.popped_eq
            rw [hpc, hexit] at this
            simpa [PollPc.inFlight, TermPc.inFlight, DrainPc.inFlight] using this
          exact
            { passed := hpassed rfl
              later := h.later
              accounted := h.accounted
              logger := fun _ => hlogger
              initialized := fun hd => by contradiction
              reported := fun _ => hreported
              exited := fun _ => hexit
              drained := fun _ => by
                rw [hframe.claims, ← hempty, hflushed]
                rfl
              empty := fun hd => by contradiction }
    | flushing e =>
        have hflush : s.FlushOk env e := by
          simp only [Orderly, hpc] at hok
          exact hok
        have hflushes := h.flush hlogger hflush
        have hsame := hflushes.no_drop (by rw [hpc]; rfl)
        cases hstep
        exact .of_not_drained rfl (hpassed hflushes.dropCount) hflushes
          (fun hd => by contradiction) (fun _ => hreported.trans (congrArg some hsame.symm))
  · -- flushCont
    cases hstep
    have hquiet : env.QuietFrom s.drain.lineCalls (takenLines true s.drain.contBuf).length := by
      simp only [Orderly, hpc] at hok
      exact hok
    rcases h.accounted.flushContLines hlogger hquiet with ⟨hacc, hempty, hdrop⟩
    have hemit := (flushContLines_spec env true hlogger h.accounted.room).2
    have hcount := hemit.dropCount
    exact
      { passed := hpassed (by dsimp only; omega)
        later := h.later
        accounted := hacc
        logger := fun _ => hemit.logger.trans hlogger
        initialized := fun hd => by contradiction
        reported := fun _ => (h.reported (by rw [hpc]; rfl)).trans (congrArg some hdrop.symm)
        exited := fun _ => h.exited (by rw [hpc]; rfl)
        drained := fun _ => h.drained (by rw [hpc]; rfl)
        empty := fun _ => hempty }
  · -- storeInitialized
    cases hstep
    exact
      { passed := hpassed rfl
        later := h.later
        accounted := h.accounted
        logger := fun _ => hlogger
        initialized := fun hd => by contradiction
        reported := fun _ => h.reported (by rw [hpc]; rfl)
        exited := fun _ => h.exited (by rw [hpc]; rfl)
        drained := fun _ => h.drained (by rw [hpc]; rfl)
        empty := fun _ => h.empty (by rw [hpc]; rfl) }
  · -- resetLogger
    cases hstep
    exact
      { passed := hpassed rfl
        later := h.later
        accounted :=
          { room := h.accounted.room
            entries := h.accounted.entries
            lines := h.accounted.lines
            text := h.accounted.text }
        logger := fun hd => by contradiction
        initialized := fun hd => by contradiction
        reported := fun _ => h.reported (by rw [hpc]; rfl)
        exited := fun _ => h.exited (by rw [hpc]; rfl)
        drained := fun _ => h.drained (by rw [hpc]; rfl)
        empty := fun _ => h.empty (by rw [hpc]; rfl) }
  · contradiction

variable [DecidableEq P] [DecidableEq C]

/-- In every orderly run the threads keep account of every entry. -/
theorem shutdownOk {pattern : String} {tb : TimeBase} {contLevel : LogLevel} {level : Int}
    {s : State P C β}
    (h : Reach (step env N) (Orderly env N bound) (initial pattern tb contLevel level found) s) :
    ShutdownOk found s := by
  have hknown : ∀ s, Reach (step env N) (Orderly env N bound)
      (initial pattern tb contLevel level found : State P C β) s → DrainOk s :=
    fun _ hs => drainOk hs
  have hnone : (initial pattern tb contLevel level found : State P C β).flushed.drop
      found.before = [] := List.drop_length
  have hstart : ShutdownOk found (initial pattern tb contLevel level found : State P C β) :=
    { passed := ⟨∅, fun p => by simp [State.openCall, initial],
        Nat.zero_add _⟩
      later := Nat.le_refl _
      accounted := by
        rw [hnone]
        exact
          { room := Nat.zero_le _
            entries := rfl
            lines := fun _ hev => by contradiction
            text := fun _ _ ht => by simp at ht }
      logger := fun _ => rfl
      initialized := fun _ => rfl
      reported := fun hl => by contradiction
      exited := fun hd => by contradiction
      drained := fun hd => by contradiction
      empty := fun hd => by contradiction }
  refine Reach.invariant_with hknown hstart ?_ h
  intro s l s' hdrain _ hs hl hstep
  cases l with
  | log p e =>
      rcases logStep_frame hstep with ⟨hf, heq, hidle⟩
      refine hs.of_logger hf ?_ (fun _ => by rw [heq]; rfl) (fun _ => by rw [heq]; rfl)
      rw [heq]
      refine hs.passed.move p (fun q hq => openCall_setCall_ne s _ hq) ?_
      unfold State.openCall
      rw [setCall_self]
      rcases hidle with hpc | hpc <;> rw [hpc] <;> rfl
  | logger p =>
      rcases hl with ⟨-, hclaim, hdrop⟩
      rcases loggerStep_counts hstep with ⟨hclaims, hdrops⟩
      refine hs.of_logger (loggerStep_frame hstep) (hs.passed.loggerStep hstep) ?_ ?_
      · intro hd
        refine hclaims.resolve_right ?_
        intro hnow
        rw [hclaim hnow] at hd
        contradiction
      · intro hd
        refine hdrops.resolve_right ?_
        intro hnow
        rw [hdrop hnow] at hd
        contradiction
  | poll => exact hs.pollStep hl hstep
  | enterSync c =>
      have hf := (enterSync_frame hstep).1
      exact hs.of_same hf.queue hf.drain hf.initialized hf.calls hf.poller hf.terminator
        hf.reported hf.flushed hf.passed
  | sync c =>
      have hf := syncStep_frame hstep
      exact hs.of_same hf.queue hf.drain hf.initialized hf.calls hf.poller hf.terminator
        hf.reported hf.flushed hf.passed
  | terminate => exact hs.termStep hdrain hl hstep
  | setLevel level =>
      cases hstep
      exact hs.of_same rfl rfl rfl rfl rfl rfl rfl rfl rfl

/-! ## The account -/

/-- The number of entries of the session that were handed to a logger. -/
def State.handed [DecidableEq β] (found : Found P β) (s : State P C β) : Nat :=
  handedCount found.before s.drain.events (s.flushed.drop found.before)

/-- Once `Terminate()` and all logging calls have returned, each call that passed
its checks was handed to a logger or is in the increase of `m_dropCount`, and the
report is the number of those not handed over. -/
def ShutdownAccounted [DecidableEq β] (found : Found P β) (s : State P C β) : Prop :=
  s.terminator = .returned → (∀ p, (s.calls p).atRest = true) →
    s.passed + found.dropCount = s.handed found + s.drain.dropCount ∧
      s.reported = some (s.passed - s.handed found)

/-- No drops were counted and no entries were left in the queue before the session. -/
def Found.Clean (found : Found P β) : Prop :=
  found.dropCount = 0 ∧ found.queue.claims.length = found.queue.popped.length

/-- At the end of an orderly run what was left in the queue before the session was
handed over or counted as well, and the report is the whole counter. -/
theorem account_of_orderly [DecidableEq β] {pattern : String} {tb : TimeBase}
    {contLevel : LogLevel} {level : Int} {s : State P C β}
    (h : Reach (step env N) (Orderly env N bound) (initial pattern tb contLevel level found) s)
    (hterm : s.terminator = .returned) (hrest : ∀ p, (s.calls p).atRest = true) :
    s.passed + found.counted = s.handed found + found.before + s.drain.dropCount ∧
      s.reported = some s.drain.dropCount := by
  have hs := shutdownOk h
  have hpassed := hs.passed.at_rest hrest
  have hdrained := hs.drained (by rw [hterm]; rfl)
  have hhanded := hs.accounted.handedCount (hs.empty (by rw [hterm]; rfl))
  have hlater := hs.later
  rw [List.length_drop] at hhanded
  constructor
  · unfold State.handed
    omega
  · exact hs.reported (by rw [hterm]; rfl)

/-- In orderly runs of a session that finds no drops and an empty queue, the shutdown
accounts for every entry, and the flushed entries are the pushed ones. -/
theorem shutdown_accounted_of_orderly [DecidableEq β] (hN : LogQueue.ValidCapacity N)
    (hfound : found.AtRest N (2 ^ 32)) (hclean : found.Clean) {pattern : String} {tb : TimeBase}
    {contLevel : LogLevel} {level : Int} {s : State P C β}
    (h : Reach (step env N) (Orderly env N (2 ^ 32))
      (initial pattern tb contLevel level found) s) :
    ShutdownAccounted found s ∧
      (s.terminator = .returned → s.flushed = s.queue.claims.map LogQueue.Claim.entry) := by
  rcases hclean with ⟨hdrops, hempty⟩
  refine ⟨?_, ?_⟩
  · intro hterm hrest
    rcases account_of_orderly h hterm hrest with ⟨hcount, hreported⟩
    have hsum : s.passed = s.handed found + s.drain.dropCount := by
      unfold Found.counted Found.before at hcount
      omega
    constructor
    · rw [hdrops, Nat.add_zero, hsum]
    · rw [hreported, hsum, Nat.add_sub_cancel_left]
  · intro hterm
    have hdrained := (shutdownOk h).drained (by rw [hterm]; rfl)
    have hflushed := (flushed_eq hN le_rfl (fun _ _ => Orderly.fresh) hfound h).1
    rwa [← hdrained, List.take_length] at hflushed

end Shutdown

section Decide

variable {P C β : Type} [LogByte β]

instance decidableFlushOk (env : Spdlog) (s : State P C β) (e : Entry β) :
    Decidable (s.FlushOk env e) :=
  inferInstanceAs (Decidable (Uncut s.drain.contBuf.length e ∧
    env.QuietFrom s.drain.lineCalls (s.drain.linesFor (e.tagged s.flushed.length)).length ∧
    (e.isCont = false → s.terminator.loadedDrops = true →
      env.entryThrows s.drain.entryCalls = false)))

instance decidableOrderly (env : Spdlog) (N bound : Nat) (s : State P C β) :
    (l : Label P C β) → Decidable (Orderly env N bound s l)
  | .logger p => inferInstanceAs (Decidable (_ ∧ (_ → _) ∧ (_ → _)))
  | .poll =>
      match h : s.poller with
      | .drainAll (.flushing e) => decidable_of_iff (s.FlushOk env e) (by simp only [Orderly, h])
      | .drainAll .popping => isTrue (by simp only [Orderly, h])
      | .testRun => isTrue (by simp only [Orderly, h])
      | .loadSyncSeq => isTrue (by simp only [Orderly, h])
      | .loadSyncAck _ => isTrue (by simp only [Orderly, h])
      | .storeSyncAck _ => isTrue (by simp only [Orderly, h])
      | .rest => isTrue (by simp only [Orderly, h])
      | .exited => isTrue (by simp only [Orderly, h])
  | .terminate =>
      match h : s.terminator with
      | .drainAll (.flushing e) => decidable_of_iff (s.FlushOk env e) (by simp only [Orderly, h])
      | .drainAll .popping =>
          decidable_of_iff
            (popFails N s.queue = true → s.queue.popped.length = s.queue.claims.length)
            (by simp only [Orderly, h])
      | .idle => isTrue (by simp only [Orderly, h])
      | .checkInitialized => isTrue (by simp only [Orderly, h])
      | .loadDrops => isTrue (by simp only [Orderly, h])
      | .storeRun => isTrue (by simp only [Orderly, h])
      | .join => isTrue (by simp only [Orderly, h])
      | .flushCont =>
          decidable_of_iff
            (env.QuietFrom s.drain.lineCalls (takenLines true s.drain.contBuf).length)
            (by simp only [Orderly, h])
      | .storeInitialized => isTrue (by simp only [Orderly, h])
      | .resetLogger => isTrue (by simp only [Orderly, h])
      | .returned => isTrue (by simp only [Orderly, h])
  | .log _ _ => isTrue trivial
  | .enterSync _ => isTrue trivial
  | .sync _ => isTrue trivial
  | .setLevel _ => isTrue trivial

end Decide

/-! ## Two schedules -/

/-- What a schedule is judged by: calls that passed, entries handed over, drops,
the report, and whether all is over. -/
def State.account (s : State Unit Unit UInt8) : Nat × Nat × Nat × Option Nat × Bool × Bool :=
  (s.passed, s.handed .fresh, s.drain.dropCount, s.reported,
    s.terminator.isReturned, (s.calls ()).atRest)

/-- A message in continuation text. -/
def contEntry : Entry UInt8 :=
  { helloEntry with loggerName := [contEntryMarker] }

/-- Two pushes fill the ring, a third call drops; then `Terminate()`. -/
def orderlySchedule : List (Label Unit Unit UInt8) :=
  pushSchedule helloEntry ++ pushSchedule contEntry ++
    .log () helloEntry :: List.replicate 7 (.logger ()) ++
    List.replicate 4 .terminate ++ .poll :: List.replicate 18 .terminate

theorem shutdown_accounted_of_orderly_full :
    ∃ s : State Unit Unit UInt8, s.account = (3, 2, 1, some 1, true, true) ∧
      ShutdownAccounted .fresh s := by
  have hrun : (run (step quietSpdlog 2) (Orderly quietSpdlog 2 (2 ^ 32)) freshLog
      orderlySchedule).map State.account = some (3, 2, 1, some 1, true, true) := by
    decide +kernel
  rcases exists_reach_of_run hrun with ⟨s, hs, haccount⟩
  exact ⟨s, haccount,
    (shutdown_accounted_of_orderly ⟨1, le_rfl, by decide, rfl⟩
      (Found.fresh_atRest 2 (2 ^ 32)) ⟨rfl, rfl⟩ hs).1⟩

/-- A call passes its checks, `Terminate()` runs to its end, and the call pushes
its entry. -/
def latePushSchedule : List (Label Unit Unit UInt8) :=
  .log () helloEntry :: List.replicate 2 (.logger ()) ++ List.replicate 4 .terminate ++
    .poll :: List.replicate 6 .terminate ++ List.replicate 7 (.logger ())

/-- An entry pushed after the last drain is neither handed to a logger nor
counted. -/
theorem push_after_last_drain :
    ¬ ∀ s, Reach (step quietSpdlog 2) (FreshClaims (2 ^ 31)) freshLog s →
      ShutdownAccounted .fresh s := by
  intro haccounted
  have hrun : (run (step quietSpdlog 2) (FreshClaims (2 ^ 31)) freshLog latePushSchedule).map
      State.account = some (1, 0, 0, some 0, true, true) := by
    decide +kernel
  rcases exists_reach_of_run hrun with ⟨s, hs, haccount⟩
  simp only [State.account, Prod.mk.injEq] at haccount
  rcases haccount with ⟨hpassed, hhanded, hdrops, -, hreturned, hrest⟩
  have hsum := (haccounted s hs (TermPc.eq_returned hreturned) fun _ => hrest).1
  omega

end RtLog
end Log
end DtCore
