import DtCore.Log.RtLog.Barrier
import DtCore.Log.RtLog.Shutdown

/-!
# One session after the other

A logger object may be initialized again after `Terminate()`.  The queue, the drop
counter and the counters of `Sync()` stay as the session before left them.

Main results:

- Theorem `found_atRest`: what a session leaves is a start for the next one.
- Theorem `sessions_account`: in a chain of orderly sessions each one hands over or
  counts its entries, and its report is right if and only if the sessions before it
  counted no drop.
-/

namespace DtCore
namespace Log
namespace RtLog

open Foundation

/-- What a session leaves to the next one. -/
def State.found {P C β : Type} (s : State P C β) : Found P β where
  dropCount := s.drain.dropCount
  queue := s.queue
  syncSeq := s.syncSeq
  syncAck := s.syncAck

/-! ## Threads at rest -/

section Rest

variable {P C β : Type}

/-- A logging thread is inside `TryPush` only while it pushes. -/
def PushesRest (s : State P C β) : Prop :=
  ∀ p, s.calls p ≠ .pushing →
    s.queue.producers p = .idle ∨ ∃ ok, s.queue.producers p = .returned ok

theorem PushesRest.of_same {s s' : State P C β} (h : PushesRest s)
    (hproducers : s'.queue.producers = s.queue.producers)
    (hcalls : ∀ p, s.calls p = .pushing → s'.calls p = .pushing) : PushesRest s' := by
  intro p hp
  rw [hproducers]
  exact h p (fun hpushing => hp (hcalls p hpushing))

/-- The last drain ended with a failing `TryPop`, after the drain thread. -/
structure EndOk (s : State P C β) : Prop where
  initialized : s.terminator.atStart = true → s.initialized = true
  exited : s.terminator.drained = true → s.poller = .exited
  consumer : s.terminator.drained = true → s.queue.consumer = .returned none

theorem EndOk.of_same {s s' : State P C β} (h : EndOk s)
    (hinitialized : s'.initialized = s.initialized) (hpoller : s'.poller = s.poller)
    (hterm : s'.terminator = s.terminator)
    (hconsumer : s'.queue.consumer = s.queue.consumer) : EndOk s' where
  initialized := by
    rw [hterm, hinitialized]
    exact h.initialized
  exited := by
    rw [hterm, hpoller]
    exact h.exited
  consumer := by
    rw [hterm, hconsumer]
    exact h.consumer

/-- Before the end of the last drain nothing is known about the queue. -/
theorem EndOk.of_not_drained {s : State P C β} (hdrained : s.terminator.drained = false)
    (hinitialized : s.terminator.atStart = true → s.initialized = true) : EndOk s where
  initialized := hinitialized
  exited hd := by
    rw [hdrained] at hd
    contradiction
  consumer hd := by
    rw [hdrained] at hd
    contradiction

/-- No acknowledge runs ahead of the calls of `Sync()`. -/
structure AckOk (s : State P C β) : Prop where
  ack : s.syncAck ≤ s.syncSeq
  pending : ∀ n, s.poller.pending = some n → n ≤ s.syncSeq

theorem AckOk.of_same {s s' : State P C β} (h : AckOk s) (hack : s'.syncAck = s.syncAck)
    (hseq : s.syncSeq ≤ s'.syncSeq) (hpoller : s'.poller = s.poller) : AckOk s' where
  ack := by
    rw [hack]
    exact h.ack.trans hseq
  pending := by
    rw [hpoller]
    exact fun n hn => (h.pending n hn).trans hseq

/-! ## One step -/

/-- An access of `TryPush` moves its own thread only. -/
theorem producerStep_others [DecidableEq P] {N : Nat} {q q' : LogQueue.State P (Entry β)} {p : P}
    (h : q.producerStep N p = some q') :
    q'.consumer = q.consumer ∧ ∀ r, r ≠ p → q'.producers r = q.producers r := by
  unfold LogQueue.State.producerStep at h
  split at h
  · contradiction
  · contradiction
  · cases h
    exact ⟨rfl, fun r hr => LogQueue.setProducer_ne q _ hr⟩
  · dsimp only at h
    split at h
    · cases h
      exact ⟨rfl, fun r hr => LogQueue.setProducer_ne q _ hr⟩
    · split at h <;> cases h <;> exact ⟨rfl, fun r hr => LogQueue.setProducer_ne q _ hr⟩
  · split at h <;> cases h <;> exact ⟨rfl, fun r hr => LogQueue.setProducer_ne q _ hr⟩
  · cases h
    exact ⟨rfl, fun r hr => LogQueue.setProducer_ne q _ hr⟩
  · cases h
    exact ⟨rfl, fun r hr => LogQueue.setProducer_ne q _ hr⟩

/-- Entering `TryPush` moves its own thread only. -/
theorem callStep_others [DecidableEq P] {q q' : LogQueue.State P (Entry β)} {p : P} {e : Entry β}
    (h : q.callStep p e = some q') :
    q'.consumer = q.consumer ∧ ∀ r, r ≠ p → q'.producers r = q.producers r := by
  unfold LogQueue.State.callStep at h
  split at h
  · cases h
    exact ⟨rfl, fun r hr => LogQueue.setProducer_ne q _ hr⟩
  · cases h
    exact ⟨rfl, fun r hr => LogQueue.setProducer_ne q _ hr⟩
  · contradiction

/-- A call that moves on by itself keeps its thread out of `TryPush`. -/
theorem PushesRest.setCall [DecidableEq P] {s : State P C β} (h : PushesRest s) {p : P}
    (pc : CallPc β)
    (hrest : s.queue.producers p = .idle ∨ ∃ ok, s.queue.producers p = .returned ok) :
    PushesRest (s.setCall p pc) := by
  intro r hr
  by_cases hrp : r = p
  · rw [hrp]
    exact hrest
  · rw [setCall_ne s pc hrp] at hr
    exact h r hr

theorem PushesRest.loggerStep [DecidableEq P] {N : Nat} {s s' : State P C β} {p : P}
    (h : PushesRest s) (hstep : s.loggerStep N p = some s') :
    PushesRest s' ∧ s'.queue.consumer = s.queue.consumer := by
  have hrest : s.calls p ≠ .pushing →
      s.queue.producers p = .idle ∨ ∃ ok, s.queue.producers p = .returned ok := h p
  unfold State.loggerStep at hstep
  split at hstep <;> rename_i hpc <;> rw [hpc] at hrest
  · contradiction
  · contradiction
  · cases hstep
    exact ⟨h.setCall _ (hrest (by simp)), rfl⟩
  · split at hstep <;> cases hstep <;> exact ⟨h.setCall _ (hrest (by simp)), rfl⟩
  · rcases Option.map_eq_some_iff.mp hstep with ⟨queue, hq, rfl⟩
    rcases callStep_others hq with ⟨hconsumer, hothers⟩
    refine ⟨?_, hconsumer⟩
    intro r hr
    by_cases hrp : r = p
    · rw [hrp] at hr
      exact absurd (setCall_self s p _) hr
    · have hcall : s.calls r ≠ .pushing := by
        rw [← setCall_ne s .pushing hrp]
        exact hr
      rw [hothers r hrp]
      exact h r hcall
  · split at hstep
    · rename_i ok hproducer
      cases hstep
      exact ⟨h.setCall _ (Or.inr ⟨ok, hproducer⟩), rfl⟩
    · rename_i e head loadedAt hproducer
      rcases Option.map_eq_some_iff.mp hstep with ⟨queue, hq, rfl⟩
      rcases producerStep_others hq with ⟨hconsumer, hothers⟩
      refine ⟨?_, hconsumer⟩
      intro r hr
      by_cases hrp : r = p
      · right
        rw [LogQueue.State.producerStep, hproducer] at hq
        cases hq
        rw [hrp]
        exact ⟨true, LogQueue.setProducer_self s.queue p _⟩
      · have hcall : s.calls r ≠ .pushing := by
          rw [← setCall_ne s (.pushed e) hrp]
          exact hr
        rw [hothers r hrp]
        exact h r hcall
    · rcases Option.map_eq_some_iff.mp hstep with ⟨queue, hq, rfl⟩
      rcases producerStep_others hq with ⟨hconsumer, hothers⟩
      refine ⟨?_, hconsumer⟩
      intro r hr
      by_cases hrp : r = p
      · rw [hrp] at hr
        exact absurd hpc hr
      · rw [hothers r hrp]
        exact h r hr
  · cases hstep
    exact ⟨h.setCall _ (hrest (by simp)), rfl⟩
  · cases hstep
    exact ⟨h.setCall _ (hrest (by simp)), rfl⟩

variable [LogByte β] {env : Spdlog} {N : Nat}

theorem EndOk.pollStep {s s' : State P C β} (h : EndOk s)
    (hstep : s.pollStep env N = some s') : EndOk s' := by
  rcases pollStep_drain hstep with ⟨hterm, hinit, -, -⟩
  apply EndOk.of_not_drained
  · rw [hterm]
    cases hd : s.terminator.drained with
    | false => rfl
    | true =>
        unfold State.pollStep at hstep
        rw [h.exited hd] at hstep
        contradiction
  · rw [hterm, hinit]
    exact h.initialized

/-- `DrainAll` ends with a `TryPop` that returns nothing. -/
theorem consumer_of_drained {s : State P C β} {pc : DrainPc β}
    (h : (s.drainStep env N pc).2 = none) :
    (s.drainStep env N pc).1.queue.consumer = .returned none := by
  cases pc with
  | popping =>
      unfold State.drainStep at h ⊢
      dsimp only at h ⊢
      split at h
      · assumption
      · contradiction
      · contradiction
  | flushing e => contradiction

theorem EndOk.termStep {s s' : State P C β} (h : EndOk s) (hdrain : DrainOk s)
    (hstep : s.termStep env N = some s') : EndOk s' := by
  unfold State.termStep at hstep
  split at hstep <;> rename_i hpc
  case h_2 =>
    have hinit : s.initialized = true := h.initialized (by rw [hpc]; rfl)
    rw [if_pos hinit] at hstep
    cases hstep
    exact .of_not_drained rfl (fun hd => by contradiction)
  case h_5 =>
    split at hstep
    · cases hstep
      exact .of_not_drained rfl (fun hd => by contradiction)
    · contradiction
  case h_6 pc =>
    have hexit : s.poller = .exited := hdrain.exclusive (by rw [hpc]; rfl)
    have hpoller := (drainStep_frame env N s pc).2.1
    dsimp only at hstep
    split at hstep
    · cases hstep
      exact .of_not_drained rfl (fun hd => by contradiction)
    · rename_i hend
      cases hstep
      exact
        { initialized := fun hd => by contradiction
          exited := fun _ => hpoller.trans hexit
          consumer := fun _ => consumer_of_drained hend }
  case h_10 => contradiction
  case h_1 =>
    cases hstep
    exact .of_not_drained rfl (fun _ => h.initialized (by rw [hpc]; rfl))
  case h_3 =>
    cases hstep
    exact .of_not_drained rfl (fun hd => by contradiction)
  case h_4 =>
    cases hstep
    exact .of_not_drained rfl (fun hd => by contradiction)
  all_goals
    cases hstep
    exact
      { initialized := fun hd => by contradiction
        exited := fun _ => h.exited (by rw [hpc]; rfl)
        consumer := fun _ => h.consumer (by rw [hpc]; rfl) }

theorem AckOk.pollStep {s s' : State P C β} (h : AckOk s)
    (hstep : s.pollStep env N = some s') : AckOk s' := by
  unfold State.pollStep at hstep
  split at hstep <;> rename_i hpc
  case h_2 pc =>
    rcases drainStep_frame env N s pc with ⟨hf, -, -, hack, -, -⟩
    have hle : (s.drainStep env N pc).1.syncAck ≤ (s.drainStep env N pc).1.syncSeq := by
      rw [hack, hf.syncSeq]
      exact h.ack
    dsimp only at hstep
    split at hstep
    · cases hstep
      exact ⟨hle, fun n hn => by contradiction⟩
    · cases hstep
      exact ⟨hle, fun n hn => by contradiction⟩
  case h_3 =>
    cases hstep
    refine ⟨h.ack, ?_⟩
    intro n hn
    cases hn
    exact le_rfl
  case h_4 pending =>
    cases hstep
    refine ⟨h.ack, ?_⟩
    intro n hn
    apply h.pending n
    rw [hpc]
    split at hn
    · exact hn
    · contradiction
  case h_5 pending =>
    cases hstep
    exact ⟨h.pending pending (by rw [hpc]; rfl), fun n hn => by contradiction⟩
  case h_7 => contradiction
  case h_1 =>
    cases hstep
    refine ⟨h.ack, ?_⟩
    cases s.run <;> exact fun n hn => by contradiction
  case h_6 =>
    cases hstep
    exact ⟨h.ack, fun n hn => by contradiction⟩

omit [LogByte β] in
/-- A call of `Sync()` only takes the next number. -/
theorem AckOk.syncStep [DecidableEq C] {s s' : State P C β} (h : AckOk s) {c : C}
    (hstep : s.syncStep c = some s') : AckOk s' := by
  have hpoller := (syncStep_frame hstep).poller
  unfold State.syncStep at hstep
  split at hstep
  case h_1 => contradiction
  case h_2 => contradiction
  all_goals
    cases hstep
    exact h.of_same rfl (by first | exact le_rfl | exact Nat.le_succ _) hpoller

/-! ## The drop counter -/

omit [LogByte β] in
theorem dropCount_logEntry (env : Spdlog) (d : Drain β) (e : Entry β) :
    d.dropCount ≤ (d.logEntry env e).dropCount := by
  unfold Drain.logEntry
  dsimp only
  split
  · exact le_rfl
  · split
    · exact Nat.le_succ _
    · exact le_rfl

theorem dropCount_flushContLines (env : Spdlog) (force : Bool) (d : Drain β) :
    d.dropCount ≤ (d.flushContLines env force).dropCount := by
  unfold Drain.flushContLines
  split
  · exact le_rfl
  · rcases (flushLoop_spec env force d d.contBuf).2.events with ⟨new, -, -, hdrop, -⟩
    exact Nat.le.intro hdrop.symm

theorem dropCount_flushEntry (env : Spdlog) (d : Drain β) (e : Entry β) :
    d.dropCount ≤ (d.flushEntry env e).dropCount := by
  unfold Drain.flushEntry
  split
  · exact dropCount_flushContLines env false
      { d with
        contBuf := d.contBuf ++ e.msg.take (contBufSize - d.contBuf.length)
        contLevel := e.level }
  · split
    · exact (dropCount_flushContLines env true d).trans (dropCount_logEntry env _ e)
    · exact dropCount_logEntry env d e

theorem dropCount_drainStep (env : Spdlog) (N : Nat) (s : State P C β) (pc : DrainPc β) :
    s.drain.dropCount ≤ (s.drainStep env N pc).1.drain.dropCount := by
  cases pc with
  | popping => exact le_rfl
  | flushing e => exact dropCount_flushEntry env s.drain _

/-! ## Whole sessions -/

variable [DecidableEq P] [DecidableEq C] {bound : Nat}

/-- What every step keeps of a session. -/
structure RestOk (s : State P C β) : Prop where
  pushes : PushesRest s
  ends : EndOk s
  acks : AckOk s

theorem RestOk.step {s s' : State P C β} {l : Label P C β} (h : RestOk s) (hdrain : DrainOk s)
    (hstep : step env N s l = some s') : RestOk s' := by
  cases l with
  | log p e =>
      rcases logStep_frame hstep with ⟨-, rfl, hidle⟩
      have hrest : s.calls p ≠ .pushing := by
        rcases hidle with hpc | hpc <;> rw [hpc] <;> simp
      exact
        { pushes := h.pushes.setCall _ (h.pushes p hrest)
          ends := h.ends.of_same rfl rfl rfl rfl
          acks := h.acks.of_same rfl le_rfl rfl }
  | logger p =>
      have hf := loggerStep_frame hstep
      rcases h.pushes.loggerStep hstep with ⟨hpushes, hconsumer⟩
      exact
        { pushes := hpushes
          ends := h.ends.of_same hf.initialized hf.poller hf.terminator hconsumer
          acks := h.acks.of_same hf.syncAck hf.syncSeq.ge hf.poller }
  | poll =>
      have hf := pollStep_frame hstep
      exact
        { pushes := h.pushes.of_same hf.producers (fun p hp => by rw [hf.calls, hp])
          ends := h.ends.pollStep hstep
          acks := h.acks.pollStep hstep }
  | enterSync c =>
      have hf := (enterSync_frame hstep).1
      have hs' := (enterSync_frame hstep).2
      exact
        { pushes := h.pushes.of_same (by rw [hf.queue]) (fun p hp => by rw [hf.calls, hp])
          ends := h.ends.of_same hf.initialized hf.poller hf.terminator (by rw [hf.queue])
          acks := h.acks.of_same (by rw [hs']; rfl) (by rw [hs']; rfl) hf.poller }
  | sync c =>
      have hf := syncStep_frame hstep
      exact
        { pushes := h.pushes.of_same (by rw [hf.queue]) (fun p hp => by rw [hf.calls, hp])
          ends := h.ends.of_same hf.initialized hf.poller hf.terminator (by rw [hf.queue])
          acks := h.acks.syncStep hstep }
  | terminate =>
      have hf := termStep_frame hstep
      rcases termStep_poller hstep with ⟨hpoller, hack, -⟩
      exact
        { pushes := h.pushes.of_same hf.producers (fun p hp => by rw [hf.calls, hp])
          ends := h.ends.termStep hdrain hstep
          acks := h.acks.of_same hack hf.syncSeq.ge hpoller }
  | setLevel level =>
      cases hstep
      exact
        { pushes := h.pushes.of_same rfl (fun p hp => hp)
          ends := h.ends.of_same rfl rfl rfl rfl
          acks := h.acks.of_same rfl le_rfl rfl }

variable {found : Found P β} {pattern : String} {tb : TimeBase} {contLevel : LogLevel}
  {level : Int}

theorem dropCount_step {s s' : State P C β} {l : Label P C β}
    (hstep : step env N s l = some s') : s.drain.dropCount ≤ s'.drain.dropCount := by
  cases l with
  | log p e =>
      rw [(logStep_frame hstep).2.1]
      exact le_rfl
  | logger p =>
      change s.loggerStep N p = some s' at hstep
      unfold State.loggerStep at hstep
      split at hstep
      case h_7 =>
        cases hstep
        exact le_rfl
      case h_8 =>
        cases hstep
        exact Nat.le_succ _
      · contradiction
      · contradiction
      · cases hstep
        exact le_rfl
      · split at hstep <;> cases hstep <;> exact le_rfl
      · rcases Option.map_eq_some_iff.mp hstep with ⟨queue, -, rfl⟩
        exact le_rfl
      · split at hstep
        · cases hstep
          exact le_rfl
        · rcases Option.map_eq_some_iff.mp hstep with ⟨queue, -, rfl⟩
          exact le_rfl
        · rcases Option.map_eq_some_iff.mp hstep with ⟨queue, -, rfl⟩
          exact le_rfl
  | poll =>
      rcases (pollStep_drain hstep).2.2.2 with ⟨hdrain, -⟩ | ⟨e, -, hdrain, -⟩
      · rw [hdrain]
      · rw [hdrain]
        exact dropCount_flushEntry env s.drain _
  | enterSync c => rw [(enterSync_frame hstep).1.drain]
  | sync c => rw [(syncStep_frame hstep).drain]
  | terminate =>
      change s.termStep env N = some s' at hstep
      unfold State.termStep at hstep
      split at hstep
      case h_5 =>
        split at hstep
        · cases hstep
          exact le_rfl
        · contradiction
      case h_6 pc _ =>
        have hle := dropCount_drainStep env N s pc
        dsimp only at hstep
        split at hstep <;> cases hstep <;> exact hle
      case h_7 =>
        cases hstep
        exact dropCount_flushContLines env true s.drain
      case h_10 => contradiction
      all_goals
        cases hstep
        exact le_rfl
  | setLevel level =>
      cases hstep
      exact le_rfl

theorem restOk {ok : State P C β → Label P C β → Prop} (hfound : found.AtRest N bound)
    {s : State P C β}
    (h : Reach (step env N) ok (initial pattern tb contLevel level found) s) : RestOk s := by
  have hstart : RestOk (initial pattern tb contLevel level found : State P C β) :=
    { pushes := fun p _ => hfound.producers p
      ends := .of_not_drained rfl (fun _ => rfl)
      acks := ⟨hfound.sync, fun n hn => by contradiction⟩ }
  refine Reach.invariant_with (fun _ hs => drainOk hs) hstart ?_ h
  intro s l s' hdrain _ hs _ hstep
  exact hs.step hdrain hstep

/-- Once `Terminate()` and all logging calls have returned, the logger is a start for
the next session. -/
theorem found_atRest {ok : State P C β → Label P C β → Prop}
    (hok : ∀ s l, ok s l → FreshClaims bound s l) (hfound : found.AtRest N bound)
    {s : State P C β}
    (h : Reach (step env N) ok (initial pattern tb contLevel level found) s)
    (hterm : s.terminator = .returned) (hrest : ∀ p, (s.calls p).atRest = true) :
    s.found.AtRest N bound := by
  have hs := restOk hfound h
  exact
    { reachable := queue_reachable hok hfound h
      producers := fun p => hs.pushes p (fun hp => by
        have hrest := hrest p
        rw [hp] at hrest
        contradiction)
      consumer := Or.inr (hs.ends.consumer (by rw [hterm]; rfl))
      sync := hs.acks.ack }

end Rest

/-! ## Chains of sessions -/

section Chain

variable {P C β : Type} [LogByte β] [DecidableEq P] [DecidableEq C] {N bound : Nat}

/-- Orderly sessions of one logger, each with what it found and the state in which it
ended: every call has returned, and the next session finds what it left. -/
inductive Sessions (N bound : Nat) : Found P β → List (Found P β × State P C β) → Prop where
  | nil (found : Found P β) : Sessions N bound found []
  | cons {found : Found P β} {env : Spdlog} {pattern : String} {tb : TimeBase}
      {contLevel : LogLevel} {level : Int} {s : State P C β}
      {later : List (Found P β × State P C β)} :
      Reach (step env N) (Orderly env N bound) (initial pattern tb contLevel level found) s →
      s.terminator = .returned → (∀ p, (s.calls p).atRest = true) →
      Sessions N bound s.found later → Sessions N bound found ((found, s) :: later)

/-- The drop counter only grows. -/
theorem dropCount_mono {env : Spdlog} {found : Found P β} {ok : State P C β → Label P C β → Prop}
    {pattern : String} {tb : TimeBase} {contLevel : LogLevel} {level : Int} {s : State P C β}
    (h : Reach (step env N) ok (initial pattern tb contLevel level found) s) :
    found.dropCount ≤ s.drain.dropCount := by
  induction h with
  | start => exact le_rfl
  | step _ _ hstep ih => exact ih.trans (dropCount_step hstep)

/-- An orderly session leaves an empty queue. -/
theorem popped_of_orderly {env : Spdlog} {found : Found P β} {pattern : String}
    {tb : TimeBase} {contLevel : LogLevel} {level : Int} {s : State P C β}
    (h : Reach (step env N) (Orderly env N bound) (initial pattern tb contLevel level found) s)
    (hterm : s.terminator = .returned) : s.queue.claims.length = s.queue.popped.length := by
  have hs := shutdownOk h
  have hdrained := hs.drained (by rw [hterm]; rfl)
  have hpopped := (drainOk h).popped_eq
  rw [hs.exited (by rw [hterm]; rfl), hterm] at hpopped
  rw [hpopped, hdrained]
  simp [PollPc.inFlight, TermPc.inFlight]

/-- In a chain of orderly sessions from an empty queue, every session hands over or
counts its entries, and it reports all drops of the logger: the account is right if and
only if no earlier session counted one. -/
theorem sessions_account [DecidableEq β] {found : Found P β}
    {sessions : List (Found P β × State P C β)} (h : Sessions N bound found sessions)
    (hempty : found.queue.claims.length = found.queue.popped.length) :
    ∀ x ∈ sessions,
      x.2.passed + x.1.dropCount = x.2.handed x.1 + x.2.drain.dropCount ∧
        x.2.reported = some x.2.drain.dropCount ∧
          (ShutdownAccounted x.1 x.2 ↔ x.1.dropCount = 0) := by
  induction h with
  | nil => exact fun _ hx => absurd hx List.not_mem_nil
  | @cons found env pattern tb contLevel level s later hreach hterm hrest _ ih =>
      rcases account_of_orderly hreach hterm hrest with ⟨hcount, hreported⟩
      have hgrown := dropCount_mono hreach
      have hsum : s.passed + found.dropCount = s.handed found + s.drain.dropCount := by
        unfold Found.counted Found.before at hcount
        omega
      intro x hx
      rcases List.mem_cons.mp hx with rfl | hx
      · refine ⟨hsum, hreported, ?_⟩
        constructor
        · intro haccounted
          have hright := (haccounted hterm hrest).2
          rw [hreported, Option.some.injEq] at hright
          dsimp only at hright ⊢
          omega
        · intro hzero _ _
          dsimp only at hzero ⊢
          refine ⟨hsum, ?_⟩
          rw [hreported, Option.some.injEq]
          omega
      · exact ih (popped_of_orderly hreach hterm) x hx

end Chain

/-! ## Two sessions -/

/-- A session that pushes one entry, which `Terminate()` drains. -/
def shortSchedule : List (Label Unit Unit UInt8) :=
  pushSchedule helloEntry ++ List.replicate 4 .terminate ++ .poll :: List.replicate 12 .terminate

/-- The first session drops an entry and reports it.  The second one drops none and
reports the same drop once more. -/
theorem drop_reported_twice :
    ∃ s t : State Unit Unit UInt8, Sessions 2 (2 ^ 32) .fresh [(.fresh, s), (s.found, t)] ∧
      s.reported = some 1 ∧ t.reported = some 1 ∧ t.passed = 1 ∧ t.handed s.found = 1 := by
  have hrun : ((run (step quietSpdlog 2) (Orderly quietSpdlog 2 (2 ^ 32)) freshLog
      orderlySchedule).bind fun s =>
        (run (step quietSpdlog 2) (Orderly quietSpdlog 2 (2 ^ 32))
          (initial "%v" { wall_ns := 0, monotonic_ns := 0 } .info 0 s.found) shortSchedule).map
        fun t => ((s.reported, s.terminator.isReturned, (s.calls ()).atRest),
          (t.reported, t.terminator.isReturned, (t.calls ()).atRest), t.passed,
          t.handed s.found)) =
      some ((some 1, true, true), (some 1, true, true), 1, 1) := by
    decide +kernel
  rcases Option.bind_eq_some_iff.mp hrun with ⟨s, hs, ht⟩
  rcases Option.map_eq_some_iff.mp ht with ⟨t, ht, hends⟩
  simp only [Prod.mk.injEq] at hends
  rcases hends with ⟨⟨hsreported, hsterm, hsrest⟩, ⟨htreported, htterm, htrest⟩, hpassed, hhanded⟩
  refine ⟨s, t, ?_, hsreported, htreported, hpassed, hhanded⟩
  refine .cons (reach_of_run Reach.start hs) (TermPc.eq_returned hsterm) (fun _ => hsrest) ?_
  exact .cons (reach_of_run Reach.start ht) (TermPc.eq_returned htterm) (fun _ => htrest) (.nil _)

end RtLog
end Log
end DtCore
