import DtCore.DAQ.Subscriber.Reconnect

/-!
# `Stop` returns

`Reconnect` and the destructor wait in `Stop` for the receive thread, which may be in
the middle of a read, of an event or of its last calls.  `Stop` cancels the call before
it waits, but it calls `Finish` only for a call that has started.  A call whose start
completes later goes on with a read: on a queue that is not shut down yet gRPC may still
deliver messages, on one that is the read must not be started.

gRPC completes every operation that was issued, also after the queue was shut down.

Main definitions:

- `Ends`: what `Stop` relies on.
- `State.rank`: how many moves are left inside `Stop`.

Main results:

- Theorem `rank_step`: every move uses up rank, and a message adds one.
- Theorem `stop_returns`: `Stop` ends after a number of moves that the messages still
  delivered bound, and until then somebody can move, as long as nothing was started on a
  queue that was shut down.  A call that had started in time never does so.
-/

namespace DtCore
namespace DAQ
namespace Subscriber
namespace Reconnect

open Foundation

variable {T : Type} {Value : T → Type} {Sub : T}

section Moves

variable [DecidableEq T] [∀ t, Inhabited (Value t)]

/-! ## The end of a session -/

/-- What `Stop` relies on: a thread that has returned left its loop, and the queue is
shut down right before the join. -/
structure Ends (s : State Value Sub) : Prop where
  control : ∀ id, Control (s.session id)
  exited : ∀ id, s.threads id = .returned → (s.session id).receiver = .exited
  shutdown : ∀ id, (s.session id).ShutsDown

omit [DecidableEq T] [∀ t, Inhabited (Value t)] in
theorem ends_initial : Ends (State.initial : State Value Sub) where
  control _ := control_initial
  exited := by simp [State.initial]
  shutdown := by simp [State.initial, Session.initial, Session.ShutsDown]

omit [DecidableEq T] [∀ t, Inhabited (Value t)] in
theorem Ends.setSession {s : State Value Sub} (h : Ends s) (id : Nat) {t : Session Value Sub}
    (hcontrol : Control t) (hexited : s.threads id = .returned → t.receiver = .exited)
    (hshutdown : t.ShutsDown) : Ends (s.setSession id t) := by
  constructor
  case control =>
    intro id'
    by_cases heq : id' = id
    · simpa [heq] using hcontrol
    · simpa [heq] using h.control id'
  case exited =>
    intro id' hid'
    by_cases heq : id' = id
    · subst heq
      simpa using hexited hid'
    · simpa [heq] using h.exited id' hid'
  case shutdown =>
    intro id'
    by_cases heq : id' = id
    · simpa [heq] using hshutdown
    · simpa [heq] using h.shutdown id'

omit [DecidableEq T] [∀ t, Inhabited (Value t)] in
theorem stopStep_receiver {t u : Session Value Sub} (ht : t.stopStep = some u) :
    u.receiver = t.receiver := by
  unfold Session.stopStep at ht
  split at ht
  · simp only [Option.some.injEq] at ht
    subst ht
    unfold Session.tryCancelCallAndShutdown
    split <;> rfl
  · simp only [Option.some.injEq] at ht
    subst ht
    rfl
  · split at ht <;> simp only [Option.some.injEq, reduceCtorEq] at ht
    subst ht
    rfl
  · contradiction

theorem nextReturns_keeps {t u : Session Value Sub} {e : Event Value} (hcontrol : Control t)
    (hdown : t.ShutsDown) (ht : nextReturns t e = some u) : Control u ∧ u.ShutsDown := by
  cases e with
  | message msg => exact ⟨hcontrol.receive ht, hdown.receive ht⟩
  | complete c => exact ⟨hcontrol.complete ht, hdown.step (l := .complete c) ht⟩
  | drained => exact ⟨hcontrol.step (l := .drained) ht, hdown.step (l := .drained) ht⟩

omit [DecidableEq T] [∀ t, Inhabited (Value t)] in
theorem Ends.setThread {s : State Value Sub} (h : Ends s) (id : Nat) (pc : ThreadPc)
    (hpc : pc = .returned → (s.session id).receiver = .exited) : Ends (s.setThread id pc) := by
  constructor
  case control => exact h.control
  case exited =>
    intro id' hid'
    by_cases heq : id' = id
    · subst heq
      exact hpc (by simpa using hid')
    · exact h.exited id' (by simpa [heq] using hid')
  case shutdown => exact h.shutdown

theorem Ends.step {s s' : State Value Sub} {l : Label Value} (hlife : Life s) (h : Ends s)
    (hs : step s l = some s') : Ends s' := by
  cases step_moves hs with
  | register handler =>
      constructor
      case control =>
        intro id
        have hid := h.control id
        exact ⟨hid.start, hid.event, hid.read, hid.finish⟩
      case exited => exact h.exited
      case shutdown => exact h.shutdown
  | enter again hidle => exact ⟨h.control, h.exited, h.shutdown⟩
  | startCall hpc =>
      have hfirst : Control (Session.initial : Session Value Sub) := control_initial
      have hfresh : Control { (Session.initial : Session Value Sub) with handler := s.handler } :=
        ⟨hfirst.start, hfirst.event, hfirst.read, hfirst.finish⟩
      have hafter := h.setSession s.made hfresh
        (fun hreturned => by simp [hlife.later s.made (Nat.le_refl _)] at hreturned)
        (by simp [Session.initial, Session.ShutsDown])
      exact ⟨hafter.control, hafter.exited, hafter.shutdown⟩
  | storeRunning hpc => exact ⟨h.control, h.exited, h.shutdown⟩
  | createThread hpc =>
      have hafter := h.setThread (s.made - 1) .runs (by simp)
      exact ⟨hafter.control, hafter.exited, hafter.shutdown⟩
  | leave again hpc hstopped => exact ⟨h.control, h.exited, h.shutdown⟩
  | stop again t hpc hmay ht =>
      have hcontrol : Control t := (h.control _).step (l := .stop) ht
      have hdown : t.ShutsDown := (h.shutdown _).step (l := .stop) ht
      apply h.setSession _ hcontrol _ hdown
      intro hreturned
      rw [stopStep_receiver ht]
      exact h.exited _ hreturned
  | returned id hruns hexited =>
      have hafter := h.setThread id .returned (fun _ => hexited)
      exact ⟨hafter.control, hafter.exited, hafter.shutdown⟩
  | receiver id t hruns ht =>
      have hafter := h.setSession id ((h.control id).step ht)
        (fun hreturned => by simp [hruns] at hreturned) ((h.shutdown id).step ht)
      exact ⟨hafter.control, hafter.exited, hafter.shutdown⟩
  | next id e t hruns ht =>
      rcases nextReturns_keeps (h.control id) (h.shutdown id) ht with ⟨hcontrol, hdown⟩
      exact h.setSession _ hcontrol (fun hreturned => by simp [hruns] at hreturned) hdown

theorem ends_reachable {s : State Value Sub} (h : Reach step Always State.initial s) : Ends s := by
  apply h.invariant_with (fun t ht => life_reachable ht)
  · exact ends_initial
  · intro t l t' hlife _ ht _ hs
    exact ht.step hlife hs

/-! ## How many moves are left -/

/-- The moves that the loop of a receive thread still has when no further message is
delivered: a call that has just started costs one more read, and a call that is
cancelled one more event. -/
def rankOf : ReceivePc → RpcCallState → Nat
  | .exited, _ => 1
  | .cancel, _ => 2
  | .event, .waitStart => 5
  | .event, .waitReadDone => 4
  | .event, _ => 3
  | .next, .waitStart => 6
  | .next, .waitReadDone => 3
  | .next, _ => 4

/-- The moves that the thread of a session still has. -/
def loopRank (t : Session Value Sub) : Nat :=
  rankOf t.receiver t.callState

/-- The moves that `Stop` still has; its first one may cost the thread an event. -/
def stopRank : StopPc → Nat
  | .idle => 5
  | .shutdown => 3
  | .join => 2
  | .stopped => 1

/-- The moves that are left inside `Stop`. -/
def State.rank (s : State Value Sub) : Nat :=
  match s.user with
  | .stopping _ =>
      stopRank (s.session (s.made - 1)).stopper +
        if s.threads (s.made - 1) = .runs then loopRank (s.session (s.made - 1)) else 0
  | _ => 0

omit [DecidableEq T] [∀ t, Inhabited (Value t)] in
theorem loopRank_le (t : Session Value Sub) : loopRank t ≤ 6 := by
  unfold loopRank
  cases t.receiver <;> cases t.callState <;> decide

omit [DecidableEq T] [∀ t, Inhabited (Value t)] in
theorem rank_le (s : State Value Sub) : s.rank ≤ 11 := by
  have hloop := loopRank_le (s.session (s.made - 1))
  have hstop : stopRank (s.session (s.made - 1)).stopper ≤ 5 := by
    cases (s.session (s.made - 1)).stopper <;> decide
  unfold State.rank
  split
  · split <;> omega
  · exact Nat.zero_le _

omit [DecidableEq T] [∀ t, Inhabited (Value t)] in
theorem tryCancelCallAndShutdown_rank (t : Session Value Sub) :
    loopRank t.tryCancelCallAndShutdown ≤ loopRank t + 1 := by
  unfold Session.tryCancelCallAndShutdown Session.startFinish loopRank
  split
  · cases t.receiver <;> cases t.callState <;> simp [rankOf]
  · exact Nat.le_succ _

omit [DecidableEq T] [∀ t, Inhabited (Value t)] in
/-- `Stop` moves on, also where its first move costs the thread an event. -/
theorem stopStep_rank {t u : Session Value Sub} (ht : t.stopStep = some u) :
    stopRank u.stopper + loopRank u < stopRank t.stopper + loopRank t ∧
      stopRank u.stopper < stopRank t.stopper := by
  unfold Session.stopStep at ht
  split at ht <;> rename_i hpc
  · have hcancel := tryCancelCallAndShutdown_rank t
    simp only [Option.some.injEq] at ht
    subst ht
    have hsame : loopRank { t.tryCancelCallAndShutdown with stopper := StopPc.shutdown } =
        loopRank t.tryCancelCallAndShutdown := rfl
    rw [hsame, hpc]
    simp only [stopRank]
    omega
  · simp only [Option.some.injEq] at ht
    subst ht
    have hsame : loopRank { t with cqShutdown := true, stopper := StopPc.join } = loopRank t := rfl
    rw [hsame, hpc]
    simp only [stopRank]
    omega
  · split at ht <;> simp only [Option.some.injEq, reduceCtorEq] at ht
    subst ht
    have hsame : loopRank { t with stopper := StopPc.stopped } = loopRank t := rfl
    rw [hsame, hpc]
    simp only [stopRank]
    omega
  · contradiction

/-- What an event makes of the state of the call. -/
theorem onCompletionEvent_callState (t : Session Value Sub) :
    (t.onCompletionEvent.1 = true → t.onCompletionEvent.2.callState = .waitReadDone ∧
      (t.callState = .waitStart ∨ t.callState = .waitReadDone)) := by
  intro htrue
  unfold Session.onCompletionEvent Session.handle at *
  split at htrue <;> (try split at htrue) <;> simp_all

/-- An event or the last call of the loop is one move less. -/
theorem receiver_rank {t u : Session Value Sub} (ht : t.step .receiver = some u) :
    loopRank u < loopRank t := by
  simp only [Session.step, Session.receiverStep] at ht
  split at ht <;> rename_i hpc
  · -- the event
    have hcall := onCompletionEvent_callState t
    unfold loopRank
    rw [hpc]
    split at ht <;> rename_i heq <;> simp only [Option.some.injEq] at ht <;> subst ht <;>
      rw [heq] at hcall
    · rcases hcall rfl with ⟨hafter, hbefore | hbefore⟩ <;> simp only at hafter <;>
        simp [rankOf, hafter, hbefore]
    · cases t.callState <;> simp [rankOf]
  · simp only [Option.some.injEq] at ht
    subst ht
    simp [loopRank, rankOf, hpc]
  · contradiction

omit [DecidableEq T] [∀ t, Inhabited (Value t)] in
/-- A message may be followed by one more read. -/
theorem receive_rank {t u : Session Value Sub} {msg : Any Value} (hcontrol : Control t)
    (ht : t.receive msg = some u) : loopRank u ≤ loopRank t + 1 := by
  unfold Session.receive at ht
  split at ht <;> simp only [Option.some.injEq, reduceCtorEq] at ht
  rename_i hnext
  subst ht
  have hstate := hcontrol.read hnext.2
  unfold loopRank
  rw [hnext.1]
  cases hcall : t.callState <;> simp_all [rankOf]

/-- Any other completion is one move less. -/
theorem completion_rank {t u : Session Value Sub} {e : Event Value} (hcontrol : Control t)
    (hquiet : ∀ msg, e ≠ .message msg) (ht : nextReturns t e = some u) :
    loopRank u < loopRank t := by
  unfold loopRank
  cases e with
  | message msg => exact absurd rfl (hquiet msg)
  | complete c =>
      simp only [nextReturns, Session.step, Session.complete] at ht
      split at ht <;> (try split at ht) <;>
        simp only [Option.some.injEq, reduceCtorEq] at ht <;> rename_i hnext hpend <;> subst ht
      · have hstart := hcontrol.start hpend
        simp only [hnext, hstart]
        split <;> decide
      · simp only [hnext]
        cases t.callState <;> decide
      · rcases hcontrol.finish hpend with hend | hend <;> simp [hnext, hend, rankOf]
  | drained =>
      simp only [nextReturns, Session.step] at ht
      split at ht <;> simp only [Option.some.injEq, reduceCtorEq] at ht
      rename_i hnext
      subst ht
      simp only [hnext.1]
      cases t.callState <;> decide

/-! ## `Stop` returns -/

/-- gRPC delivers a message. -/
def Label.isMessage : Label Value → Bool
  | .next _ (.message _) => true
  | _ => false

/-- The owner, a receive thread or gRPC moves, and no message is delivered. -/
def Label.isMove : Label Value → Bool
  | .user => true
  | .thread _ => true
  | .next _ (.message _) => false
  | .next _ _ => true
  | _ => false

omit [DecidableEq T] [∀ t, Inhabited (Value t)] in
theorem rank_stopping {s : State Value Sub} {again : Bool} (h : s.user = .stopping again) :
    s.rank = stopRank (s.session (s.made - 1)).stopper +
      if s.threads (s.made - 1) = .runs then loopRank (s.session (s.made - 1)) else 0 := by
  simp [State.rank, h]

theorem rank_step {s s' : State Value Sub} {l : Label Value} {again : Bool} (hlife : Life s)
    (hends : Ends s) (huser : s.user = .stopping again) (hs : step s l = some s') :
    s'.rank + l.isMove.toNat ≤ s.rank + l.isMessage.toNat := by
  rw [rank_stopping huser]
  cases step_moves hs with
  | register handler =>
      rw [rank_stopping (show (s.regMessageHandler handler).user = .stopping again from huser)]
      exact Nat.le_refl _
  | enter again' hidle => simp [huser] at hidle
  | startCall hpc | storeRunning hpc | createThread hpc => simp [huser] at hpc
  | leave again' hpc hstopped =>
      rw [hstopped]
      have hdone : State.rank { s with user := if again' then .startCall else .destroyed } = 0 := by
        cases again' <;> simp [State.rank]
      rw [hdone]
      simp only [stopRank, Label.isMove, Bool.toNat_true]
      omega
  | stop again' t hpc hmay ht =>
      have hrank := stopStep_rank ht
      rw [rank_stopping (show (s.setSession (s.made - 1) t).user = .stopping again from huser)]
      simp only [State.setSession, Function.update_self, Label.isMove, Label.isMessage,
        Bool.toNat_true, Bool.toNat_false]
      split <;> omega
  | returned id hruns hexited =>
      have hid : s.made - 1 = id := by
        have hlast := (hlife.current hruns).1
        omega
      rw [rank_stopping (s := { s.setThread id .returned with running := false }) huser]
      simp [State.setThread, hid, hruns, loopRank, hexited, rankOf, Label.isMove, Label.isMessage]
  | receiver id t hruns ht =>
      have hid : s.made - 1 = id := by
        have hlast := (hlife.current hruns).1
        omega
      have hrank := receiver_rank ht
      rw [rank_stopping (s := { s.setSession id t with
        calls := s.calls ++ ((s.session id).calls .receiver).map (Prod.mk id) }) huser]
      simp only [State.setSession, hid, hruns, receiver_stopper ht, Function.update_self,
        Label.isMove, Label.isMessage, Bool.toNat_true, Bool.toNat_false, if_true]
      omega
  | next id e t hruns ht =>
      have hid : s.made - 1 = id := by
        have hlast := (hlife.current hruns).1
        omega
      rw [rank_stopping (show (s.setSession id t).user = .stopping again from huser)]
      simp only [State.setSession, hid, hruns, (nextReturns_spec ht).2, Function.update_self,
        if_true]
      cases e with
      | message msg =>
          have hrank := receive_rank (hends.control id) ht
          simp only [Label.isMove, Label.isMessage, Bool.toNat_true, Bool.toNat_false]
          omega
      | complete c =>
          have hrank := completion_rank (hends.control id) (by simp) ht
          simp only [Label.isMove, Label.isMessage, Bool.toNat_true, Bool.toNat_false]
          omega
      | drained =>
          have hrank := completion_rank (hends.control id) (by simp) ht
          simp only [Label.isMove, Label.isMessage, Bool.toNat_true, Bool.toNat_false]
          omega

/-- The owner is inside `Stop`. -/
def InStop (s : State Value Sub) (_ : Label Value) : Prop :=
  s.user = .stopping true ∨ s.user = .stopping false

instance decidableInStop (s : State Value Sub) (l : Label Value) : Decidable (InStop s l) :=
  inferInstanceAs (Decidable (_ ∨ _))

omit [DecidableEq T] [∀ t, Inhabited (Value t)] in
theorem InStop.again {s : State Value Sub} {l : Label Value} (h : InStop s l) :
    ∃ again, s.user = .stopping again := by
  rcases h with h | h
  · exact ⟨true, h⟩
  · exact ⟨false, h⟩

/-- Along a run inside `Stop` the moves use up the rank, and a message adds one. -/
theorem rank_run {s s' : State Value Sub} {ls : List (Label Value)} (hlife : Life s)
    (hends : Ends s) (hrun : run step InStop s ls = some s') :
    s'.rank + ls.countP Label.isMove ≤ s.rank + ls.countP Label.isMessage := by
  induction ls generalizing s with
  | nil =>
      simp only [run, Option.some.injEq] at hrun
      subst hrun
      simp
  | cons l ls ih =>
      simp only [run] at hrun
      split at hrun <;> try contradiction
      rename_i hstop
      rcases hstop.again with ⟨again, huser⟩
      split at hrun <;> try contradiction
      rename_i t ht
      have hstep := rank_step hlife hends huser ht
      have hrest := ih (hlife.step ht) (hends.step hlife ht) hrun
      rw [List.countP_cons, List.countP_cons]
      cases hmove : l.isMove <;> cases hmessage : l.isMessage <;>
        simp only [hmove, hmessage, Bool.toNat_true, Bool.toNat_false] at hstep <;>
        simp <;> omega

/-- While a thread runs in a session that is stopped, it or gRPC can move. -/
theorem thread_moves {s : State Value Sub} {id : Nat}
    (hruns : s.threads id = .runs) (hshutdown : (s.session id).cqShutdown = true)
    (hused : (s.session id).misused = false) :
    ∃ l : Label Value, l.isMove = true ∧ (step s l).isSome = true := by
  cases hpc : (s.session id).receiver with
  | exited => exact ⟨.thread id, rfl, by simp [step, State.threadStep, hruns, hpc]⟩
  | cancel =>
      exact ⟨.thread id, rfl, by
        simp [step, State.threadStep, hruns, hpc, Session.step, Session.receiverStep]⟩
  | event =>
      refine ⟨.thread id, rfl, ?_⟩
      simp only [step, State.threadStep, hruns, hpc, if_true, reduceCtorEq, if_false,
        Session.step, Session.receiverStep, Option.isSome_map]
      split <;> rfl
  | next =>
      by_cases hstart : (s.session id).startPending = true
      · exact ⟨.next id (.complete (.start true)), rfl, by
          simp [step, State.next, hruns, nextReturns, Session.step, Session.complete, hpc,
            hstart]⟩
      · by_cases hread : (s.session id).readPending = true
        · exact ⟨.next id (.complete .readFailed), rfl, by
            simp [step, State.next, hruns, nextReturns, Session.step, Session.complete, hpc,
              hread]⟩
        · by_cases hfinish : (s.session id).finishPending = true
          · exact ⟨.next id (.complete (.finish false)), rfl, by
              simp [step, State.next, hruns, nextReturns, Session.step, Session.complete, hpc,
                hfinish]⟩
          · exact ⟨.next id .drained, rfl, by
              simp [step, State.next, hruns, nextReturns, Session.step, hpc, hshutdown, hstart,
                hread, hfinish, hused]⟩

/-- Inside `Stop` somebody can move without a message. -/
theorem stop_moves {s : State Value Sub} (hlife : Life s) (hends : Ends s) {again : Bool}
    (huser : s.user = .stopping again) (hused : (s.session (s.made - 1)).misused = false) :
    ∃ l : Label Value, l.isMove = true ∧ (step s l).isSome = true := by
  have hcreated := ((PhaseOk.of_running (Or.inr ⟨again, huser⟩)).mp hlife.phase).2.1
  cases hpc : (s.session (s.made - 1)).stopper with
  | idle | shutdown | stopped =>
      exact ⟨.user, rfl, by
        simp [step, State.userStep, huser, hpc, State.MayStop, Session.stopStep]⟩
  | join =>
      cases hthread : s.threads (s.made - 1) with
      | notCreated => exact absurd hthread hcreated
      | runs => exact thread_moves hthread ((hends.shutdown _).mpr (Or.inl hpc)) hused
      | returned =>
          have hexited := hends.exited _ hthread
          exact ⟨.user, rfl, by
            simp [step, State.userStep, huser, hpc, State.MayStop, hthread, Session.stopStep,
              hexited]⟩

/-! ## Calls that have started -/

theorem nextReturns_inTime {t u : Session Value Sub} {e : Event Value} (h : t.InTime)
    (hdown : t.ShutsDown) (ht : nextReturns t e = some u) : u.InTime := by
  cases e with
  | message msg => exact h.receive ht
  | complete c => exact h.step hdown (l := .complete c) ht
  | drained => exact h.step hdown (l := .drained) ht

/-- A step inside `Stop` keeps the session in time. -/
theorem inTime_step {s s' : State Value Sub} {l : Label Value} {again : Bool} (hlife : Life s)
    (hends : Ends s) (huser : s.user = .stopping again)
    (h : (s.session (s.made - 1)).InTime) (hs : step s l = some s') :
    (s'.session (s'.made - 1)).InTime := by
  have hdown := hends.shutdown (s.made - 1)
  cases step_moves hs with
  | register handler => exact h
  | enter again' hidle => simp [huser] at hidle
  | startCall hpc | storeRunning hpc | createThread hpc => simp [huser] at hpc
  | leave again' hpc hstopped => exact h
  | stop again' t hpc hmay ht => simpa [State.setSession] using h.step hdown (l := .stop) ht
  | returned id hruns hexited => exact h
  | receiver id t hruns ht =>
      have hid : id = s.made - 1 := by
        have hlast := (hlife.current hruns).1
        omega
      subst hid
      simpa [State.setSession] using h.step hdown ht
  | next id e t hruns ht =>
      have hid : id = s.made - 1 := by
        have hlast := (hlife.current hruns).1
        omega
      subst hid
      simpa [State.setSession] using nextReturns_inTime h hdown ht

theorem inTime_run {s s' : State Value Sub} {ls : List (Label Value)} (hlife : Life s)
    (hends : Ends s) (h : (s.session (s.made - 1)).InTime)
    (hrun : run step InStop s ls = some s') : (s'.session (s'.made - 1)).InTime := by
  have hreach : Reach step InStop s s' := reach_of_run Reach.start hrun
  have hall : Life s' ∧ Ends s' ∧ (s'.session (s'.made - 1)).InTime := by
    apply hreach.invariant
    · exact ⟨hlife, hends, h⟩
    · intro t l t' ht hstop hs
      rcases ht with ⟨htlife, htends, htime⟩
      rcases hstop.again with ⟨again, huser⟩
      exact ⟨htlife.step hs, htends.step htlife hs, inTime_step htlife htends huser htime hs⟩
  exact hall.2.2

/-- How `Stop` returns: every run inside it has few moves apart from the messages that
gRPC still delivers, as long as it has not returned somebody can move, and no run of a
session in time starts an operation on the queue that was shut down. -/
structure StopReturns (s : State Value Sub) : Prop where
  bounded : ∀ (ls : List (Label Value)) (s' : State Value Sub),
    run step InStop s ls = some s' →
      ls.countP Label.isMove ≤ 11 + ls.countP Label.isMessage
  moves : ∃ l : Label Value, l.isMove = true ∧ (step s l).isSome = true
  unmisused : (s.session (s.made - 1)).InTime →
    ∀ (ls : List (Label Value)) (s' : State Value Sub),
      run step InStop s ls = some s' → (s'.session (s'.made - 1)).misused = false

/-- `Reconnect` and the destructor never wait forever for the receive thread: in every
reachable state inside `Stop` in which nothing was started on the queue after its
shutdown, at most eleven moves are left, and one more for each message that gRPC still
delivers. -/
theorem stop_returns (s : State Value Sub) (h : Reach step Always State.initial s)
    (again : Bool) (huser : s.user = .stopping again)
    (hused : (s.session (s.made - 1)).misused = false) : StopReturns s := by
  have hlife := life_reachable h
  have hends := ends_reachable h
  constructor
  case bounded =>
    intro ls s' hrun
    have hrank := rank_run hlife hends hrun
    have hle := rank_le s
    omega
  case moves => exact stop_moves hlife hends huser hused
  case unmisused =>
    intro htime ls s' hrun
    exact (inTime_run hlife hends htime hrun).1

end Moves

/-- `Stop` during a read: the session is in time. -/
theorem stop_returns_reading :
    ∃ s : State Numbers (), s.user = .stopping true ∧ s.threads 0 = .runs ∧
      (s.session (s.made - 1)).InTime ∧ StopReturns s := by
  have hrun : (run step Always (State.initial : State Numbers ()) stopSchedule).map
      (fun s => (s.user, s.threads 0, (s.session (s.made - 1)).misused,
        decide (s.session (s.made - 1)).InTime)) =
      some (.stopping true, .runs, false, true) := by decide
  rcases exists_reach_of_run hrun with ⟨s, hs, hobserved⟩
  simp only [Prod.mk.injEq, decide_eq_true_eq] at hobserved
  rcases hobserved with ⟨huser, hthread, hused, htime⟩
  exact ⟨s, huser, hthread, htime, stop_returns s hs true huser hused⟩

/-- The destructor shuts the queue down before the call has started: its event then
starts a read. -/
example : (run step Always (State.initial : State Numbers ()) [.user, .user, .user, .enter false,
    .user, .user, .next 0 (.complete (.start true)), .thread 0]).map
      (fun s => (s.session 0).misused) = some true := by decide

end Reconnect
end Subscriber
end DAQ
end DtCore
