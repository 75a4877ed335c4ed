import Mathlib.Logic.Function.Basic
import DtCore.DAQ.Subscriber.Session

/-!
# The sessions of a subscriber

A `StateSubscriberGrpc` owns one `Session` at a time.  Its constructor makes the first
one, `Reconnect` destroys the session and makes another one, and the destructor only
destroys it.  `InitRequest` starts the call, sets `_running` and creates the receive
thread; `Stop`, called when the session is destroyed, waits for that thread, whose last
action is to clear `_running`.

One thread constructs, reconnects and destroys the subscriber, and not from its message
handler; any thread may call `RegMessageHandler` and `IsRunning`.  gRPC completes the
operations of the sessions in any order.

Main definitions:

- `State.userStep`: the constructor, `Reconnect` and the destructor.
- `State.threadStep`: a receive thread.
- `Separate`: what the sessions of one subscriber have in common.

Main results:

- Inductive `Moves` and theorem `step_moves`: what a step can do.
- Theorem `sessions_separate`: the receive threads do not overlap, the handler is
  called by one session after the other, and `IsRunning` tells of the last one.
-/

namespace DtCore
namespace DAQ
namespace Subscriber
namespace Reconnect

open Foundation

variable {T : Type} {Value : T → Type} {Sub : T}

/-! ## State -/

/-- A receive thread: `pthread_create` was not called, it runs, or it has returned. -/
inductive ThreadPc where
  | notCreated
  | runs
  | returned
deriving DecidableEq

/-- What the owner of the subscriber does next; `stopping` is inside `Stop`, before a
reconnection or in the destructor. -/
inductive UserPc where
  | startCall
  | storeRunning
  | createThread
  | idle
  | stopping (again : Bool)
  | destroyed
deriving DecidableEq

/-- The members of a subscriber, all sessions it has made, numbered from zero, their
threads and the calls of the handler, each with the number of its session. -/
structure State (Value : T → Type) (Sub : T) where
  running : Bool
  handler : Bool
  made : Nat
  session : Nat → Session Value Sub
  threads : Nat → ThreadPc
  user : UserPc
  calls : List (Nat × Value Sub)

/-- The constructor is about to make the first session. -/
def State.initial : State Value Sub where
  running := true
  handler := false
  made := 0
  session := fun _ => Session.initial
  threads := fun _ => .notCreated
  user := .startCall
  calls := []

/-- Replace one session. -/
def State.setSession (s : State Value Sub) (id : Nat) (t : Session Value Sub) :
    State Value Sub :=
  { s with session := Function.update s.session id t }

/-- Move one receive thread. -/
def State.setThread (s : State Value Sub) (id : Nat) (pc : ThreadPc) : State Value Sub :=
  { s with threads := Function.update s.threads id pc }

/-! ## The owner -/

/-- `Stop` may take its next step: the join waits for the thread. -/
def State.MayStop (s : State Value Sub) (id : Nat) : Prop :=
  (s.session id).stopper = .join → s.threads id = .returned

instance decidableMayStop (s : State Value Sub) (id : Nat) : Decidable (s.MayStop id) :=
  inferInstanceAs (Decidable (_ → _))

/-- The next access of the constructor, of `Reconnect` or of the destructor. -/
def State.userStep (s : State Value Sub) : Option (State Value Sub) :=
  match s.user with
  | .startCall =>
      some { s.setSession s.made { Session.initial with handler := s.handler } with
        made := s.made + 1
        user := .storeRunning }
  | .storeRunning => some { s with running := true, user := .createThread }
  | .createThread => some { s.setThread (s.made - 1) .runs with user := .idle }
  | .idle | .destroyed => none
  | .stopping again =>
      if (s.session (s.made - 1)).stopper = .stopped then
        some { s with user := if again then .startCall else .destroyed }
      else if s.MayStop (s.made - 1) then
        (s.session (s.made - 1)).stopStep.map (s.setSession (s.made - 1))
      else none

/-- A call of `Reconnect` or of the destructor. -/
def State.enter (s : State Value Sub) (again : Bool) : Option (State Value Sub) :=
  if s.user = .idle then some { s with user := .stopping again } else none

/-! ## The receive threads -/

/-- The next access of a receive thread between two completions; out of its loop it
clears `_running` and returns. -/
def State.threadStep [DecidableEq T] [∀ t, Inhabited (Value t)] (s : State Value Sub)
    (id : Nat) : Option (State Value Sub) :=
  if s.threads id = .runs then
    if (s.session id).receiver = .exited then
      some { s.setThread id .returned with running := false }
    else
      ((s.session id).step .receiver).map (fun t =>
        { s.setSession id t with
          calls := s.calls ++ ((s.session id).calls .receiver).map (Prod.mk id) })
  else none

/-- What `Next` returns to a receive thread: a message, another completion, or that the
queue is drained. -/
inductive Event (Value : T → Type) where
  | message (msg : Any Value)
  | complete (c : Completion)
  | drained

/-- `Next` returns. -/
def nextReturns [DecidableEq T] [∀ t, Inhabited (Value t)] (t : Session Value Sub) :
    Event Value → Option (Session Value Sub)
  | .message msg => t.receive msg
  | .complete c => t.step (.complete c)
  | .drained => t.step .drained

/-- `Next` returns to a receive thread. -/
def State.next [DecidableEq T] [∀ t, Inhabited (Value t)] (s : State Value Sub) (id : Nat)
    (e : Event Value) : Option (State Value Sub) :=
  if s.threads id = .runs then (nextReturns (s.session id) e).map (s.setSession id) else none

/-- `RegMessageHandler`; every session reads the handler of the subscriber. -/
def State.regMessageHandler (s : State Value Sub) (handler : Bool) : State Value Sub :=
  { s with
    handler := handler
    session := fun id => { s.session id with handler := handler } }

/-! ## All threads -/

/-- Which thread moves. -/
inductive Label (Value : T → Type) where
  | register (handler : Bool)
  | enter (again : Bool)
  | user
  | thread (id : Nat)
  | next (id : Nat) (e : Event Value)

/-- The step function of a subscriber with its threads. -/
def step [DecidableEq T] [∀ t, Inhabited (Value t)] (s : State Value Sub) :
    Label Value → Option (State Value Sub)
  | .register handler => some (s.regMessageHandler handler)
  | .enter again => s.enter again
  | .user => s.userStep
  | .thread id => s.threadStep id
  | .next id e => s.next id e

/-- All runs. -/
def Always (_ : State Value Sub) (_ : Label Value) : Prop := True

instance decidableAlways (s : State Value Sub) (l : Label Value) : Decidable (Always s l) :=
  inferInstanceAs (Decidable True)

@[simp]
theorem setSession_self (s : State Value Sub) (id : Nat) (t : Session Value Sub) :
    (s.setSession id t).session id = t := by
  simp [State.setSession]

@[simp]
theorem setSession_ne (s : State Value Sub) {id id' : Nat} (t : Session Value Sub)
    (h : id' ≠ id) : (s.setSession id t).session id' = s.session id' := by
  simp [State.setSession, h]

@[simp]
theorem setThread_self (s : State Value Sub) (id : Nat) (pc : ThreadPc) :
    (s.setThread id pc).threads id = pc := by
  simp [State.setThread]

@[simp]
theorem setThread_ne (s : State Value Sub) {id id' : Nat} (pc : ThreadPc) (h : id' ≠ id) :
    (s.setThread id pc).threads id' = s.threads id' := by
  simp [State.setThread, h]

/-! ## What a step can do -/

section Moves

variable [DecidableEq T] [∀ t, Inhabited (Value t)]

/-- The moves of a subscriber. -/
inductive Moves (s : State Value Sub) : Label Value → State Value Sub → Prop where
  | register (handler : Bool) : Moves s (.register handler) (s.regMessageHandler handler)
  | enter (again : Bool) (hidle : s.user = .idle) :
      Moves s (.enter again) { s with user := .stopping again }
  | startCall (hpc : s.user = .startCall) :
      Moves s .user { s.setSession s.made { Session.initial with handler := s.handler } with
        made := s.made + 1
        user := .storeRunning }
  | storeRunning (hpc : s.user = .storeRunning) :
      Moves s .user { s with running := true, user := .createThread }
  | createThread (hpc : s.user = .createThread) :
      Moves s .user { s.setThread (s.made - 1) .runs with user := .idle }
  | leave (again : Bool) (hpc : s.user = .stopping again)
      (hstopped : (s.session (s.made - 1)).stopper = .stopped) :
      Moves s .user { s with user := if again then .startCall else .destroyed }
  | stop (again : Bool) (t : Session Value Sub) (hpc : s.user = .stopping again)
      (hmay : s.MayStop (s.made - 1)) (ht : (s.session (s.made - 1)).stopStep = some t) :
      Moves s .user (s.setSession (s.made - 1) t)
  | returned (id : Nat) (hruns : s.threads id = .runs)
      (hexited : (s.session id).receiver = .exited) :
      Moves s (.thread id) { s.setThread id .returned with running := false }
  | receiver (id : Nat) (t : Session Value Sub) (hruns : s.threads id = .runs)
      (ht : (s.session id).step .receiver = some t) :
      Moves s (.thread id) { s.setSession id t with
        calls := s.calls ++ ((s.session id).calls .receiver).map (Prod.mk id) }
  | next (id : Nat) (e : Event Value) (t : Session Value Sub) (hruns : s.threads id = .runs)
      (ht : nextReturns (s.session id) e = some t) :
      Moves s (.next id e) (s.setSession id t)

theorem step_moves {s s' : State Value Sub} {l : Label Value} (hs : step s l = some s') :
    Moves s l s' := by
  cases l with
  | register handler =>
      simp only [step, Option.some.injEq] at hs
      subst hs
      exact Moves.register handler
  | enter again =>
      simp only [step, State.enter] at hs
      split at hs <;> simp only [Option.some.injEq, reduceCtorEq] at hs
      rename_i hidle
      subst hs
      exact Moves.enter again hidle
  | user =>
      simp only [step, State.userStep] at hs
      split at hs <;> rename_i hpc
      · simp only [Option.some.injEq] at hs
        subst hs
        exact Moves.startCall hpc
      · simp only [Option.some.injEq] at hs
        subst hs
        exact Moves.storeRunning hpc
      · simp only [Option.some.injEq] at hs
        subst hs
        exact Moves.createThread hpc
      · contradiction
      · contradiction
      · split at hs <;> rename_i hstopped
        · simp only [Option.some.injEq] at hs
          subst hs
          exact Moves.leave _ hpc hstopped
        · split at hs <;> simp only [Option.map_eq_some_iff, reduceCtorEq] at hs
          rename_i hmay
          rcases hs with ⟨t, ht, rfl⟩
          exact Moves.stop _ t hpc hmay ht
  | thread id =>
      simp only [step, State.threadStep] at hs
      split at hs <;> try contradiction
      rename_i hruns
      split at hs
      · rename_i hexited
        simp only [Option.some.injEq] at hs
        subst hs
        exact Moves.returned id hruns hexited
      · simp only [Option.map_eq_some_iff] at hs
        rcases hs with ⟨t, ht, rfl⟩
        exact Moves.receiver id t hruns ht
  | next id e =>
      simp only [step, State.next] at hs
      split at hs <;> simp only [Option.map_eq_some_iff, reduceCtorEq] at hs
      rename_i hruns
      rcases hs with ⟨t, ht, rfl⟩
      exact Moves.next id e t hruns ht

/-! ## Steps of one session -/

theorem receiver_stopper {t u : Session Value Sub} (ht : t.step .receiver = some u) :
    u.stopper = t.stopper := by
  simp only [Session.step, Session.receiverStep] at ht
  split at ht
  · have hstopper := onCompletionEvent_stopper t
    split at ht <;> rename_i heq <;> simp only [Option.some.injEq] at ht <;> subst ht <;>
      rw [heq] at hstopper <;> exact hstopper
  · simp only [Option.some.injEq] at ht
    subst ht
    exact tryCancelCallAndShutdown_stopper t
  · contradiction

/-- A completion calls no handler. -/
theorem nextReturns_spec {t u : Session Value Sub} {e : Event Value}
    (ht : nextReturns t e = some u) : u.seen = t.seen ∧ u.stopper = t.stopper := by
  cases e with
  | message msg =>
      simp only [nextReturns, Session.receive] at ht
      split at ht <;> simp only [Option.some.injEq, reduceCtorEq] at ht
      subst ht
      exact ⟨rfl, rfl⟩
  | complete c =>
      simp only [nextReturns, Session.step, Session.complete] at ht
      split at ht <;> (try split at ht) <;>
        simp only [Option.some.injEq, reduceCtorEq] at ht <;> subst ht <;> exact ⟨rfl, rfl⟩
  | drained =>
      simp only [nextReturns, Session.step] at ht
      split at ht <;> simp only [Option.some.injEq, reduceCtorEq] at ht
      subst ht
      exact ⟨rfl, rfl⟩

omit [DecidableEq T] [∀ t, Inhabited (Value t)] in
/-- `Stop` calls no handler and ends with its join. -/
theorem stopStep_spec {t u : Session Value Sub} (ht : t.stopStep = some u) :
    u.seen = t.seen ∧ (u.stopper = .stopped → t.stopper = .join) := by
  unfold Session.stopStep at ht
  split at ht <;> rename_i hpc
  · simp only [Option.some.injEq] at ht
    subst ht
    exact ⟨tryCancelCallAndShutdown_seen t, by simp⟩
  · simp only [Option.some.injEq] at ht
    subst ht
    exact ⟨rfl, by simp⟩
  · split at ht <;> simp only [Option.some.injEq, reduceCtorEq] at ht
    subst ht
    exact ⟨rfl, fun _ => hpc⟩
  · contradiction

/-! ## The calls of the handler -/

/-- What the sessions before `made` called the handler with, one after the other. -/
def callsOf (made : Nat) (session : Nat → Session Value Sub) : List (Nat × Value Sub) :=
  (List.range made).flatMap (fun id => (session id).seen.map (Prod.mk id))

omit [DecidableEq T] [∀ t, Inhabited (Value t)] in
theorem callsOf_congr {made : Nat} {session session' : Nat → Session Value Sub}
    (h : ∀ id, id < made → (session' id).seen = (session id).seen) :
    callsOf made session' = callsOf made session := by
  unfold callsOf
  apply List.flatMap_congr
  intro id hid
  rw [h id (List.mem_range.mp hid)]

omit [DecidableEq T] [∀ t, Inhabited (Value t)] in
theorem callsOf_succ (made : Nat) (session : Nat → Session Value Sub) :
    callsOf (made + 1) session =
      callsOf made session ++ (session made).seen.map (Prod.mk made) := by
  simp [callsOf, List.range_succ]

/-! ## One session at a time -/

/-- What the owner knows of the last thread. -/
def PhaseOk (s : State Value Sub) : Prop :=
  match s.user with
  | .startCall => ∀ id, id < s.made → s.threads id = .returned
  | .storeRunning => 0 < s.made ∧ s.threads (s.made - 1) = .notCreated
  | .createThread =>
      0 < s.made ∧ s.threads (s.made - 1) = .notCreated ∧ s.running = true
  | .idle | .stopping _ =>
      0 < s.made ∧ s.threads (s.made - 1) ≠ .notCreated ∧
        (s.running = true ↔ s.threads (s.made - 1) = .runs)
  | .destroyed => (∀ id, id < s.made → s.threads id = .returned) ∧ s.running = false

/-- Only the last session may have a thread that runs. -/
structure Life (s : State Value Sub) : Prop where
  earlier : ∀ id, id + 1 < s.made → s.threads id = .returned
  later : ∀ id, s.made ≤ id → s.threads id = .notCreated
  stopped : ∀ id, (s.session id).stopper = .stopped → s.threads id = .returned
  phase : PhaseOk s
  calls : s.calls = callsOf s.made s.session

omit [DecidableEq T] [∀ t, Inhabited (Value t)] in
theorem life_initial : Life (State.initial : State Value Sub) where
  earlier := by
    intro id hid
    simp [State.initial] at hid
  later _ _ := rfl
  stopped := by simp [State.initial, Session.initial]
  phase := by simp [PhaseOk, State.initial]
  calls := rfl

omit [DecidableEq T] [∀ t, Inhabited (Value t)] in
/-- A thread that runs is the last one, and its owner waits for it or is outside. -/
theorem Life.current {s : State Value Sub} (h : Life s) {id : Nat}
    (hruns : s.threads id = .runs) :
    id + 1 = s.made ∧ (s.user = .idle ∨ ∃ again, s.user = .stopping again) := by
  have hlast : id + 1 = s.made := by
    by_contra hne
    rcases Nat.lt_or_gt_of_ne hne with hlt | hgt
    · simp [h.earlier id hlt] at hruns
    · simp [h.later id (by omega)] at hruns
  have hphase := h.phase
  have hid : s.made - 1 = id := by omega
  unfold PhaseOk at hphase
  constructor
  · exact hlast
  · cases hpc : s.user with
    | idle => exact Or.inl rfl
    | stopping again => exact Or.inr ⟨again, rfl⟩
    | startCall =>
        rw [hpc] at hphase
        simp [hphase id (by omega)] at hruns
    | storeRunning =>
        rw [hpc] at hphase
        simp [← hid, hphase.2] at hruns
    | createThread =>
        rw [hpc] at hphase
        simp [← hid, hphase.2.1] at hruns
    | destroyed =>
        rw [hpc] at hphase
        simp [hphase.1 id (by omega)] at hruns

omit [DecidableEq T] [∀ t, Inhabited (Value t)] in
/-- Outside of the constructor the phase depends on `_running` and the last thread
only. -/
theorem PhaseOk.of_running {s : State Value Sub}
    (hpc : s.user = .idle ∨ ∃ again, s.user = .stopping again) :
    PhaseOk s ↔ 0 < s.made ∧ s.threads (s.made - 1) ≠ .notCreated ∧
      (s.running = true ↔ s.threads (s.made - 1) = .runs) := by
  rcases hpc with hpc | ⟨again, hpc⟩ <;> unfold PhaseOk <;> rw [hpc]

omit [DecidableEq T] [∀ t, Inhabited (Value t)] in
/-- A step of the last session, which its thread or its owner makes. -/
theorem Life.setSession {s : State Value Sub} (h : Life s) {id : Nat} {t : Session Value Sub}
    {new : List (Value Sub)} (hlast : id + 1 = s.made)
    (hstopped : t.stopper = .stopped → s.threads id = .returned)
    (hseen : t.seen = (s.session id).seen ++ new) :
    Life { s.setSession id t with calls := s.calls ++ new.map (Prod.mk id) } where
  earlier := h.earlier
  later := h.later
  stopped := by
    intro id' hid'
    by_cases heq : id' = id
    · subst heq
      exact hstopped (by simpa [State.setSession] using hid')
    · exact h.stopped id' (by simpa [State.setSession, heq] using hid')
  phase := h.phase
  calls := by
    have hbefore : callsOf id (Function.update s.session id t) = callsOf id s.session := by
      apply callsOf_congr
      intro id' hid'
      rw [Function.update_of_ne (by omega)]
    simp only [State.setSession]
    rw [h.calls, ← hlast, callsOf_succ, callsOf_succ, hbefore, Function.update_self, hseen,
      List.map_append, List.append_assoc]

omit [DecidableEq T] [∀ t, Inhabited (Value t)] in
/-- A step of the last session that calls no handler. -/
theorem Life.setSession_quiet {s : State Value Sub} (h : Life s) {id : Nat}
    {t : Session Value Sub} (hlast : id + 1 = s.made)
    (hstopped : t.stopper = .stopped → s.threads id = .returned)
    (hseen : t.seen = (s.session id).seen) : Life (s.setSession id t) := by
  have hnone : t.seen = (s.session id).seen ++ [] := by rw [hseen, List.append_nil]
  have hstep := h.setSession hlast hstopped hnone
  rw [List.map_nil, List.append_nil] at hstep
  exact hstep

theorem Life.step {s s' : State Value Sub} {l : Label Value} (h : Life s)
    (hs : step s l = some s') : Life s' := by
  have hphase := h.phase
  cases step_moves hs with
  | register handler => exact ⟨h.earlier, h.later, h.stopped, h.phase, h.calls⟩
  | enter again hidle =>
      have hsame := (PhaseOk.of_running (Or.inl hidle)).mp hphase
      exact ⟨h.earlier, h.later, h.stopped, hsame, h.calls⟩
  | startCall hpc =>
      simp only [PhaseOk, hpc] at hphase
      constructor
      case earlier =>
        intro id hid
        exact hphase id (by simpa using hid)
      case later =>
        intro id hid
        exact h.later id (by simp at hid; omega)
      case stopped =>
        intro id hid
        by_cases heq : id = s.made
        · subst heq
          simp [State.setSession, Session.initial] at hid
        · exact h.stopped id (by simpa [State.setSession, heq] using hid)
      case phase => exact ⟨Nat.succ_pos _, h.later s.made (Nat.le_refl _)⟩
      case calls =>
        have hbefore : callsOf s.made (Function.update s.session s.made
            { Session.initial with handler := s.handler }) = callsOf s.made s.session := by
          apply callsOf_congr
          intro id hid
          rw [Function.update_of_ne (by omega)]
        simp only [State.setSession]
        rw [callsOf_succ, hbefore, Function.update_self, h.calls]
        simp [Session.initial]
  | storeRunning hpc =>
      simp only [PhaseOk, hpc] at hphase
      exact ⟨h.earlier, h.later, h.stopped, ⟨hphase.1, hphase.2, rfl⟩, h.calls⟩
  | createThread hpc =>
      simp only [PhaseOk, hpc] at hphase
      rcases hphase with ⟨hpos, hnew, hrunning⟩
      constructor
      case earlier =>
        intro id hid
        have hne : id ≠ s.made - 1 := by simp only [State.setThread] at hid; omega
        simpa [State.setThread, hne] using h.earlier id hid
      case later =>
        intro id hid
        have hne : id ≠ s.made - 1 := by simp only [State.setThread] at hid; omega
        simpa [State.setThread, hne] using h.later id hid
      case stopped =>
        intro id hid
        have hreturned := h.stopped id hid
        have hne : id ≠ s.made - 1 := by
          intro heq
          simp [heq, hnew] at hreturned
        simpa [State.setThread, hne] using hreturned
      case phase =>
        refine ⟨hpos, ?_, ?_⟩
        · simp [State.setThread]
        · simpa [State.setThread] using hrunning
      case calls => exact h.calls
  | leave again hpc hstopped =>
      have hlast := h.stopped _ hstopped
      rcases (PhaseOk.of_running (Or.inr ⟨again, hpc⟩)).mp hphase with ⟨hpos, _, hrunning⟩
      have hall : ∀ id, id < s.made → s.threads id = .returned := by
        intro id hid
        by_cases heq : id = s.made - 1
        · rw [heq]
          exact hlast
        · exact h.earlier id (by omega)
      cases again with
      | true => exact ⟨h.earlier, h.later, h.stopped, hall, h.calls⟩
      | false =>
          have hfalse : s.running = false := by simpa [hlast] using hrunning
          exact ⟨h.earlier, h.later, h.stopped, ⟨hall, hfalse⟩, h.calls⟩
  | stop again t hpc hmay ht =>
      rcases stopStep_spec ht with ⟨hseen, hjoin⟩
      have hpos := ((PhaseOk.of_running (Or.inr ⟨again, hpc⟩)).mp hphase).1
      exact h.setSession_quiet (by omega) (fun hstopped => hmay (hjoin hstopped)) hseen
  | returned id hruns hexited =>
      rcases h.current hruns with ⟨hlast, huser⟩
      have hid : s.made - 1 = id := by omega
      constructor
      case earlier =>
        intro id' hid'
        have hne : id' ≠ id := by simp only [State.setThread] at hid'; omega
        simpa [State.setThread, hne] using h.earlier id' hid'
      case later =>
        intro id' hid'
        have hne : id' ≠ id := by simp only [State.setThread] at hid'; omega
        simpa [State.setThread, hne] using h.later id' hid'
      case stopped =>
        intro id' hid'
        by_cases heq : id' = id
        · simp [State.setThread, heq]
        · simpa [State.setThread, heq] using h.stopped id' hid'
      case phase =>
        refine Iff.mpr (PhaseOk.of_running ?_) ?_
        · exact huser
        · simp only [State.setThread, hid, Function.update_self]
          exact ⟨by omega, by simp, by simp⟩
      case calls => exact h.calls
  | receiver id t hruns ht =>
      have hlast := (h.current hruns).1
      apply h.setSession hlast
      · intro hstopped
        rw [receiver_stopper ht] at hstopped
        exact h.stopped id hstopped
      · exact Session.step_seen ht
  | next id e t hruns ht =>
      rcases nextReturns_spec ht with ⟨hseen, hstopper⟩
      have hlast := (h.current hruns).1
      apply h.setSession_quiet hlast _ hseen
      intro hstopped
      rw [hstopper] at hstopped
      exact h.stopped id hstopped

theorem life_reachable {s : State Value Sub} (h : Reach step Always State.initial s) : Life s := by
  apply h.invariant
  · exact life_initial
  · intro t l t' ht _ hs
    exact ht.step hs

/-- What the sessions of a subscriber have in common. -/
structure Separate (s : State Value Sub) : Prop where
  one_thread : ∀ id id', s.threads id = .runs → s.threads id' = .runs → id = id'
  in_turn : s.calls = callsOf s.made s.session
  running : s.user = .idle → (s.running = true ↔ s.threads (s.made - 1) = .runs)
  between : s.user = .startCall → ∀ id, s.threads id ≠ .runs
  destroyed : s.user = .destroyed → s.running = false ∧ ∀ id, s.threads id ≠ .runs

/-- In every run no receive thread overlaps another one or outlives its session, the
handler is called by one session after the other, and `IsRunning` is true exactly
while the thread of the last session runs. -/
theorem sessions_separate (s : State Value Sub) (h : Reach step Always State.initial s) :
    Separate s := by
  have hlife := life_reachable h
  have hphase := hlife.phase
  constructor
  case one_thread =>
    intro id id' hid hid'
    have hlast := (hlife.current hid).1
    have hlast' := (hlife.current hid').1
    omega
  case in_turn => exact hlife.calls
  case running =>
    intro hidle
    exact ((PhaseOk.of_running (Or.inl hidle)).mp hphase).2.2
  case between =>
    intro hpc id hruns
    rcases (hlife.current hruns).2 with hidle | ⟨again, hstop⟩
    · simp [hpc] at hidle
    · simp [hpc] at hstop
  case destroyed =>
    intro hpc
    constructor
    · simp only [PhaseOk, hpc] at hphase
      exact hphase.2
    · intro id hruns
      rcases (hlife.current hruns).2 with hidle | ⟨again, hstop⟩
      · simp [hpc] at hidle
      · simp [hpc] at hstop

end Moves

/-! ## A reconnection -/

/-- One message type with numbers. -/
abbrev Numbers (_ : Unit) : Type := Nat

/-- A message with a number. -/
def number (n : Nat) : Any Numbers where
  typeUrl := ()
  value := n

/-- The first session handles a message; then `Stop` cancels the call and shuts the
queue down. -/
def stopSchedule : List (Label Numbers) :=
  [.user, .user, .user, .register true, .next 0 (.complete (.start true)), .thread 0,
    .next 0 (.message (number 7)), .thread 0, .enter true, .user, .user]

/-- The read fails, the thread ends, and the second session handles a message. -/
def reconnectSchedule : List (Label Numbers) :=
  stopSchedule ++ [.next 0 (.complete .readFailed), .thread 0, .thread 0, .user, .user, .user,
    .user, .user, .next 1 (.complete (.start true)), .thread 1, .next 1 (.message (number 8)),
    .thread 1]

theorem sessions_separate_reconnected :
    ∃ s : State Numbers (), s.calls = [(0, 7), (1, 8)] ∧ Separate s := by
  have hrun : (run step Always (State.initial : State Numbers ()) reconnectSchedule).map
      State.calls = some [(0, 7), (1, 8)] := by decide
  rcases exists_reach_of_run hrun with ⟨s, hs, hcalls⟩
  exact ⟨s, hcalls, sessions_separate s hs⟩

end Reconnect
end Subscriber
end DAQ
end DtCore
