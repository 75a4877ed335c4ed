import Mathlib.Data.List.Basic
import DtCore.Foundation.StepSystem

/-!
# A session of the gRPC state subscriber

A `StateSubscriberGrpc::Session` reads a stream of `State` messages, each of which packs a
value in an `Any`.  The receive thread takes completions from gRPC and calls
`OnCompletionEvent` for the successful ones; the first other one ends its loop with a call of
`TryCancelCallAndShutdown`, which `Stop` calls as well.  Both calls work under `_call_mtx`
from their first line to their last, so each is one step.

gRPC is the environment: it completes an operation after it was issued and while the receive
thread waits in `Next`.  A read that succeeds brings a message, any other read ends the
stream; `TryCancel` only makes gRPC fail what it may fail at any time.  gRPC forbids to start
an operation on a queue that was shut down: it is not issued here, the session is marked as
misused, and `Next` does not return false any more.  The field `seen` lists the values that
the handler was called with; `_running`, which only `IsRunning` reads, is left out.

Main definitions:

- `Any`, `packFrom` and `unpackTo`: the packed value of a message.
- `Session.onCompletionEvent` and `Session.tryCancelCallAndShutdown`.
- `Session.step`: the accesses of the receive thread, of `Stop` and of `RegMessageHandler`.

Main results:

- Theorem `Session.step_seen`: when the handler is called, and with what.
- Structure `Control` and theorem `Control.step`: which operations are pending in which state.
- Theorem `Control.unread`: a message that was read is handled or stays.
- Theorem `Session.InTime.step`: a call that had started before `Stop` cancelled it starts
  nothing on a queue that was shut down.
-/

namespace DtCore
namespace DAQ
namespace Subscriber

variable {T : Type} {Value : T → Type} {Pub Sub : T}

/-! ## Packed values -/

/-- `google.protobuf.Any`: a value with the type that was packed. -/
structure Any (Value : T → Type) where
  typeUrl : T
  value : Value typeUrl

/-- `PackFrom` records the type of the value. -/
def packFrom (value : Value Pub) : Any Value where
  typeUrl := Pub
  value := value

/-- `UnpackTo` on a new message: whether it succeeds, and the message afterwards.  A value of
another type leaves the message as it was made. -/
def unpackTo [DecidableEq T] [∀ t, Inhabited (Value t)] (Sub : T) :
    Option (Any Value) → Bool × Value Sub
  | none => (false, default)
  | some packed =>
      if h : packed.typeUrl = Sub then (true, h ▸ packed.value) else (false, default)

theorem packFrom_unpackTo [DecidableEq T] [∀ t, Inhabited (Value t)] (packed : Any Value)
    (h : packed.typeUrl = Sub) : packFrom (unpackTo Sub (some packed)).2 = packed := by
  subst h
  simp [unpackTo, packFrom]

/-! ## The session -/

/-- `Session::RpcCallState`. -/
inductive RpcCallState where
  | waitStart
  | readyToRead
  | waitReadDone
  | waitFinish
  | finished
  | peerDisconnected
deriving DecidableEq, Repr

/-- What the receive thread does next. -/
inductive ReceivePc where
  | next
  | event
  | cancel
  | exited
deriving DecidableEq

/-- What `Stop` does next. -/
inductive StopPc where
  | idle
  | shutdown
  | join
  | stopped
deriving DecidableEq

/-- The members of a session and where its threads stand.  `handler` says whether a function
is registered, the three `Pending` fields name the operations that gRPC has not completed,
and `misused` says that one was started after the queue had been shut down. -/
structure Session (Value : T → Type) (Sub : T) where
  callState : RpcCallState
  statusOk : Bool
  msg : Option (Any Value)
  handler : Bool
  startPending : Bool
  readPending : Bool
  finishPending : Bool
  cqShutdown : Bool
  misused : Bool
  receiver : ReceivePc
  stopper : StopPc
  seen : List (Value Sub)

/-- After `InitRequest`: the call is started. -/
def Session.initial : Session Value Sub where
  callState := .waitStart
  statusOk := true
  msg := none
  handler := false
  startPending := true
  readPending := false
  finishPending := false
  cqShutdown := false
  misused := false
  receiver := .next
  stopper := .idle
  seen := []

/-- Unpack the message and call the handler; the result of `UnpackTo` is not used. -/
def Session.handle [DecidableEq T] [∀ t, Inhabited (Value t)] (s : Session Value Sub) :
    Session Value Sub :=
  if s.handler then { s with seen := s.seen ++ [(unpackTo Sub s.msg).2] } else s

/-- `Read`: a queue that was shut down is misused, and nothing is issued. -/
def Session.startRead (s : Session Value Sub) : Session Value Sub :=
  { s with readPending := s.readPending || !s.cqShutdown, misused := s.misused || s.cqShutdown }

/-- `Finish`. -/
def Session.startFinish (s : Session Value Sub) : Session Value Sub :=
  { s with
    finishPending := s.finishPending || !s.cqShutdown
    misused := s.misused || s.cqShutdown }

/-- `OnCompletionEvent` with its result. -/
def Session.onCompletionEvent [DecidableEq T] [∀ t, Inhabited (Value t)]
    (s : Session Value Sub) : Bool × Session Value Sub :=
  match s.callState with
  | .waitStart =>
      if s.statusOk then
        (true, { s.startRead with callState := .waitReadDone })
      else (false, s)
  | .waitReadDone =>
      if s.statusOk then
        (true, { s.handle.startRead with callState := .waitReadDone })
      else (false, s)
  | .waitFinish => (false, { s with callState := .finished })
  | _ => (false, s)

/-- `TryCancelCallAndShutdown`. -/
def Session.tryCancelCallAndShutdown (s : Session Value Sub) : Session Value Sub :=
  if s.callState ≠ .waitStart ∧ s.callState ≠ .waitFinish ∧ s.callState ≠ .finished then
    { s.startFinish with callState := .waitFinish }
  else s

/-! ## The threads -/

/-- A completion that brings no message. -/
inductive Completion where
  | start (ok : Bool)
  | readFailed
  | finish (statusOk : Bool)

/-- Which thread moves. -/
inductive SessionLabel where
  | complete (c : Completion)
  | receiver
  | drained
  | stop
  | register (handler : Bool)

/-- `Next` returns a message to the receive thread. -/
def Session.receive (s : Session Value Sub) (msg : Any Value) : Option (Session Value Sub) :=
  if s.receiver = .next ∧ s.readPending = true then
    some { s with msg := some msg, readPending := false, receiver := .event }
  else none

/-- `Next` returns a completion without a message. -/
def Session.complete (s : Session Value Sub) (c : Completion) : Option (Session Value Sub) :=
  match s.receiver, c with
  | .next, .start ok =>
      if s.startPending then
        some { s with startPending := false, receiver := if ok then .event else .cancel }
      else none
  | .next, .readFailed =>
      if s.readPending then some { s with readPending := false, receiver := .cancel } else none
  | .next, .finish statusOk =>
      -- a `Finish` always completes, and it stores the status of the call
      if s.finishPending then
        some { s with finishPending := false, statusOk := statusOk, receiver := .event }
      else none
  | _, _ => none

/-- The next access of the receive thread between two completions. -/
def Session.receiverStep [DecidableEq T] [∀ t, Inhabited (Value t)] (s : Session Value Sub) :
    Option (Session Value Sub) :=
  match s.receiver with
  | .event =>
      match s.onCompletionEvent with
      | (true, t) => some { t with receiver := .next }
      | (false, t) => some { t with receiver := .cancel }
  | .cancel => some { s.tryCancelCallAndShutdown with receiver := .exited }
  | _ => none

/-- The next access of `Stop`. -/
def Session.stopStep (s : Session Value Sub) : Option (Session Value Sub) :=
  match s.stopper with
  | .idle => some { s.tryCancelCallAndShutdown with stopper := .shutdown }
  | .shutdown => some { s with cqShutdown := true, stopper := .join }
  | .join => if s.receiver = .exited then some { s with stopper := .stopped } else none
  | .stopped => none

/-- The step function of a session with its threads. -/
def Session.step [DecidableEq T] [∀ t, Inhabited (Value t)] (s : Session Value Sub) :
    SessionLabel → Option (Session Value Sub)
  | .complete c => s.complete c
  | .receiver => s.receiverStep
  | .drained =>
      -- `Next` returns false
      if s.receiver = .next ∧ s.cqShutdown = true ∧ s.startPending = false ∧
          s.readPending = false ∧ s.finishPending = false ∧ s.misused = false then
        some { s with receiver := .exited }
      else none
  | .stop => s.stopStep
  | .register handler => some { s with handler := handler }

/-! ## When the handler is called -/

/-- A message was read and not handled. -/
def Session.Unread (s : Session Value Sub) : Prop :=
  s.receiver = .event ∧ s.callState = .waitReadDone

instance decidableUnread (s : Session Value Sub) : Decidable s.Unread :=
  inferInstanceAs (Decidable (_ ∧ _))

/-- The receive thread is about to call the handler: a message was read, no status was stored,
and a handler is registered. -/
def Session.HandsOver (s : Session Value Sub) : Prop :=
  s.Unread ∧ s.statusOk = true ∧ s.handler = true

instance decidableHandsOver (s : Session Value Sub) : Decidable s.HandsOver :=
  inferInstanceAs (Decidable (_ ∧ _ ∧ _))

@[simp]
theorem tryCancelCallAndShutdown_seen (s : Session Value Sub) :
    s.tryCancelCallAndShutdown.seen = s.seen := by
  unfold Session.tryCancelCallAndShutdown
  split <;> rfl

@[simp]
theorem tryCancelCallAndShutdown_startPending (s : Session Value Sub) :
    s.tryCancelCallAndShutdown.startPending = s.startPending := by
  unfold Session.tryCancelCallAndShutdown
  split <;> rfl

theorem receive_seen {s s' : Session Value Sub} {msg : Any Value}
    (hs : s.receive msg = some s') : s'.seen = s.seen := by
  unfold Session.receive at hs
  split at hs <;> simp only [Option.some.injEq, reduceCtorEq] at hs
  subst hs
  rfl

theorem receive_msg {s s' : Session Value Sub} {msg : Any Value}
    (hs : s.receive msg = some s') : s'.msg = some msg := by
  unfold Session.receive at hs
  split at hs <;> simp only [Option.some.injEq, reduceCtorEq] at hs
  subst hs
  rfl

section Handler

variable [DecidableEq T] [∀ t, Inhabited (Value t)]

/-- The values that a step of the session calls the handler with. -/
def Session.calls (s : Session Value Sub) : SessionLabel → List (Value Sub)
  | .receiver => if s.HandsOver then [(unpackTo Sub s.msg).2] else []
  | _ => []

/-- A call unpacks an unread message. -/
theorem Session.calls_cases (s : Session Value Sub) (l : SessionLabel) :
    s.calls l = [] ∨ s.Unread ∧ s.calls l = [(unpackTo Sub s.msg).2] := by
  cases l with
  | receiver =>
      by_cases hover : s.HandsOver
      · right
        exact ⟨hover.1, by simp [Session.calls, hover]⟩
      · left
        simp [Session.calls, hover]
  | complete | drained | stop | register => exact Or.inl rfl

theorem onCompletionEvent_seen (s : Session Value Sub) (h : s.receiver = .event) :
    s.onCompletionEvent.2.seen = s.seen ++ s.calls .receiver := by
  unfold Session.onCompletionEvent
  split <;> rename_i hstate
  · split <;>
      simp [Session.startRead, Session.calls, Session.HandsOver, Session.Unread, hstate]
  · split <;> rename_i hok
    · by_cases hhandler : s.handler = true
      · simp [Session.startRead, Session.calls, Session.HandsOver, Session.Unread,
          Session.handle, h, hstate, hok, hhandler]
      · simp [Session.startRead, Session.calls, Session.HandsOver, Session.Unread,
          Session.handle, hhandler]
    · simp [Session.calls, Session.HandsOver, Session.Unread, hok]
  · simp [Session.calls, Session.HandsOver, Session.Unread, hstate]
  · have hne : s.callState ≠ .waitReadDone := by assumption
    simp [Session.calls, Session.HandsOver, Session.Unread, hne]

theorem Session.step_seen {s s' : Session Value Sub} {l : SessionLabel}
    (hs : s.step l = some s') : s'.seen = s.seen ++ s.calls l := by
  cases l with
  | complete c =>
      simp only [Session.step, Session.complete] at hs
      split at hs <;> (try split at hs) <;>
        simp only [Option.some.injEq, reduceCtorEq] at hs <;> subst hs <;>
        simp [Session.calls]
  | receiver =>
      simp only [Session.step, Session.receiverStep] at hs
      split at hs <;> rename_i hpc
      · have hseen := onCompletionEvent_seen s hpc
        split at hs <;> rename_i heq <;> simp only [Option.some.injEq] at hs <;> subst hs <;>
          rw [heq] at hseen <;> exact hseen
      · simp only [Option.some.injEq] at hs
        subst hs
        simp [Session.calls, Session.HandsOver, Session.Unread, hpc]
      · contradiction
  | drained =>
      simp only [Session.step] at hs
      split at hs <;> simp only [Option.some.injEq, reduceCtorEq] at hs
      subst hs
      simp [Session.calls]
  | stop =>
      simp only [Session.step, Session.stopStep] at hs
      split at hs <;> (try split at hs) <;>
        simp only [Option.some.injEq, reduceCtorEq] at hs <;> subst hs <;>
        simp [Session.calls]
  | register handler =>
      simp only [Session.step, Option.some.injEq] at hs
      subst hs
      simp [Session.calls]

end Handler

/-! ## Which operations are pending -/

/-- The start of the call is pending in the first state only, a read never in the first
state, and the end of the call in the last two. -/
structure Control (s : Session Value Sub) : Prop where
  start : s.startPending = true → s.callState = .waitStart
  event : s.receiver = .event → s.startPending = false
  read : s.readPending = true → s.callState ≠ .waitStart
  finish : s.finishPending = true → s.callState = .waitFinish ∨ s.callState = .finished

theorem control_initial : Control (Session.initial : Session Value Sub) where
  start _ := rfl
  event h := by simp [Session.initial] at h
  read h := by simp [Session.initial] at h
  finish h := by simp [Session.initial] at h

/-- The start is over in every state but the first. -/
theorem Control.started {s : Session Value Sub} (h : Control s)
    (hstate : s.callState ≠ .waitStart) : s.startPending = false := by
  by_contra hpend
  exact hstate (h.start (by simpa using hpend))

theorem Control.tryCancelCallAndShutdown {s : Session Value Sub} (h : Control s) :
    Control s.tryCancelCallAndShutdown := by
  unfold Session.tryCancelCallAndShutdown
  split
  · rename_i hstate
    constructor
    case start =>
      intro hpend
      exact absurd (h.start hpend) hstate.1
    case event => exact h.event
    case read => simp
    case finish => simp
  · exact h

theorem Control.receive {s s' : Session Value Sub} {msg : Any Value} (h : Control s)
    (hs : s.receive msg = some s') : Control s' := by
  unfold Session.receive at hs
  split at hs <;> simp only [Option.some.injEq, reduceCtorEq] at hs
  rename_i hnext
  subst hs
  constructor
  case start => exact h.start
  case event =>
    intro _
    exact h.started (h.read hnext.2)
  case read => simp
  case finish => exact h.finish

theorem Control.complete {s s' : Session Value Sub} {c : Completion} (h : Control s)
    (hs : s.complete c = some s') : Control s' := by
  unfold Session.complete at hs
  split at hs
  · -- start
    split at hs <;> simp only [Option.some.injEq, reduceCtorEq] at hs
    subst hs
    exact ⟨by simp, by simp, h.read, h.finish⟩
  · -- readFailed
    split at hs <;> simp only [Option.some.injEq, reduceCtorEq] at hs
    subst hs
    exact ⟨h.start, by simp, by simp, h.finish⟩
  · -- finish
    split at hs <;> simp only [Option.some.injEq, reduceCtorEq] at hs
    rename_i hpend
    subst hs
    have hstate : s.callState ≠ .waitStart := by
      rcases h.finish hpend with hend | hend <;> simp [hend]
    exact ⟨h.start, fun _ => h.started hstate, h.read, by simp⟩
  · contradiction

section Steps

variable [DecidableEq T] [∀ t, Inhabited (Value t)]

theorem Control.onCompletionEvent {s : Session Value Sub} (h : Control s)
    (hpc : s.receiver = .event) : Control s.onCompletionEvent.2 := by
  have hstart := h.event hpc
  unfold Session.onCompletionEvent
  split <;> rename_i hstate
  · split
    · constructor
      case start => simp [Session.startRead, hstart]
      case event => simp [Session.startRead, hstart]
      case read => simp
      case finish =>
        intro hpend
        have hend := h.finish hpend
        simp [hstate] at hend
    · exact h
  · split
    · have hend : s.finishPending = false := by
        by_contra hpend
        have hend := h.finish (by simpa using hpend)
        simp [hstate] at hend
      by_cases hhandler : s.handler = true
      · constructor <;> simp [Session.startRead, Session.handle, hhandler, hstart, hend]
      · constructor <;> simp [Session.startRead, Session.handle, hhandler, hstart, hend]
    · exact h
  · constructor
    case start => simp [hstart]
    case event => simp [hstart]
    case read => simp
    case finish => simp
  · exact h

theorem Control.step {s s' : Session Value Sub} {l : SessionLabel} (h : Control s)
    (hs : s.step l = some s') : Control s' := by
  cases l with
  | complete c => exact h.complete hs
  | receiver =>
      simp only [Session.step, Session.receiverStep] at hs
      split at hs <;> rename_i hpc
      · -- the event
        have hafter := h.onCompletionEvent hpc
        split at hs <;> rename_i heq <;> simp only [Option.some.injEq] at hs <;> subst hs <;>
          rw [heq] at hafter
        · exact ⟨hafter.start, by simp, hafter.read, hafter.finish⟩
        · exact ⟨hafter.start, by simp, hafter.read, hafter.finish⟩
      · -- the end of the loop
        simp only [Option.some.injEq] at hs
        subst hs
        have hafter := h.tryCancelCallAndShutdown
        exact ⟨hafter.start, by simp, hafter.read, hafter.finish⟩
      · contradiction
  | drained =>
      simp only [Session.step] at hs
      split at hs <;> simp only [Option.some.injEq, reduceCtorEq] at hs
      subst hs
      exact ⟨h.start, by simp, h.read, h.finish⟩
  | stop =>
      have hafter := h.tryCancelCallAndShutdown
      simp only [Session.step, Session.stopStep] at hs
      split at hs <;> (try split at hs) <;>
        simp only [Option.some.injEq, reduceCtorEq] at hs <;> subst hs
      · exact ⟨hafter.start, hafter.event, hafter.read, hafter.finish⟩
      · exact ⟨h.start, h.event, h.read, h.finish⟩
      · exact ⟨h.start, h.event, h.read, h.finish⟩
  | register handler =>
      simp only [Session.step, Option.some.injEq] at hs
      subst hs
      exact ⟨h.start, h.event, h.read, h.finish⟩

/-- Only the receive thread handles a message, and nothing replaces it before. -/
theorem Control.unread {s s' : Session Value Sub} {l : SessionLabel} (h : Control s)
    (hs : s.step l = some s') (hunread : s'.Unread) :
    s.Unread ∧ s'.msg = s.msg ∧ s'.seen = s.seen := by
  rcases hunread with ⟨hpc, hstate⟩
  cases l with
  | complete c =>
      simp only [Session.step, Session.complete] at hs
      split at hs
      · -- the event of the start comes in the first state
        split at hs <;> simp only [Option.some.injEq, reduceCtorEq] at hs
        rename_i hpend
        subst hs
        have hfirst := h.start hpend
        simp [hfirst] at hstate
      · split at hs <;> simp only [Option.some.injEq, reduceCtorEq] at hs
        subst hs
        contradiction
      · -- the event of the end comes in the last states
        split at hs <;> simp only [Option.some.injEq, reduceCtorEq] at hs
        rename_i hpend
        subst hs
        rcases h.finish hpend with hlast | hlast <;> simp [hlast] at hstate
      · contradiction
  | receiver =>
      simp only [Session.step, Session.receiverStep] at hs
      split at hs <;> (try split at hs) <;>
        simp only [Option.some.injEq, reduceCtorEq] at hs <;> subst hs <;> simp at hpc
  | drained =>
      simp only [Session.step] at hs
      split at hs <;> simp only [Option.some.injEq, reduceCtorEq] at hs
      subst hs
      simp at hpc
  | stop =>
      simp only [Session.step, Session.stopStep] at hs
      split at hs <;> (try split at hs) <;>
        simp only [Option.some.injEq, reduceCtorEq] at hs <;> subst hs
      · -- the state after `TryCancelCallAndShutdown` is one of the others
        unfold Session.tryCancelCallAndShutdown at hstate
        split at hstate <;> simp_all
      · exact ⟨⟨hpc, hstate⟩, rfl, rfl⟩
      · exact ⟨⟨hpc, hstate⟩, rfl, rfl⟩
  | register handler =>
      simp only [Session.step, Option.some.injEq] at hs
      subst hs
      exact ⟨⟨hpc, hstate⟩, rfl, rfl⟩

end Steps

/-! ## Operations that are started in time -/

/-- The queue is shut down from the join on. -/
def Session.ShutsDown (s : Session Value Sub) : Prop :=
  s.cqShutdown = true ↔ s.stopper = .join ∨ s.stopper = .stopped

/-- Nothing was started late, and the call had started before `Stop` cancelled it. -/
def Session.InTime (s : Session Value Sub) : Prop :=
  s.misused = false ∧ (s.callState = .waitFinish ∨ s.callState = .finished ∨
    s.stopper = .idle ∧ s.callState ≠ .waitStart)

instance decidableInTime (s : Session Value Sub) : Decidable s.InTime :=
  inferInstanceAs (Decidable (_ ∧ (_ ∨ _ ∨ _)))

/-- Before `Stop` the queue takes operations. -/
theorem Session.ShutsDown.idle {s : Session Value Sub} (h : s.ShutsDown)
    (hidle : s.stopper = .idle) : s.cqShutdown = false := by
  have hopen : ¬s.cqShutdown = true := by
    unfold Session.ShutsDown at h
    simp [h, hidle]
  simpa using hopen

theorem tryCancelCallAndShutdown_cqShutdown (s : Session Value Sub) :
    s.tryCancelCallAndShutdown.cqShutdown = s.cqShutdown := by
  unfold Session.tryCancelCallAndShutdown
  split <;> rfl

theorem tryCancelCallAndShutdown_stopper (s : Session Value Sub) :
    s.tryCancelCallAndShutdown.stopper = s.stopper := by
  unfold Session.tryCancelCallAndShutdown
  split <;> rfl

/-- `TryCancelCallAndShutdown` starts `Finish` in time. -/
theorem Session.InTime.tryCancelCallAndShutdown {s : Session Value Sub} (h : s.InTime)
    (hdown : s.ShutsDown) : s.tryCancelCallAndShutdown.misused = false ∧
      (s.tryCancelCallAndShutdown.callState = .waitFinish ∨
        s.tryCancelCallAndShutdown.callState = .finished) := by
  rcases h with ⟨hused, hend | hend | ⟨hidle, hstarted⟩⟩
  · simp [Session.tryCancelCallAndShutdown, hend, hused]
  · simp [Session.tryCancelCallAndShutdown, hend, hused]
  · have hopen := hdown.idle hidle
    unfold Session.tryCancelCallAndShutdown
    split
    · simp [Session.startFinish, hused, hopen]
    · rename_i hlast
      refine ⟨hused, ?_⟩
      by_cases hfinish : s.callState = .waitFinish
      · exact Or.inl hfinish
      · right
        by_contra hnot
        exact hlast ⟨hstarted, hfinish, hnot⟩

theorem Session.ShutsDown.receive {s s' : Session Value Sub} {msg : Any Value}
    (h : s.ShutsDown) (hs : s.receive msg = some s') : s'.ShutsDown := by
  unfold Session.receive at hs
  split at hs <;> simp only [Option.some.injEq, reduceCtorEq] at hs
  subst hs
  exact h

theorem Session.InTime.receive {s s' : Session Value Sub} {msg : Any Value} (h : s.InTime)
    (hs : s.receive msg = some s') : s'.InTime := by
  unfold Session.receive at hs
  split at hs <;> simp only [Option.some.injEq, reduceCtorEq] at hs
  subst hs
  exact h

section InTime

variable [DecidableEq T] [∀ t, Inhabited (Value t)]

theorem onCompletionEvent_stopper (s : Session Value Sub) :
    s.onCompletionEvent.2.stopper = s.stopper := by
  unfold Session.onCompletionEvent Session.handle
  split <;> (try split) <;> (try split) <;> rfl

theorem onCompletionEvent_cqShutdown (s : Session Value Sub) :
    s.onCompletionEvent.2.cqShutdown = s.cqShutdown := by
  unfold Session.onCompletionEvent Session.handle
  split <;> (try split) <;> (try split) <;> rfl

theorem Session.ShutsDown.step {s s' : Session Value Sub} {l : SessionLabel} (h : s.ShutsDown)
    (hs : s.step l = some s') : s'.ShutsDown := by
  unfold Session.ShutsDown at *
  cases l with
  | complete c =>
      simp only [Session.step, Session.complete] at hs
      split at hs <;> (try split at hs) <;>
        simp only [Option.some.injEq, reduceCtorEq] at hs <;> subst hs <;> exact h
  | receiver =>
      simp only [Session.step, Session.receiverStep] at hs
      split at hs
      · rw [← onCompletionEvent_stopper, ← onCompletionEvent_cqShutdown] at h
        split at hs <;> rename_i heq <;> simp only [Option.some.injEq] at hs <;> subst hs <;>
          rw [heq] at h <;> exact h
      · rw [← tryCancelCallAndShutdown_stopper, ← tryCancelCallAndShutdown_cqShutdown] at h
        simp only [Option.some.injEq] at hs
        subst hs
        exact h
      · contradiction
  | drained =>
      simp only [Session.step] at hs
      split at hs <;> simp only [Option.some.injEq, reduceCtorEq] at hs
      subst hs
      exact h
  | stop =>
      simp only [Session.step, Session.stopStep] at hs
      split at hs <;> rename_i hpc
      · simp only [Option.some.injEq] at hs
        subst hs
        simpa [tryCancelCallAndShutdown_cqShutdown, hpc] using h
      · simp only [Option.some.injEq] at hs
        subst hs
        simp
      · split at hs <;> simp only [Option.some.injEq, reduceCtorEq] at hs
        subst hs
        simpa [hpc] using h
      · contradiction
  | register handler =>
      simp only [Session.step, Option.some.injEq] at hs
      subst hs
      exact h

/-- An event starts a read only before `Stop`. -/
theorem Session.InTime.onCompletionEvent {s : Session Value Sub} (h : s.InTime)
    (hdown : s.ShutsDown) : s.onCompletionEvent.2.InTime := by
  rcases h with ⟨hused, hstate⟩
  unfold Session.onCompletionEvent
  split <;> rename_i hcall
  · simp [hcall] at hstate
  · have hidle : s.stopper = .idle := by simpa [hcall] using hstate
    have hopen := hdown.idle hidle
    split
    · by_cases hhandler : s.handler = true
      · simp [Session.InTime, Session.startRead, Session.handle, hhandler, hused, hopen, hidle]
      · simp [Session.InTime, Session.startRead, Session.handle, hhandler, hused, hopen, hidle]
    · exact ⟨hused, hstate⟩
  · exact ⟨hused, Or.inr (Or.inl rfl)⟩
  · exact ⟨hused, hstate⟩

/-- No step starts an operation late. -/
theorem Session.InTime.step {s s' : Session Value Sub} {l : SessionLabel} (h : s.InTime)
    (hdown : s.ShutsDown) (hs : s.step l = some s') : s'.InTime := by
  have hcancel := h.tryCancelCallAndShutdown hdown
  cases l with
  | complete c =>
      simp only [Session.step, Session.complete] at hs
      split at hs <;> (try split at hs) <;>
        simp only [Option.some.injEq, reduceCtorEq] at hs <;> subst hs <;> exact h
  | receiver =>
      simp only [Session.step, Session.receiverStep] at hs
      split at hs
      · have hevent := h.onCompletionEvent hdown
        split at hs <;> rename_i heq <;> simp only [Option.some.injEq] at hs <;> subst hs <;>
          rw [heq] at hevent <;> exact hevent
      · simp only [Option.some.injEq] at hs
        subst hs
        exact ⟨hcancel.1, hcancel.2.imp_right Or.inl⟩
      · contradiction
  | drained =>
      simp only [Session.step] at hs
      split at hs <;> simp only [Option.some.injEq, reduceCtorEq] at hs
      subst hs
      exact h
  | stop =>
      rcases h with ⟨hused, hstate⟩
      simp only [Session.step, Session.stopStep] at hs
      split at hs <;> rename_i hpc
      · simp only [Option.some.injEq] at hs
        subst hs
        exact ⟨hcancel.1, hcancel.2.imp_right Or.inl⟩
      · simp only [Option.some.injEq] at hs
        subst hs
        exact ⟨hused, by simpa [hpc] using hstate⟩
      · split at hs <;> simp only [Option.some.injEq, reduceCtorEq] at hs
        subst hs
        exact ⟨hused, by simpa [hpc] using hstate⟩
      · contradiction
  | register handler =>
      simp only [Session.step, Option.some.injEq] at hs
      subst hs
      exact h

end InTime

end Subscriber
end DAQ
end DtCore
