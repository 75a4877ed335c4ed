import DtCore.Foundation.StepSystem
import DtCore.Foundation.DropOldest

/-!
# A session of the gRPC state publisher

A `StatePublisherGrpc::Session` streams the published messages to one client.
`Publish` may be called from any thread and works under `_proc_mtx`.  The
dispatcher thread calls `OnCompletionEvent` for each completion that gRPC
delivers; it tests `_call_state` before it locks the mutex.  A canceller runs
`TryCancelCallAndShutdown`, which tests the state outside the mutex as well.
Every test, every locked access and every call into gRPC is a step of its own.

gRPC is the environment: it delivers one completion for the connection request
and one for each write, after the operation was issued and while the dispatcher
waits in `Next`.  A message is published when its `Publish` call writes it,
queues it or gives it up; the fields `connected`, `published`, `written` and
`queued` are history that no step tests.

Main definitions:

- `State.publishStep`: the accesses of `Publish`.
- `State.eventStep`: the accesses of `OnCompletionEvent`.
- `State.cancelStep`: the accesses of `TryCancelCallAndShutdown`.
-/

namespace DtCore
namespace DAQ
namespace Publisher

open Foundation

variable {P K Msg : Type}

/-! ## Program counters -/

/-- `Session::CallState`. -/
inductive CallState where
  | waitConnect
  | readyToWrite
  | waitWriteDone
  | waitFinish
  | finished
  | peerDisconnected
deriving DecidableEq, Repr

/-- What a `Publish` call does next. -/
inductive PublishPc (Msg : Type) where
  | idle
  | lock (msg : Msg)
  | testState (msg : Msg)
  | enqueue (msg : Msg)
  | storeWait (msg : Msg)
  | write (msg : Msg)
  | unlock

/-- What the dispatcher thread does next. -/
inductive EventPc where
  | next
  | testConnect
  | testWriteDone
  | testFinish
  | addSession
  | lockConnect
  | storeConnected
  | lockWriteDone
  | testQueue
  | storeWait
  | writeFront
  | popFront
  | storeReady
  | unlock
  | removeSession
deriving DecidableEq

/-- What a `TryCancelCallAndShutdown` call does next. -/
inductive CancelPc where
  | idle
  | testConnect
  | testFinish
  | testFinished
  | tryCancel
  | lock
  | storeFinished
  | unlock
deriving DecidableEq

/-- A thread that may hold `_proc_mtx`. -/
inductive Owner (P K : Type) where
  | publisher (p : P)
  | dispatcher
  | canceller (k : K)

/-- An operation that gRPC completes. -/
inductive Operation where
  | connect
  | write

/-! ## The state -/

/-- The members of a session and where every thread stands.  `outstanding` is the
number of writes whose completion was not delivered. -/
structure State (P K Msg : Type) where
  callState : CallState
  msgQueue : List (Numbered Msg)
  procMtx : Option (Owner P K)
  connectPending : Bool
  outstanding : Nat
  publishers : P → PublishPc Msg
  dispatcher : EventPc
  cancellers : K → CancelPc
  connected : Bool
  published : List Msg
  written : List (Numbered Msg)
  queued : List Nat

/-- After the constructor: the connection request is issued. -/
def initial : State P K Msg where
  callState := .waitConnect
  msgQueue := []
  procMtx := none
  connectPending := true
  outstanding := 0
  publishers _ := .idle
  dispatcher := .next
  cancellers _ := .idle
  connected := false
  published := []
  written := []
  queued := []

/-- Move one `Publish` call on. -/
def State.setPublisher [DecidableEq P] (s : State P K Msg) (p : P) (pc : PublishPc Msg) :
    State P K Msg :=
  { s with publishers := Function.update s.publishers p pc }

/-- Move one canceller on. -/
def State.setCanceller [DecidableEq K] (s : State P K Msg) (k : K) (pc : CancelPc) :
    State P K Msg :=
  { s with cancellers := Function.update s.cancellers k pc }

/-- The next published message with its number. -/
def State.number (s : State P K Msg) (msg : Msg) : Numbered Msg :=
  { seq := s.published.length, msg := msg }

/-! ## `Publish` -/

/-- Enter `Publish(msg)`. -/
def State.enterPublish [DecidableEq P] (s : State P K Msg) (p : P) (msg : Msg) :
    Option (State P K Msg) :=
  match s.publishers p with
  | .idle => some (s.setPublisher p (.lock msg))
  | _ => none

/-- `_msg_queue` without its oldest message if it is full. -/
def makeRoom (queueSize : Int) (queue : List (Numbered Msg)) : List (Numbered Msg) :=
  if queueSize > 0 ∧ (queue.length : Int) ≥ queueSize then queue.tail else queue

/-- The next access of a `Publish` call. -/
def State.publishStep [DecidableEq P] (queueSize : Int) (s : State P K Msg) (p : P) :
    Option (State P K Msg) :=
  match s.publishers p with
  | .idle => none
  | .lock msg =>
      match s.procMtx with
      | none => some { s.setPublisher p (.testState msg) with procMtx := some (.publisher p) }
      | some _ => none
  | .testState msg =>
      match s.callState with
      | .waitWriteDone => some (s.setPublisher p (.enqueue msg))
      | .readyToWrite => some (s.setPublisher p (.storeWait msg))
      | _ =>
          -- neither queued nor written: lost if the client was connected
          some { s.setPublisher p .unlock with
            published := if s.connected then s.published ++ [msg] else s.published }
  | .enqueue msg =>
      if queueSize = 0 then
        some { s.setPublisher p .unlock with published := s.published ++ [msg] }
      else
        some { s.setPublisher p .unlock with
          msgQueue := makeRoom queueSize s.msgQueue ++ [s.number msg]
          published := s.published ++ [msg]
          queued := s.queued ++ [s.published.length] }
  | .storeWait msg => some { s.setPublisher p (.write msg) with callState := .waitWriteDone }
  | .write msg =>
      some { s.setPublisher p .unlock with
        outstanding := s.outstanding + 1
        published := s.published ++ [msg]
        written := s.written ++ [s.number msg] }
  | .unlock => some { s.setPublisher p .idle with procMtx := none }

/-! ## `OnCompletionEvent` -/

/-- gRPC delivers a successful completion to the waiting dispatcher. -/
def State.deliver (s : State P K Msg) (op : Operation) : Option (State P K Msg) :=
  match s.dispatcher, op with
  | .next, .connect =>
      if s.connectPending then
        some { s with connectPending := false, dispatcher := .testConnect }
      else none
  | .next, .write =>
      if 0 < s.outstanding then
        some { s with outstanding := s.outstanding - 1, dispatcher := .testConnect }
      else none
  | _, _ => none

/-- The next access of the dispatcher inside `OnCompletionEvent`. -/
def State.eventStep (s : State P K Msg) : Option (State P K Msg) :=
  match s.dispatcher with
  | .next => none
  | .testConnect =>
      some { s with
        dispatcher := if s.callState = .waitConnect then .addSession else .testWriteDone }
  | .testWriteDone =>
      some { s with
        dispatcher := if s.callState = .waitWriteDone then .lockWriteDone else .testFinish }
  | .testFinish =>
      some { s with dispatcher := if s.callState = .waitFinish then .removeSession else .next }
  | .addSession => some { s with dispatcher := .lockConnect }
  | .lockConnect =>
      match s.procMtx with
      | none => some { s with procMtx := some .dispatcher, dispatcher := .storeConnected }
      | some _ => none
  | .storeConnected =>
      some { s with callState := .readyToWrite, connected := true, dispatcher := .unlock }
  | .lockWriteDone =>
      match s.procMtx with
      | none => some { s with procMtx := some .dispatcher, dispatcher := .testQueue }
      | some _ => none
  | .testQueue =>
      match s.msgQueue with
      | [] => some { s with dispatcher := .storeReady }
      | _ :: _ => some { s with dispatcher := .storeWait }
  | .storeWait => some { s with callState := .waitWriteDone, dispatcher := .writeFront }
  | .writeFront =>
      match s.msgQueue with
      | [] => none
      | x :: _ =>
          some { s with
            outstanding := s.outstanding + 1
            written := s.written ++ [x]
            dispatcher := .popFront }
  | .popFront => some { s with msgQueue := s.msgQueue.tail, dispatcher := .unlock }
  | .storeReady => some { s with callState := .readyToWrite, dispatcher := .unlock }
  | .unlock => some { s with procMtx := none, dispatcher := .next }
  | .removeSession => some { s with dispatcher := .next }

/-! ## `TryCancelCallAndShutdown` -/

/-- The next access of a canceller; a canceller between calls starts the next
one. -/
def State.cancelStep [DecidableEq K] (s : State P K Msg) (k : K) : Option (State P K Msg) :=
  match s.cancellers k with
  | .idle => some (s.setCanceller k .testConnect)
  | .testConnect =>
      some (s.setCanceller k (if s.callState ≠ .waitConnect then .testFinish else .idle))
  | .testFinish =>
      some (s.setCanceller k (if s.callState ≠ .waitFinish then .testFinished else .idle))
  | .testFinished =>
      some (s.setCanceller k (if s.callState ≠ .finished then .tryCancel else .idle))
  | .tryCancel => some (s.setCanceller k .lock)
  | .lock =>
      match s.procMtx with
      | none => some { s.setCanceller k .storeFinished with procMtx := some (.canceller k) }
      | some _ => none
  | .storeFinished => some { s.setCanceller k .unlock with callState := .finished }
  | .unlock => some { s.setCanceller k .idle with procMtx := none }

/-! ## All threads -/

/-- Which thread moves. -/
inductive Label (P K Msg : Type) where
  | publish (p : P) (msg : Msg)
  | publisher (p : P)
  | deliver (op : Operation)
  | event
  | cancel (k : K)

/-- The step function of a session with its threads. -/
def step [DecidableEq P] [DecidableEq K] (queueSize : Int) (s : State P K Msg) :
    Label P K Msg → Option (State P K Msg)
  | .publish p msg => s.enterPublish p msg
  | .publisher p => s.publishStep queueSize p
  | .deliver op => s.deliver op
  | .event => s.eventStep
  | .cancel k => s.cancelStep k

/-- The call is never cancelled. -/
def NeverCancelled (_ : State P K Msg) : Label P K Msg → Prop
  | .cancel _ => False
  | _ => True

instance decidableNeverCancelled (s : State P K Msg) :
    (l : Label P K Msg) → Decidable (NeverCancelled s l)
  | .cancel _ => inferInstanceAs (Decidable False)
  | .publish _ _ => inferInstanceAs (Decidable True)
  | .publisher _ => inferInstanceAs (Decidable True)
  | .deliver _ => inferInstanceAs (Decidable True)
  | .event => inferInstanceAs (Decidable True)

end Publisher
end DAQ
end DtCore
