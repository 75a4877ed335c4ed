import DtCore.Foundation.StepSystem
import Mathlib.Tactic

/-!
# The service listener

`ServiceListenerGrpc` owns a gRPC server with its completion queue, a dispatcher
thread and the map of its sessions.  Every session serves one call: its constructor
requests a call of its method from gRPC; when a call is matched with the request,
`OnCompletionEvent` adds a session of the same class for the next call, answers with
`Finish`, and returns `false` when that has completed, upon which the dispatcher
erases the session from the map.  `Stop` cancels what runs, shuts the server down,
waits for its calls, shuts the queue down and joins the dispatcher.

The handlers of the classes `OnControlCmd` and `OnQueryRobotInfo` differ in the
method and the response only, which `Api` lists.  Every access of the map, of a
call state and of gRPC is a step of its own.  gRPC holds at most one operation of a
session; `ready` is a completion that the queue holds.  The shared pointer of a
session is held by the map and by the `AddSession` that makes it, while the tag of
an operation is a plain pointer.

Main definitions:

- `onCompletionEvent`: what a handler does with a completion.
- `State.addStep`, `State.eventStep`, `State.stopStep`: `AddSession`, the dispatcher
  and `Stop`.
- `step`: one step of a thread or of gRPC.

Main results:

- Theorem `step_moves`: everything that a step can do.
-/

namespace DtCore
namespace DAQ
namespace Service
namespace Listener

open Foundation

universe u v w x

variable {T : Type u} {M : Type v} {C : Type w} {R : Type x}

/-! ## Sessions -/

/-- `Session::CallState`. -/
inductive CallState where
  | waitConnect
  | readyToRead
  | waitReadDone
  | readyToWrite
  | waitWriteDone
  | waitFinish
  | finished
  | peerDisconnected
deriving DecidableEq, Repr

/-- The operation of a session that gRPC holds: the request for a call, the answer
to it, or the completion of one of them. -/
inductive Rpc where
  | idle
  | connecting
  | finishing
  | ready (ok : Bool)
deriving DecidableEq, Repr

/-- The status of an answer. -/
inductive Status where
  | ok
  | cancelled
deriving DecidableEq, Repr

/-- A session object: its class, its members and its operation.  `request` is the
call that was matched with it. -/
structure Session (M : Type v) (C : Type w) where
  method : M
  callState : CallState
  rpc : Rpc
  request : Option C
deriving DecidableEq

/-- A session as its constructor leaves it, before it requests a call. -/
def Session.constructed (m : M) : Session M C where
  method := m
  callState := .waitConnect
  rpc := .idle
  request := none

/-- The service: the method of each call, the response that the handler of a method fills
in, and that response as it is constructed. -/
structure Api (M : Type v) (C : Type w) (R : Type x) where
  method : C → M
  response : M → R
  blank : M → R

/-- The methods of `dtService` that have a handler. -/
inductive Method where
  | command
  | requestRobotInfo
deriving DecidableEq, Repr

/-- Their responses, `std_msgs::Response` and `robot_msgs::RobotInfo`. -/
inductive Response where
  | response (rtn : Int) (msg : String)
  | robotInfo (name version author description serial : String) (type id dof : Int)
deriving DecidableEq, Repr

/-- Calls, told apart by a number. -/
abbrev Call := Method × Nat

/-- `OnControlCmd` and `OnQueryRobotInfo`. -/
def dtService : Api Method Call Response where
  method := Prod.fst
  response
    | .command => .response 0 "success"
    | .requestRobotInfo => .robotInfo "QuadIP" "v0.1" "HMC" "" "HMC-8-001" 8 1 12
  blank
    | .command => .response 0 ""
    | .requestRobotInfo => .robotInfo "" "" "" "" "" 0 0 0

/-- What a handler does with a completion. -/
inductive Reaction where
  | returns (handled : Bool)
  | accept
  | cancel
deriving DecidableEq, Repr

/-- `OnCompletionEvent` of the handlers.  A state that no handler knows is asserted
not to occur. -/
def onCompletionEvent (callState : CallState) (ok : Bool) : Reaction :=
  if callState = .finished then .returns true
  else if callState = .waitFinish then .returns false
  else if ok = true then
    if callState = .waitConnect then .accept else .returns false
  else
    if callState = .waitConnect then .returns false else .cancel

/-- Whether `TryCancelCallAndShutdown` cancels a call in this state. -/
def CallState.cancels (callState : CallState) : Prop :=
  callState ≠ .waitConnect ∧ callState ≠ .waitFinish ∧ callState ≠ .finished

instance (callState : CallState) : Decidable callState.cancels :=
  inferInstanceAs (Decidable (_ ∧ _ ∧ _))

/-- `TryCancelCallAndShutdown`. -/
def Session.tryCancelCallAndShutdown (t : Session M C) : Session M C :=
  if t.callState.cancels then { t with callState := .finished } else t

/-! ## Program counters -/

/-- Who runs `AddSession`: a user thread, or the dispatcher inside a handler. -/
inductive Starter (T : Type u) where
  | user (t : T)
  | handler
deriving DecidableEq

/-- What an `AddSession` does next. -/
inductive AddPc (M : Type v) where
  | idle
  | construct (m : M)
  | request (id : Nat)
  | lock (id : Nat)
  | insert (id : Nat)
  | unlock (id : Nat)
deriving DecidableEq

/-- What the dispatcher does next. -/
inductive EventPc where
  | next
  | handle (id : Nat) (ok : Bool)
  | adding (id : Nat)
  | respond (id : Nat)
  | finish (id : Nat)
  | shutdown (id : Nat)
  | lock (id : Nat)
  | erase (id : Nat)
  | unlock
  | exited
deriving DecidableEq

/-- What `Stop` does next. -/
inductive StopPc where
  | idle
  | lock
  | visit (rest : List Nat)
  | running
  | server
  | wait
  | queue
  | join
  | drain
deriving DecidableEq

/-- A holder of `_session_list_mtx`. -/
inductive Owner (T : Type u) where
  | starter (c : Starter T)
  | dispatcher
  | stopper
deriving DecidableEq

/-! ## The state -/

/-- The listener, its threads and its sessions, numbered from one.  History: `added`
lists the methods that user threads requested a call for, `accepted` the calls that
were matched with a request, `answers` those that were finished; `misused` says that
an operation was started after the queue had been shut down. -/
structure State (T : Type u) (M : Type v) (C : Type w) (R : Type x) where
  allocated : Nat
  session : Nat → Option (Session M C)
  sessions : List Nat
  sessionListMtx : Option (Owner T)
  starters : Starter T → AddPc M
  dispatcher : EventPc
  stopper : StopPc
  running : Bool
  serverShutdown : Bool
  cqShutdown : Bool
  joined : Bool
  added : List M
  accepted : List C
  answers : List (C × Status × R)
  misused : Bool

/-- The constructor with its call of `Run`. -/
def State.initial : State T M C R where
  allocated := 0
  session _ := none
  sessions := []
  sessionListMtx := none
  starters _ := .idle
  dispatcher := .next
  stopper := .idle
  running := true
  serverShutdown := false
  cqShutdown := false
  joined := false
  added := []
  accepted := []
  answers := []
  misused := false

/-- Change one session. -/
def State.setSession (s : State T M C R) (id : Nat) (t : Session M C) : State T M C R :=
  { s with session := Function.update s.session id (some t) }

/-- Move one `AddSession` on. -/
def State.setStarter [DecidableEq T] (s : State T M C R) (c : Starter T) (pc : AddPc M) :
    State T M C R :=
  { s with starters := Function.update s.starters c pc }

/-- Start an operation of a session, which the queue must not have been shut down for. -/
def State.start (s : State T M C R) (id : Nat) (t : Session M C) (rpc : Rpc) :
    State T M C R :=
  if s.cqShutdown = true then { s.setSession id t with misused := true }
  else s.setSession id { t with rpc := rpc }

/-- `Finish`: the answer to the call of a session. -/
def State.finishCall (s : State T M C R) (id : Nat) (t : Session M C) (status : Status)
    (response : R) : State T M C R :=
  { s.start id t .finishing with
    answers := s.answers ++ t.request.toList.map (fun call => (call, status, response)) }

/-- gRPC holds no operation and no completion. -/
def State.Drained (s : State T M C R) : Prop :=
  ∀ id ≤ s.allocated, ∀ t, s.session id = some t → t.rpc = .idle

/-- Every accepted call was answered. -/
def State.Settled (s : State T M C R) : Prop :=
  ∀ call ∈ s.accepted, call ∈ s.answers.map Prod.fst

/-- gRPC holds nothing for this entry of the sessions. -/
def quiet : Option (Session M C) → Bool
  | none => true
  | some t => decide (t.rpc = .idle)

theorem drained_iff (s : State T M C R) :
    ((List.range (s.allocated + 1)).all fun id => quiet (s.session id)) = true ↔ s.Drained := by
  rw [List.all_eq_true]
  constructor
  · intro h id hid t ht
    have hquiet := h id (List.mem_range.mpr (Nat.lt_succ_of_le hid))
    simpa [ht, quiet] using hquiet
  · intro h id hid
    cases ht : s.session id with
    | none => rfl
    | some t => simpa [quiet] using h id (Nat.le_of_lt_succ (List.mem_range.mp hid)) t ht

instance decidableDrained (s : State T M C R) : Decidable s.Drained :=
  decidable_of_iff _ (drained_iff s)

instance decidableSettled [DecidableEq C] (s : State T M C R) : Decidable s.Settled :=
  inferInstanceAs (Decidable (∀ call ∈ s.accepted, call ∈ s.answers.map Prod.fst))

/-- The methods that user threads requested a call for. -/
def Starter.adds (c : Starter T) (m : M) (added : List M) : List M :=
  match c with
  | .user _ => m :: added
  | .handler => added

/-! ## `AddSession` -/

/-- A user thread enters `AddSession`. -/
def State.enterAdd [DecidableEq T] (s : State T M C R) (t : T) (m : M) :
    Option (State T M C R) :=
  match s.starters (.user t) with
  | .idle => some (s.setStarter (.user t) (.construct m))
  | _ => none

/-- The next access of an `AddSession`. -/
def State.addStep [DecidableEq T] (s : State T M C R) (c : Starter T) :
    Option (State T M C R) :=
  match s.starters c with
  | .idle => none
  | .construct m =>
      -- `AllocSessionId`
      let id := (s.allocated + 1) % 2 ^ 64
      some { (s.setSession id (.constructed m)).setStarter c (.request id) with
        allocated := id }
  | .request id =>
      match s.session id with
      | none => none
      | some t =>
          some { (s.start id t .connecting).setStarter c (.lock id) with
            added := c.adds t.method s.added }
  | .lock id =>
      match s.sessionListMtx with
      | none => some { s.setStarter c (.insert id) with sessionListMtx := some (.starter c) }
      | some _ => none
  | .insert id =>
      some { s.setStarter c (.unlock id) with sessions := s.sessions.insert id }
  | .unlock _ => some { s.setStarter c .idle with sessionListMtx := none }

/-! ## gRPC -/

/-- A call is matched with the request of a session. -/
def State.arrives [DecidableEq M] [DecidableEq C] (api : Api M C R) (s : State T M C R)
    (id : Nat) (call : C) : Option (State T M C R) :=
  match s.session id with
  | none => none
  | some t =>
      if t.rpc = .connecting ∧ s.serverShutdown = false ∧ api.method call = t.method ∧
          call ∉ s.accepted then
        some { s.setSession id { t with rpc := .ready true, request := some call } with
          accepted := call :: s.accepted }
      else none

/-- An operation completes: an answer at any time, a request without a call when the
server is shut down. -/
def State.completes (s : State T M C R) (id : Nat) (ok : Bool) : Option (State T M C R) :=
  match s.session id with
  | none => none
  | some t =>
      if t.rpc = .finishing ∨ (t.rpc = .connecting ∧ s.serverShutdown = true ∧ ok = false) then
        some (s.setSession id { t with rpc := .ready ok })
      else none

/-- `Next` hands a completion to the dispatcher. -/
def State.next (s : State T M C R) (id : Nat) : Option (State T M C R) :=
  match s.dispatcher, s.session id with
  | .next, some t =>
      match t.rpc with
      | .ready ok =>
          some { s.setSession id { t with rpc := .idle } with dispatcher := .handle id ok }
      | _ => none
  | _, _ => none

/-! ## The dispatcher -/

/-- The next access of the dispatcher after `Next` returned a tag. -/
def State.eventStep [DecidableEq T] (api : Api M C R) (s : State T M C R) :
    Option (State T M C R) :=
  match s.dispatcher with
  | .next | .exited => none
  | .handle id ok =>
      match s.session id with
      | none => none
      | some t =>
          match onCompletionEvent t.callState ok with
          | .returns true => some { s with dispatcher := .next }
          | .returns false => some { s with dispatcher := .shutdown id }
          | .accept =>
              some { s.setStarter .handler (.construct t.method) with
                dispatcher := .adding id }
          | .cancel =>
              some { s.finishCall id { t with callState := .waitFinish } .cancelled (api.blank t.method) with
                dispatcher := .next }
  | .adding id =>
      match s.starters .handler with
      | .idle => some { s with dispatcher := .respond id }
      | _ => none
  | .respond id =>
      match s.session id with
      | none => none
      | some t =>
          some { s.setSession id { t with callState := .waitFinish } with
            dispatcher := .finish id }
  | .finish id =>
      match s.session id with
      | none => none
      | some t =>
          some { s.finishCall id t .ok (api.response t.method) with dispatcher := .next }
  | .shutdown id =>
      match s.session id with
      | none => none
      | some t =>
          some { s.setSession id t.tryCancelCallAndShutdown with dispatcher := .lock id }
  | .lock id =>
      match s.sessionListMtx with
      | none => some { s with sessionListMtx := some .dispatcher, dispatcher := .erase id }
      | some _ => none
  | .erase id =>
      some { s with sessions := s.sessions.filter (· ≠ id), dispatcher := .unlock }
  | .unlock => some { s with sessionListMtx := none, dispatcher := .next }

/-- `Next` returns `false`: the queue was shut down and is empty. -/
def State.exit (s : State T M C R) : Option (State T M C R) :=
  match s.dispatcher with
  | .next => if s.cqShutdown = true ∧ s.Drained then some { s with dispatcher := .exited } else none
  | _ => none

/-! ## `Stop` -/

/-- Enter `Stop`. -/
def State.enterStop (s : State T M C R) : Option (State T M C R) :=
  match s.stopper with
  | .idle => some { s with stopper := .lock }
  | _ => none

/-- `TryCancelCallAndShutdown` of `Stop`, which waits for `_proc_mtx` of the session
if it has to cancel the call. -/
def State.visit (s : State T M C R) (id : Nat) (rest : List Nat) : Option (State T M C R) :=
  match s.session id with
  | none => none
  | some t =>
      if t.callState.cancels ∧ s.dispatcher = .finish id then none
      else some { s.setSession id t.tryCancelCallAndShutdown with stopper := .visit rest }

/-- The next access of `Stop`. -/
def State.stopStep [DecidableEq C] (s : State T M C R) : Option (State T M C R) :=
  match s.stopper with
  | .idle => none
  | .lock =>
      match s.sessionListMtx with
      | none => some { s with sessionListMtx := some .stopper, stopper := .visit s.sessions }
      | some _ => none
  | .visit (id :: rest) => s.visit id rest
  | .visit [] => some { s with sessionListMtx := none, stopper := .running }
  | .running => some { s with running := false, stopper := .server }
  | .server => some { s with serverShutdown := true, stopper := .wait }
  -- `Server::Shutdown` returns when all calls have been processed
  | .wait => if s.Settled then some { s with stopper := .queue } else none
  | .queue => some { s with cqShutdown := true, stopper := .join }
  | .join =>
      if s.joined = true ∨ s.dispatcher = .exited then
        some { s with joined := true, stopper := .drain }
      else none
  | .drain => if s.Drained then some { s with stopper := .idle } else none

/-- The loop at the end of `Stop` takes a completion that the dispatcher left. -/
def State.ignore (s : State T M C R) (id : Nat) : Option (State T M C R) :=
  match s.stopper, s.session id with
  | .drain, some t =>
      match t.rpc with
      | .ready _ => some (s.setSession id { t with rpc := .idle })
      | _ => none
  | _, _ => none

/-! ## Steps -/

/-- Who moves. -/
inductive Label (T : Type u) (M : Type v) (C : Type w) where
  | enterAdd (t : T) (m : M)
  | add (c : Starter T)
  | arrives (id : Nat) (call : C)
  | completes (id : Nat) (ok : Bool)
  | next (id : Nat)
  | event
  | exit
  | enterStop
  | stop
  | ignore (id : Nat)

/-- One step of the listener with its threads, or of gRPC. -/
def step [DecidableEq T] [DecidableEq M] [DecidableEq C] (api : Api M C R)
    (s : State T M C R) : Label T M C → Option (State T M C R)
  | .enterAdd t m => s.enterAdd t m
  | .add c => s.addStep c
  | .arrives id call => s.arrives api id call
  | .completes id ok => s.completes id ok
  | .next id => s.next id
  | .event => s.eventStep api
  | .exit => s.exit
  | .enterStop => s.enterStop
  | .stop => s.stopStep
  | .ignore id => s.ignore id

/-- Fewer than `2 ^ 64` sessions are made. -/
def Fresh (s : State T M C R) : Label T M C → Prop
  | .add c => (∃ m, s.starters c = .construct m) → s.allocated + 1 < 2 ^ 64
  | _ => True

/-- Whether an `AddSession` is about to make its session. -/
def AddPc.isConstruct : AddPc M → Bool
  | .construct _ => true
  | _ => false

instance decidableFresh (s : State T M C R) (l : Label T M C) : Decidable (Fresh s l) :=
  match l with
  | .add c => decidable_of_iff ((s.starters c).isConstruct = true → s.allocated + 1 < 2 ^ 64) (by
      have hiff : (s.starters c).isConstruct = true ↔ ∃ m, s.starters c = .construct m := by
        cases s.starters c <;> simp [AddPc.isConstruct]
      rw [hiff]
      rfl)
  | .enterAdd _ _ | .arrives _ _ | .completes _ _ | .next _ | .event | .exit | .enterStop
  | .stop | .ignore _ => isTrue trivial

/-! ## What a step can do -/

/-- The steps, with what each of them finds. -/
inductive Moves [DecidableEq T] [DecidableEq M] [DecidableEq C] (api : Api M C R)
    (s : State T M C R) : Label T M C → State T M C R → Prop where
  | enterAdd (t : T) (m : M) (hpc : s.starters (.user t) = .idle) :
      Moves api s (.enterAdd t m) (s.setStarter (.user t) (.construct m))
  | construct (c : Starter T) (m : M) (hpc : s.starters c = .construct m) :
      Moves api s (.add c)
        { (s.setSession ((s.allocated + 1) % 2 ^ 64) (.constructed m)).setStarter c
            (.request ((s.allocated + 1) % 2 ^ 64)) with
          allocated := (s.allocated + 1) % 2 ^ 64 }
  | request (c : Starter T) (id : Nat) (t : Session M C) (hpc : s.starters c = .request id)
      (ht : s.session id = some t) :
      Moves api s (.add c)
        { (s.start id t .connecting).setStarter c (.lock id) with
          added := c.adds t.method s.added }
  | lock (c : Starter T) (id : Nat) (hpc : s.starters c = .lock id)
      (hfree : s.sessionListMtx = none) :
      Moves api s (.add c)
        { s.setStarter c (.insert id) with sessionListMtx := some (.starter c) }
  | insert (c : Starter T) (id : Nat) (hpc : s.starters c = .insert id) :
      Moves api s (.add c)
        { s.setStarter c (.unlock id) with sessions := s.sessions.insert id }
  | unlock (c : Starter T) (id : Nat) (hpc : s.starters c = .unlock id) :
      Moves api s (.add c) { s.setStarter c .idle with sessionListMtx := none }
  | arrives (id : Nat) (call : C) (t : Session M C) (ht : s.session id = some t)
      (hrpc : t.rpc = .connecting) (hserver : s.serverShutdown = false)
      (hmethod : api.method call = t.method) (hnew : call ∉ s.accepted) :
      Moves api s (.arrives id call)
        { s.setSession id { t with rpc := .ready true, request := some call } with
          accepted := call :: s.accepted }
  | completes (id : Nat) (ok : Bool) (t : Session M C) (ht : s.session id = some t)
      (hrpc : t.rpc = .finishing ∨
        (t.rpc = .connecting ∧ s.serverShutdown = true ∧ ok = false)) :
      Moves api s (.completes id ok) (s.setSession id { t with rpc := .ready ok })
  | next (id : Nat) (ok : Bool) (t : Session M C) (hpc : s.dispatcher = .next)
      (ht : s.session id = some t) (hrpc : t.rpc = .ready ok) :
      Moves api s (.next id)
        { s.setSession id { t with rpc := .idle } with dispatcher := .handle id ok }
  | handled (id : Nat) (ok : Bool) (t : Session M C) (hpc : s.dispatcher = .handle id ok)
      (ht : s.session id = some t)
      (hreact : onCompletionEvent t.callState ok = .returns true) :
      Moves api s .event { s with dispatcher := .next }
  | done (id : Nat) (ok : Bool) (t : Session M C) (hpc : s.dispatcher = .handle id ok)
      (ht : s.session id = some t)
      (hreact : onCompletionEvent t.callState ok = .returns false) :
      Moves api s .event { s with dispatcher := .shutdown id }
  | accept (id : Nat) (ok : Bool) (t : Session M C) (hpc : s.dispatcher = .handle id ok)
      (ht : s.session id = some t) (hreact : onCompletionEvent t.callState ok = .accept) :
      Moves api s .event
        { s.setStarter .handler (.construct t.method) with dispatcher := .adding id }
  | cancel (id : Nat) (ok : Bool) (t : Session M C) (hpc : s.dispatcher = .handle id ok)
      (ht : s.session id = some t) (hreact : onCompletionEvent t.callState ok = .cancel) :
      Moves api s .event
        { s.finishCall id { t with callState := .waitFinish } .cancelled (api.blank t.method) with
          dispatcher := .next }
  | added (id : Nat) (hpc : s.dispatcher = .adding id) (hidle : s.starters .handler = .idle) :
      Moves api s .event { s with dispatcher := .respond id }
  | respond (id : Nat) (t : Session M C) (hpc : s.dispatcher = .respond id)
      (ht : s.session id = some t) :
      Moves api s .event
        { s.setSession id { t with callState := .waitFinish } with dispatcher := .finish id }
  | finish (id : Nat) (t : Session M C) (hpc : s.dispatcher = .finish id)
      (ht : s.session id = some t) :
      Moves api s .event
        { s.finishCall id t .ok (api.response t.method) with dispatcher := .next }
  | shutdown (id : Nat) (t : Session M C) (hpc : s.dispatcher = .shutdown id)
      (ht : s.session id = some t) :
      Moves api s .event
        { s.setSession id t.tryCancelCallAndShutdown with dispatcher := .lock id }
  | lockErase (id : Nat) (hpc : s.dispatcher = .lock id) (hfree : s.sessionListMtx = none) :
      Moves api s .event
        { s with sessionListMtx := some .dispatcher, dispatcher := .erase id }
  | erase (id : Nat) (hpc : s.dispatcher = .erase id) :
      Moves api s .event
        { s with sessions := s.sessions.filter (· ≠ id), dispatcher := .unlock }
  | unlockErase (hpc : s.dispatcher = .unlock) :
      Moves api s .event { s with sessionListMtx := none, dispatcher := .next }
  | exit (hpc : s.dispatcher = .next) (hcq : s.cqShutdown = true) (hdrained : s.Drained) :
      Moves api s .exit { s with dispatcher := .exited }
  | enterStop (hpc : s.stopper = .idle) : Moves api s .enterStop { s with stopper := .lock }
  | stopLock (hpc : s.stopper = .lock) (hfree : s.sessionListMtx = none) :
      Moves api s .stop
        { s with sessionListMtx := some .stopper, stopper := .visit s.sessions }
  | visit (id : Nat) (rest : List Nat) (t : Session M C)
      (hpc : s.stopper = .visit (id :: rest)) (ht : s.session id = some t)
      (hproc : ¬ (t.callState.cancels ∧ s.dispatcher = .finish id)) :
      Moves api s .stop
        { s.setSession id t.tryCancelCallAndShutdown with stopper := .visit rest }
  | visited (hpc : s.stopper = .visit []) :
      Moves api s .stop { s with sessionListMtx := none, stopper := .running }
  | running (hpc : s.stopper = .running) :
      Moves api s .stop { s with running := false, stopper := .server }
  | server (hpc : s.stopper = .server) :
      Moves api s .stop { s with serverShutdown := true, stopper := .wait }
  | wait (hpc : s.stopper = .wait) (hsettled : s.Settled) :
      Moves api s .stop { s with stopper := .queue }
  | queue (hpc : s.stopper = .queue) :
      Moves api s .stop { s with cqShutdown := true, stopper := .join }
  | join (hpc : s.stopper = .join) (hexited : s.joined = true ∨ s.dispatcher = .exited) :
      Moves api s .stop { s with joined := true, stopper := .drain }
  | drain (hpc : s.stopper = .drain) (hdrained : s.Drained) :
      Moves api s .stop { s with stopper := .idle }
  | ignore (id : Nat) (ok : Bool) (t : Session M C) (hpc : s.stopper = .drain)
      (ht : s.session id = some t) (hrpc : t.rpc = .ready ok) :
      Moves api s (.ignore id) (s.setSession id { t with rpc := .idle })

variable [DecidableEq T] [DecidableEq M] [DecidableEq C] {api : Api M C R}
  {s s' : State T M C R}

theorem addStep_moves {c : Starter T} (hs : s.addStep c = some s') :
    Moves api s (.add c) s' := by
  unfold State.addStep at hs
  split at hs
  · contradiction
  · rename_i m hpc
    simp only [Option.some.injEq] at hs
    subst hs
    exact .construct c m hpc
  · rename_i id hpc
    split at hs <;> simp only [Option.some.injEq, reduceCtorEq] at hs
    rename_i t ht
    subst hs
    exact .request c id t hpc ht
  · rename_i id hpc
    split at hs <;> simp only [Option.some.injEq, reduceCtorEq] at hs
    rename_i hfree
    subst hs
    exact .lock c id hpc hfree
  · rename_i id hpc
    simp only [Option.some.injEq] at hs
    subst hs
    exact .insert c id hpc
  · rename_i id hpc
    simp only [Option.some.injEq] at hs
    subst hs
    exact .unlock c id hpc

theorem eventStep_moves (hs : s.eventStep api = some s') : Moves api s .event s' := by
  unfold State.eventStep at hs
  split at hs
  · contradiction
  · contradiction
  · rename_i id ok hpc
    split at hs <;> try contradiction
    rename_i t ht
    split at hs <;> rename_i hreact <;> simp only [Option.some.injEq] at hs <;> subst hs
    · exact .handled id ok t hpc ht hreact
    · exact .done id ok t hpc ht hreact
    · exact .accept id ok t hpc ht hreact
    · exact .cancel id ok t hpc ht hreact
  · rename_i id hpc
    split at hs <;> simp only [Option.some.injEq, reduceCtorEq] at hs
    rename_i hidle
    subst hs
    exact .added id hpc hidle
  · rename_i id hpc
    split at hs <;> simp only [Option.some.injEq, reduceCtorEq] at hs
    rename_i t ht
    subst hs
    exact .respond id t hpc ht
  · rename_i id hpc
    split at hs <;> simp only [Option.some.injEq, reduceCtorEq] at hs
    rename_i t ht
    subst hs
    exact .finish id t hpc ht
  · rename_i id hpc
    split at hs <;> simp only [Option.some.injEq, reduceCtorEq] at hs
    rename_i t ht
    subst hs
    exact .shutdown id t hpc ht
  · rename_i id hpc
    split at hs <;> simp only [Option.some.injEq, reduceCtorEq] at hs
    rename_i hfree
    subst hs
    exact .lockErase id hpc hfree
  · rename_i id hpc
    simp only [Option.some.injEq] at hs
    subst hs
    exact .erase id hpc
  · rename_i hpc
    simp only [Option.some.injEq] at hs
    subst hs
    exact .unlockErase hpc

theorem stopStep_moves (hs : s.stopStep = some s') : Moves api s .stop s' := by
  unfold State.stopStep at hs
  split at hs
  · contradiction
  · rename_i hpc
    split at hs <;> simp only [Option.some.injEq, reduceCtorEq] at hs
    rename_i hfree
    subst hs
    exact .stopLock hpc hfree
  · rename_i id rest hpc
    unfold State.visit at hs
    split at hs <;> try contradiction
    rename_i t ht
    split at hs <;> simp only [Option.some.injEq, reduceCtorEq] at hs
    rename_i hproc
    subst hs
    exact .visit id rest t hpc ht hproc
  · rename_i hpc
    simp only [Option.some.injEq] at hs
    subst hs
    exact .visited hpc
  · rename_i hpc
    simp only [Option.some.injEq] at hs
    subst hs
    exact .running hpc
  · rename_i hpc
    simp only [Option.some.injEq] at hs
    subst hs
    exact .server hpc
  · rename_i hpc
    split at hs <;> simp only [Option.some.injEq, reduceCtorEq] at hs
    rename_i hsettled
    subst hs
    exact .wait hpc hsettled
  · rename_i hpc
    simp only [Option.some.injEq] at hs
    subst hs
    exact .queue hpc
  · rename_i hpc
    split at hs <;> simp only [Option.some.injEq, reduceCtorEq] at hs
    rename_i hexited
    subst hs
    exact .join hpc hexited
  · rename_i hpc
    split at hs <;> simp only [Option.some.injEq, reduceCtorEq] at hs
    rename_i hdrained
    subst hs
    exact .drain hpc hdrained

/-- Every step is one of the moves. -/
theorem step_moves {l : Label T M C} (hs : step api s l = some s') : Moves api s l s' := by
  cases l with
  | enterAdd t m =>
      simp only [step, State.enterAdd] at hs
      split at hs <;> simp only [Option.some.injEq, reduceCtorEq] at hs
      rename_i hpc
      subst hs
      exact .enterAdd t m hpc
  | add c => exact addStep_moves hs
  | arrives id call =>
      simp only [step, State.arrives] at hs
      split at hs <;> try contradiction
      rename_i t ht
      split at hs <;> simp only [Option.some.injEq, reduceCtorEq] at hs
      rename_i hguard
      subst hs
      exact .arrives id call t ht hguard.1 hguard.2.1 hguard.2.2.1 hguard.2.2.2
  | completes id ok =>
      simp only [step, State.completes] at hs
      split at hs <;> try contradiction
      rename_i t ht
      split at hs <;> simp only [Option.some.injEq, reduceCtorEq] at hs
      rename_i hrpc
      subst hs
      exact .completes id ok t ht hrpc
  | next id =>
      simp only [step, State.next] at hs
      split at hs <;> try contradiction
      rename_i t hpc ht
      split at hs <;> simp only [Option.some.injEq, reduceCtorEq] at hs
      rename_i ok hrpc
      subst hs
      exact .next id ok t hpc ht hrpc
  | event => exact eventStep_moves hs
  | exit =>
      simp only [step, State.exit] at hs
      split at hs <;> try contradiction
      rename_i hpc
      split at hs <;> simp only [Option.some.injEq, reduceCtorEq] at hs
      rename_i hguard
      subst hs
      exact .exit hpc hguard.1 hguard.2
  | enterStop =>
      simp only [step, State.enterStop] at hs
      split at hs <;> simp only [Option.some.injEq, reduceCtorEq] at hs
      rename_i hpc
      subst hs
      exact .enterStop hpc
  | stop => exact stopStep_moves hs
  | ignore id =>
      simp only [step, State.ignore] at hs
      split at hs <;> try contradiction
      rename_i t hpc ht
      split at hs <;> simp only [Option.some.injEq, reduceCtorEq] at hs
      rename_i ok hrpc
      subst hs
      exact .ignore id ok t hpc ht hrpc

/-! ## A session is added -/

/-- A user thread adds a session. -/
def adds (m : M) : List (Label Unit M C) :=
  [.enterAdd () m] ++ List.replicate 5 (.add (.user ()))

/-- A call is matched with a session, whose handler adds the next one and answers. -/
def accepts (id : Nat) (call : C) : List (Label Unit M C) :=
  [.arrives id call, .next id, .event] ++ List.replicate 5 (.add .handler) ++
    [.event, .event, .event]

/-- The answer completes, and the session is erased. -/
def erases (id : Nat) : List (Label Unit M C) :=
  [.completes id true, .next id, .event, .event, .event, .event, .event]

end Listener
end Service
end DAQ
end DtCore
