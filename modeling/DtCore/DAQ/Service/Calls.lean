import DtCore.Foundation.StepSystem
import Mathlib.Tactic

/-!
# The call tables of the gRPC service classes

`ServiceCallerGrpc` and `ServiceListenerGrpc` keep the objects of their calls in
a map behind a mutex.  `StartCall` (`AddSession` for the listener) constructs the
object, whose constructor hands its RPC to gRPC, and inserts it into the map.
The dispatcher thread runs `OnCompletionEvent` for each completion and erases the
call from the map when the handler returns `false`.  Only the accesses of the map
are locked; each of them, and each call into gRPC, is a step of its own.

Handlers are user code: they may return any result, and they may start calls
themselves.  gRPC delivers any number of completions for a call after its RPC
was issued, and the completion for which the handler returns `false` is the last.

Main definitions:

- `State.startStep`: the accesses of `StartCall` and `AddSession`.
- `State.eventStep`: the accesses of the dispatcher.
- `State.getCall`: `GetCall` and `GetSession`.
-/

namespace DtCore
namespace DAQ
namespace Service

open Foundation

variable {T : Type}

/-! ## Program counters -/

/-- The two classes that keep such a table. -/
inductive Kind where
  | serviceCaller
  | serviceListener
deriving DecidableEq, Repr

/-- Who runs `StartCall`: a user thread, or the dispatcher inside a handler. -/
inductive Starter (T : Type) where
  | user (t : T)
  | handler
deriving DecidableEq

/-- What a `StartCall` does next. -/
inductive StartPc where
  | idle
  | construct
  | issue (call : Nat)
  | lock (call : Nat)
  | insert (call : Nat)
  | unlock (call : Nat)
deriving DecidableEq

/-- What the dispatcher thread does next. -/
inductive EventPc where
  | next
  | handle (call : Nat)
  | shutdown (call : Nat)
  | lock (call : Nat)
  | erase (call : Nat)
  | unlock (call : Nat)
deriving DecidableEq

/-- A thread that may hold the mutex of the table. -/
inductive Owner (T : Type) where
  | starter (c : Starter T)
  | dispatcher
deriving DecidableEq

/-! ## The state -/

/-- The table and where every thread stands.  Calls are numbered from 1 in the
order in which they are constructed; `alive` holds those whose RPC will complete
again.  The lists `returned` and `handled` are history: the calls that `StartCall`
has returned, and those whose last completion has been handled. -/
structure State (T : Type) where
  constructed : Nat
  calls : Nat → Option Nat
  callListMtx : Option (Owner T)
  starters : Starter T → StartPc
  dispatcher : EventPc
  alive : List Nat
  returned : List Nat
  handled : List Nat

def initial : State T where
  constructed := 0
  calls _ := none
  callListMtx := none
  starters _ := .idle
  dispatcher := .next
  alive := []
  returned := []
  handled := []

/-- `GetId` of a call: `AllocCallId` counts a `uint64_t` up from 1. -/
def callId (call : Nat) : Nat :=
  call % 2 ^ 64

/-- `GetCall(id)`; `none` is the null pointer. -/
def State.getCall (s : State T) (id : Nat) : Option Nat :=
  s.calls id

/-- Move one `StartCall` on. -/
def State.setStarter [DecidableEq T] (s : State T) (c : Starter T) (pc : StartPc) : State T :=
  { s with starters := Function.update s.starters c pc }

/-! ## `StartCall` and `AddSession` -/

/-- Enter `StartCall`.  A handler does so only while it runs. -/
def State.enterStart [DecidableEq T] (s : State T) (c : Starter T) : Option (State T) :=
  match s.starters c, c, s.dispatcher with
  | .idle, .user _, _ => some (s.setStarter c .construct)
  | .idle, .handler, .handle _ => some (s.setStarter c .construct)
  | _, _, _ => none

/-- The next access of a `StartCall`. -/
def State.startStep [DecidableEq T] (s : State T) (c : Starter T) : Option (State T) :=
  match s.starters c with
  | .idle => none
  | .construct =>
      some { s.setStarter c (.issue (s.constructed + 1)) with constructed := s.constructed + 1 }
  | .issue call => some { s.setStarter c (.lock call) with alive := call :: s.alive }
  | .lock call =>
      match s.callListMtx with
      | none => some { s.setStarter c (.insert call) with callListMtx := some (.starter c) }
      | some _ => none
  | .insert call =>
      some { s.setStarter c (.unlock call) with
        calls := Function.update s.calls (callId call) (some call) }
  | .unlock call =>
      some { s.setStarter c .idle with
        callListMtx := none
        returned := call :: s.returned }

/-! ## The dispatcher -/

/-- gRPC delivers a completion of a call to the waiting dispatcher. -/
def State.deliver (s : State T) (call : Nat) : Option (State T) :=
  match s.dispatcher with
  | .next => if call ∈ s.alive then some { s with dispatcher := .handle call } else none
  | _ => none

/-- `OnCompletionEvent` returns.  After `false` the listener shuts the session down
before it removes it; the caller removes the call at once. -/
def State.complete (kind : Kind) (s : State T) (again : Bool) : Option (State T) :=
  match s.dispatcher, s.starters .handler with
  | .handle call, .idle =>
      if again then some { s with dispatcher := .next }
      else
        some { s with
          dispatcher := match kind with
            | .serviceCaller => .lock call
            | .serviceListener => .shutdown call
          alive := s.alive.filter (· ≠ call) }
  | _, _ => none

/-- The next access of the dispatcher after a handler returned `false`:
`RemoveCall` for the caller, `TryCancelCallAndShutdown` (which leaves the table
alone) and `RemoveSession` for the listener. -/
def State.eventStep (s : State T) : Option (State T) :=
  match s.dispatcher with
  | .next => none
  | .handle _ => none
  | .shutdown call => some { s with dispatcher := .lock call }
  | .lock call =>
      match s.callListMtx with
      | none => some { s with callListMtx := some .dispatcher, dispatcher := .erase call }
      | some _ => none
  | .erase call =>
      some { s with
        calls := Function.update s.calls (callId call) none
        dispatcher := .unlock call }
  | .unlock call =>
      some { s with
        callListMtx := none
        dispatcher := .next
        handled := call :: s.handled }

/-! ## All threads -/

/-- Which thread moves. -/
inductive Label (T : Type) where
  | start (c : Starter T)
  | starter (c : Starter T)
  | deliver (call : Nat)
  | complete (again : Bool)
  | event
deriving DecidableEq

/-- The step function of the table with its threads. -/
def step [DecidableEq T] (kind : Kind) (s : State T) : Label T → Option (State T)
  | .start c => s.enterStart c
  | .starter c => s.startStep c
  | .deliver call => s.deliver call
  | .complete again => s.complete kind again
  | .event => s.eventStep

/-- The `uint64_t` of `AllocCallId` has not come round: no two calls have one id. -/
def FreshIds (s : State T) : Label T → Prop
  | .starter c => s.starters c = .construct → s.constructed + 1 < 2 ^ 64
  | _ => True

instance decidableFreshIds [DecidableEq T] (s : State T) :
    (l : Label T) → Decidable (FreshIds s l)
  | .starter c => inferInstanceAs (Decidable (s.starters c = .construct → _ < _))
  | .start _ => inferInstanceAs (Decidable True)
  | .deliver _ => inferInstanceAs (Decidable True)
  | .complete _ => inferInstanceAs (Decidable True)
  | .event => inferInstanceAs (Decidable True)

end Service
end DAQ
end DtCore
