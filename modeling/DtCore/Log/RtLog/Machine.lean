import DtCore.Log.LogQueue.Order
import DtCore.Log.RtLog.Accounting

/-!
# The threads of the real-time logger

Any number of logging threads push entries, the drain thread polls the queue,
any number of callers wait in `Sync()`, and one caller runs `Terminate()`.  Each
access to a shared member is one step, so every interleaving of the accesses is
a run of `step`.  The queue is the ring buffer with its own steps; the drain
thread's private work on one entry (`FlushEntry`) is one step, because the only
member it shares is the drop counter.  Sleeping, flushing the sinks and the TUI
touch none of the members here and are one idle step.

A thread that logs while it runs `Terminate()` (as `DeleteThread` does) is a
logging thread of its own, which only adds interleavings.

Drained entries carry their number in the order of draining as a tag on each
byte.  The fields `flushed`, `returned` and `passed` are history: no step reads
them but to choose the tag.

A session lasts from `Initialize()` to the end of `Terminate()`.  `Initialize()`
resets neither the drop counter nor the queue nor the numbers of `Sync()`, so a
session begins with what the sessions before it have left.

The drop counter and the numbers of `Sync()` are words of 64 bits, and natural numbers
here: there are fewer than `2 ^ 64` drops and calls of `Sync()`.

Main definitions:

- `initial`: the state after an `Initialize()`.
- `State.drainStep`: the loop of `DrainAll`.
- `State.loggerStep`, `State.pollStep`, `State.syncStep`, `State.termStep`: the
  accesses of the four kinds of threads.
- `FreshClaims`: tickets are used before their 32-bit words come round again.
-/

namespace DtCore
namespace Log
namespace RtLog

open Foundation

/-! ## Program counters -/

/-- What a logging call (`LogRt` and its siblings) does next.  `pushed` means
that the last access of a successful `TryPush` is done. -/
inductive CallPc (β : Type) where
  | idle
  | checkInitialized (e : Entry β)
  | checkLevel (e : Entry β)
  | enqueue (e : Entry β)
  | pushing
  | pushed (e : Entry β)
  | countDrop
  | returned

/-- Where `DrainAll` stands: inside `TryPop` or about to flush what it popped. -/
inductive DrainPc (β : Type) where
  | popping
  | flushing (e : Entry β)

/-- What the drain thread does next in `PollLogQueue` and `Poll`. -/
inductive PollPc (β : Type) where
  | testRun
  | drainAll (pc : DrainPc β)
  | loadSyncSeq
  | loadSyncAck (pending : Nat)
  | storeSyncAck (pending : Nat)
  | rest
  | exited

/-- A logging call that pushed an entry: its claim in the queue. -/
abbrev Pushed (P β : Type) := LogQueue.Claim P (Entry β)

/-- What a `Sync()` caller does next.  `before` are the pushes that had returned
when the call began; `synced` means that the wait ended by the acknowledge. -/
inductive SyncPc (P β : Type) where
  | idle
  | checkInitialized (before : List (Pushed P β))
  | fetchAdd (before : List (Pushed P β))
  | loadAck (before : List (Pushed P β)) (target : Nat)
  | testRun (before : List (Pushed P β)) (target : Nat)
  | synced (before : List (Pushed P β))
  | returned

/-- What `Terminate()` does next. -/
inductive TermPc (β : Type) where
  | idle
  | checkInitialized
  | loadDrops
  | storeRun
  | join
  | drainAll (pc : DrainPc β)
  | flushCont
  | storeInitialized
  | resetLogger
  | returned

/-! ## The state -/

/-- The members of `RtLog` and where every thread stands.  `C` are the callers of
`Sync()`. -/
structure State (P C β : Type) where
  queue : LogQueue.State P (Entry β)
  drain : Drain (β × Origin)
  initialized : Bool
  level : Int
  run : Bool
  syncSeq : Nat
  syncAck : Nat
  calls : P → CallPc β
  poller : PollPc β
  syncs : C → SyncPc P β
  terminator : TermPc β
  reported : Option Nat
  flushed : List (Entry β)
  returned : List (Pushed P β)
  passed : Nat

/-- What `Initialize()` finds and does not reset. -/
structure Found (P β : Type) where
  dropCount : Nat
  queue : LogQueue.State P (Entry β)
  syncSeq : Nat
  syncAck : Nat

/-- What the constructor of `RtLog` leaves. -/
def Found.fresh {P β : Type} : Found P β where
  dropCount := 0
  queue := LogQueue.initial
  syncSeq := 0
  syncAck := 0

/-- What earlier sessions leave: a queue with no thread inside `TryPush` or
`TryPop`, which may still hold entries, and drops that were counted. -/
structure Found.AtRest {P β : Type} [DecidableEq P] (N bound : Nat) (found : Found P β) :
    Prop where
  reachable : LogQueue.Reachable N bound found.queue
  producers : ∀ p, found.queue.producers p = .idle ∨
    ∃ ok, found.queue.producers p = .returned ok
  consumer : found.queue.consumer = .idle ∨ found.queue.consumer = .returned none
  sync : found.syncAck ≤ found.syncSeq

theorem Found.fresh_atRest {P β : Type} [DecidableEq P] (N bound : Nat) :
    (Found.fresh : Found P β).AtRest N bound where
  reachable := Reach.start
  producers _ := Or.inl rfl
  consumer := Or.inl rfl
  sync := Nat.le_refl _

section Steps

variable {P C β : Type}

/-- After `Initialize()`: a default logger with its pattern and an empty
continuation buffer.  The entries that were popped before were flushed. -/
def initial (pattern : String) (timebase : TimeBase) (contLevel : LogLevel) (level : Int)
    (found : Found P β) : State P C β where
  queue := found.queue
  drain :=
    { logger := some pattern
      timebase := timebase
      contBuf := []
      contLevel := contLevel
      patternStr := pattern
      dropCount := found.dropCount
      lineCalls := 0
      entryCalls := 0
      events := [] }
  initialized := true
  level := level
  run := true
  syncSeq := found.syncSeq
  syncAck := found.syncAck
  calls _ := .idle
  poller := .testRun
  syncs _ := .idle
  terminator := .idle
  reported := none
  flushed := found.queue.popped
  returned := []
  passed := 0

/-- Move one logging call on. -/
def State.setCall [DecidableEq P] (s : State P C β) (p : P) (pc : CallPc β) : State P C β :=
  { s with calls := Function.update s.calls p pc }

/-- Move one `Sync()` caller on. -/
def State.setSync [DecidableEq C] (s : State P C β) (c : C) (pc : SyncPc P β) : State P C β :=
  { s with syncs := Function.update s.syncs c pc }

/-! ## Logging threads -/

/-- Enter a logging call. -/
def State.logStep [DecidableEq P] (s : State P C β) (p : P) (e : Entry β) :
    Option (State P C β) :=
  match s.calls p with
  | .idle | .returned => some (s.setCall p (.checkInitialized e))
  | _ => none

/-- The next access of a logging call. -/
def State.loggerStep [DecidableEq P] (N : Nat) (s : State P C β) (p : P) :
    Option (State P C β) :=
  match s.calls p with
  | .idle | .returned => none
  | .checkInitialized e =>
      some (s.setCall p (if s.initialized then .checkLevel e else .returned))
  | .checkLevel e =>
      if e.level.toInt < s.level then some (s.setCall p .returned)
      else some { s.setCall p (.enqueue e) with passed := s.passed + 1 }
  | .enqueue e =>
      (s.queue.callStep p e).map fun queue => { s.setCall p .pushing with queue := queue }
  | .pushing =>
      match s.queue.producers p with
      | .returned ok => some (s.setCall p (if ok then .returned else .countDrop))
      | .storeSeq e _ _ =>
          (s.queue.producerStep N p).map fun queue =>
            { s.setCall p (.pushed e) with queue := queue }
      | _ => (s.queue.producerStep N p).map fun queue => { s with queue := queue }
  | .pushed e =>
      some { s.setCall p .returned with
        returned := s.returned ++
          [{ producer := p, call := (s.queue.calls p).length - 1, entry := e }] }
  | .countDrop =>
      some { s.setCall p .returned with
        drain := { s.drain with dropCount := s.drain.dropCount + 1 } }

/-! ## The drain thread -/

section Drain

variable [LogByte β]

/-- One access of `TryPop`, or `FlushEntry` on what was popped; the loop of
`DrainAll` goes on with the returned position and ends without one. -/
def State.drainStep (env : Spdlog) (N : Nat) (s : State P C β) :
    DrainPc β → State P C β × Option (DrainPc β)
  | .popping =>
      let queue := s.queue.consumerStep N
      ({ s with queue := queue },
        match queue.consumer with
        | .returned none => none
        | .returned (some e) => some (.flushing e)
        | _ => some .popping)
  | .flushing e =>
      ({ s with
          drain := s.drain.flushEntry env (e.tagged s.flushed.length)
          flushed := s.flushed ++ [e] },
        some .popping)

/-- The next access of the drain thread. -/
def State.pollStep (env : Spdlog) (N : Nat) (s : State P C β) : Option (State P C β) :=
  match s.poller with
  | .testRun => some { s with poller := if s.run then .drainAll .popping else .exited }
  | .drainAll pc =>
      let r := s.drainStep env N pc
      match r.2 with
      | some pc' => some { r.1 with poller := .drainAll pc' }
      | none => some { r.1 with poller := .loadSyncSeq }
  | .loadSyncSeq => some { s with poller := .loadSyncAck s.syncSeq }
  | .loadSyncAck pending =>
      some { s with poller := if pending > s.syncAck then .storeSyncAck pending else .rest }
  | .storeSyncAck pending => some { s with syncAck := pending, poller := .rest }
  | .rest => some { s with poller := .testRun }
  | .exited => none

/-! ## `Terminate()` -/

/-- The next access of `Terminate()`; `pthread_join` returns once the drain
thread has ended. -/
def State.termStep (env : Spdlog) (N : Nat) (s : State P C β) : Option (State P C β) :=
  match s.terminator with
  | .idle => some { s with terminator := .checkInitialized }
  | .checkInitialized =>
      some { s with terminator := if s.initialized then .loadDrops else .returned }
  | .loadDrops => some { s with reported := some s.drain.dropCount, terminator := .storeRun }
  | .storeRun => some { s with run := false, terminator := .join }
  | .join =>
      match s.poller with
      | .exited => some { s with terminator := .drainAll .popping }
      | _ => none
  | .drainAll pc =>
      let r := s.drainStep env N pc
      match r.2 with
      | some pc' => some { r.1 with terminator := .drainAll pc' }
      | none => some { r.1 with terminator := .flushCont }
  | .flushCont =>
      some { s with
        drain := s.drain.flushContLines env true
        terminator := .storeInitialized }
  | .storeInitialized => some { s with initialized := false, terminator := .resetLogger }
  | .resetLogger =>
      some { s with drain := { s.drain with logger := none }, terminator := .returned }
  | .returned => none

end Drain

/-! ## `Sync()` -/

/-- Enter `Sync()`. -/
def State.enterSync [DecidableEq C] (s : State P C β) (c : C) : Option (State P C β) :=
  match s.syncs c with
  | .idle | .returned => some (s.setSync c (.checkInitialized s.returned))
  | _ => none

/-- The next access of a `Sync()` caller. -/
def State.syncStep [DecidableEq C] (s : State P C β) (c : C) : Option (State P C β) :=
  match s.syncs c with
  | .idle | .returned => none
  | .checkInitialized before =>
      some (s.setSync c (if s.initialized then .fetchAdd before else .returned))
  | .fetchAdd before =>
      some { s.setSync c (.loadAck before (s.syncSeq + 1)) with syncSeq := s.syncSeq + 1 }
  | .loadAck before target =>
      some (s.setSync c (if s.syncAck < target then .testRun before target else .synced before))
  | .testRun before target =>
      some (s.setSync c (if s.run then .loadAck before target else .returned))
  | .synced _ => some (s.setSync c .returned)

/-! ## All threads -/

/-- Which thread moves. -/
inductive Label (P C β : Type) where
  | log (p : P) (e : Entry β)
  | logger (p : P)
  | poll
  | enterSync (c : C)
  | sync (c : C)
  | terminate
  | setLevel (level : Int)

/-- The step function of the logger with its threads. -/
def step [DecidableEq P] [DecidableEq C] [LogByte β] (env : Spdlog) (N : Nat) (s : State P C β) :
    Label P C β → Option (State P C β)
  | .log p e => s.logStep p e
  | .logger p => s.loggerStep N p
  | .poll => s.pollStep env N
  | .enterSync c => s.enterSync c
  | .sync c => s.syncStep c
  | .terminate => s.termStep env N
  | .setLevel level => some { s with level := level }

/-- Fewer than `bound` claims happen between a load of `m_head` and the exchange
that uses it. -/
def FreshClaims (bound : Nat) (s : State P C β) : Label P C β → Prop
  | .logger p => s.queue.claimAge p < bound
  | _ => True

instance decidableFreshClaims (bound : Nat) (s : State P C β) :
    (l : Label P C β) → Decidable (FreshClaims bound s l)
  | .logger p => inferInstanceAs (Decidable (s.queue.claimAge p < bound))
  | .log _ _ => inferInstanceAs (Decidable True)
  | .poll => inferInstanceAs (Decidable True)
  | .enterSync _ => inferInstanceAs (Decidable True)
  | .sync _ => inferInstanceAs (Decidable True)
  | .terminate => inferInstanceAs (Decidable True)
  | .setLevel _ => inferInstanceAs (Decidable True)

end Steps

/-! ## A small machine -/

/-- One logging thread, one `Sync()` caller, and loggers for byte messages. -/
def freshLog : State Unit Unit UInt8 :=
  initial "%v" { wall_ns := 0, monotonic_ns := 0 } .info 0 .fresh

/-- A message for the default logger. -/
def helloEntry : Entry UInt8 :=
  { timeStamp_ns := 0, level := .info, msg := [104, 105], loggerName := [] }

/-- A logging call that pushes its entry, from its begin to its return. -/
def pushSchedule (e : Entry UInt8) : List (Label Unit Unit UInt8) :=
  .log () e :: List.replicate 9 (.logger ())

end RtLog
end Log
end DtCore
