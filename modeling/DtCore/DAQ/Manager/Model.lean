import DtCore.Foundation.StepSystem
import Mathlib.Tactic

/-!
# The DAQ manager, its sources and their sinks

A `DAQManager` keeps a list of data sources behind `_src_mtx`, and every `DataSource` a list of
data sinks behind its `_sink_mtx`.  `Update` of the manager updates its sources one after the
other while it holds `_src_mtx`: a source fills its message in `UpdateData` and, if that
returns true, publishes it to every sink of the message's type while it holds `_sink_mtx`.
Any number of threads change both lists and call `Update`.

The sources are `DataSourcePBTimestamped`: user code in `UpdateData` either returns false at
once, or stamps the message, fills it in and returns any result.  The lists are read while
their mutex is held, so a loop over one takes the list that it finds at its start.  The fields
`stamped`, `published` and `received` are history that no step tests.

Main definitions:

- `State.call`: entering a member function.
- `State.access`: the accesses of a thread under and around the mutexes.
- `State.updateData`: `UpdateData`, with `UpdateTimestamp`.

Main results:

- Theorem `step_moves`: what each step finds and leaves.
-/

namespace DtCore
namespace DAQ
namespace Manager

variable {T S K V : Type}

/-- The message of a source: the sequence number of its header and the rest. -/
structure Message (V : Type) where
  seq : Nat
  value : V
deriving DecidableEq

/-- `AppendDataSource` and `RemoveDataSource`. -/
inductive SourceOp (S : Type) where
  | append (src : S)
  | remove (src : S)
deriving DecidableEq

/-- `AppendDataSink` and `RemoveDataSink`. -/
inductive SinkOp (K : Type) where
  | append (sink : K)
  | remove (sink : K)
deriving DecidableEq

/-- Who updates a source: the loop of the manager, which still has sources to go, or a caller of
`DataSource::Update` itself. -/
inductive Updater (S : Type) where
  | manager (rest : List S)
  | direct
deriving DecidableEq

/-- What a thread does next. -/
inductive Pc (S K : Type) where
  | idle
  | lockSources (op : SourceOp S)
  | changeSources (op : SourceOp S)
  | lockUpdate
  | loop (rest : List S)
  | updateData (src : S) (updater : Updater S)
  | lockPublish (src : S) (updater : Updater S)
  | publish (src : S) (sinks : List K) (updater : Updater S)
  | unlockSources
  | lockSinks (src : S) (op : SinkOp K)
  | changeSinks (src : S) (op : SinkOp K)
  | unlockSinks (src : S)
deriving DecidableEq

/-- The members of a manager and its sources, and where every thread stands. -/
structure State (T S K V : Type) where
  dataSrcs : List S
  srcMtx : Option T
  dataSinks : S → List K
  sinkMtx : S → Option T
  msg : S → Message V
  cnt : S → Nat
  threads : T → Pc S K
  stamped : S → List (Message V)
  published : S → List (Message V)
  received : K → List (S × Message V)

def initial [Inhabited V] : State T S K V where
  dataSrcs := []
  srcMtx := none
  dataSinks _ := []
  sinkMtx _ := none
  msg _ := { seq := 0, value := default }
  cnt _ := 0
  threads _ := .idle
  stamped _ := []
  published _ := []
  received _ := []

section Steps

variable [DecidableEq T] [DecidableEq S] [DecidableEq K]

/-- Move one thread on. -/
def State.setThread (s : State T S K V) (t : T) (pc : Pc S K) : State T S K V :=
  { s with threads := Function.update s.threads t pc }

/-! ## The member functions -/

/-- The public member functions. -/
inductive Call (S K : Type) where
  | changeSources (op : SourceOp S)
  | update
  | updateSource (src : S)
  | changeSinks (src : S) (op : SinkOp K)

/-- The first access of a member function. -/
def Call.entry : Call S K → Pc S K
  | .changeSources op => .lockSources op
  | .update => .lockUpdate
  | .updateSource src => .updateData src .direct
  | .changeSinks src op => .lockSinks src op

/-- Enter a member function. -/
def State.call (s : State T S K V) (t : T) (c : Call S K) : Option (State T S K V) :=
  match s.threads t with
  | .idle => some (s.setThread t c.entry)
  | _ => none

/-- `push_back` and `remove` of a list of pointers. -/
def SourceOp.apply (op : SourceOp S) (srcs : List S) : List S :=
  match op with
  | .append src => srcs ++ [src]
  | .remove src => srcs.filter (fun x => x ≠ src)

def SinkOp.apply (op : SinkOp K) (sinks : List K) : List K :=
  match op with
  | .append sink => sinks ++ [sink]
  | .remove sink => sinks.filter (fun x => x ≠ sink)

/-- What follows the update of a source. -/
def Updater.next : Updater S → Pc S K
  | .manager rest => .loop rest
  | .direct => .idle

/-- The next access of a thread.  `isPb src sink` tells whether the sink is a `DataSinkPB` of the
message type of the source. -/
def State.access (isPb : S → K → Bool) (s : State T S K V) (t : T) : Option (State T S K V) :=
  match s.threads t with
  | .idle => none
  | .lockSources op =>
      match s.srcMtx with
      | none => some { s.setThread t (.changeSources op) with srcMtx := some t }
      | some _ => none
  | .changeSources op =>
      some { s.setThread t .unlockSources with dataSrcs := op.apply s.dataSrcs }
  | .lockUpdate =>
      match s.srcMtx with
      | none => some { s.setThread t (.loop s.dataSrcs) with srcMtx := some t }
      | some _ => none
  | .loop [] => some (s.setThread t .unlockSources)
  | .loop (src :: rest) => some (s.setThread t (.updateData src (.manager rest)))
  | .updateData _ _ => none
  | .lockPublish src updater =>
      match s.sinkMtx src with
      | none =>
          some { s.setThread t (.publish src (s.dataSinks src) updater) with
            sinkMtx := Function.update s.sinkMtx src (some t)
            published :=
              Function.update s.published src (s.published src ++ [s.msg src]) }
      | some _ => none
  | .publish src (sink :: sinks) updater =>
      some { s.setThread t (.publish src sinks updater) with
        received :=
          if isPb src sink then
            Function.update s.received sink (s.received sink ++ [(src, s.msg src)])
          else s.received }
  | .publish src [] updater =>
      some { s.setThread t updater.next with sinkMtx := Function.update s.sinkMtx src none }
  | .unlockSources => some { s.setThread t .idle with srcMtx := none }
  | .lockSinks src op =>
      match s.sinkMtx src with
      | none =>
          some { s.setThread t (.changeSinks src op) with
            sinkMtx := Function.update s.sinkMtx src (some t) }
      | some _ => none
  | .changeSinks src op =>
      some { s.setThread t (.unlockSinks src) with
        dataSinks := Function.update s.dataSinks src (op.apply (s.dataSinks src)) }
  | .unlockSinks src =>
      some { s.setThread t .idle with sinkMtx := Function.update s.sinkMtx src none }

/-- `UpdateTimestamp` of a source, and the rest of the message. -/
def State.stamp (s : State T S K V) (src : S) (value : V) : State T S K V :=
  let cnt := (s.cnt src + 1) % 2 ^ 32
  let msg : Message V := { seq := cnt, value := value }
  { s with
    cnt := Function.update s.cnt src cnt
    msg := Function.update s.msg src msg
    stamped := Function.update s.stamped src (s.stamped src ++ [msg]) }

/-- What user code does in `UpdateData`: it returns false at once, or stamps the message and
returns `ok`. -/
inductive Data (V : Type) where
  | nothing
  | filled (value : V) (ok : Bool)

/-- `UpdateData` of the source that a thread updates. -/
def State.updateData (s : State T S K V) (t : T) (data : Data V) : Option (State T S K V) :=
  match s.threads t, data with
  | .updateData _ updater, .nothing => some (s.setThread t updater.next)
  | .updateData src updater, .filled value true =>
      some ((s.stamp src value).setThread t (.lockPublish src updater))
  | .updateData src updater, .filled value false =>
      some ((s.stamp src value).setThread t updater.next)
  | _, _ => none

/-- Which thread moves, and how. -/
inductive Label (T S K V : Type) where
  | call (t : T) (c : Call S K)
  | access (t : T)
  | data (t : T) (data : Data V)

/-- The step function of all threads. -/
def step (isPb : S → K → Bool) (s : State T S K V) : Label T S K V → Option (State T S K V)
  | .call t c => s.call t c
  | .access t => s.access isPb t
  | .data t data => s.updateData t data

/-! ## What a step does -/

/-- The steps by what they find and what they leave. -/
inductive Moves (isPb : S → K → Bool) (s : State T S K V) :
    Label T S K V → State T S K V → Prop where
  | enter (t : T) (c : Call S K) (hpc : s.threads t = .idle) :
      Moves isPb s (.call t c) (s.setThread t c.entry)
  | lockSources (t : T) (op : SourceOp S) (hpc : s.threads t = .lockSources op)
      (hfree : s.srcMtx = none) :
      Moves isPb s (.access t) { s.setThread t (.changeSources op) with srcMtx := some t }
  | changeSources (t : T) (op : SourceOp S) (hpc : s.threads t = .changeSources op) :
      Moves isPb s (.access t)
        { s.setThread t .unlockSources with dataSrcs := op.apply s.dataSrcs }
  | lockUpdate (t : T) (hpc : s.threads t = .lockUpdate) (hfree : s.srcMtx = none) :
      Moves isPb s (.access t) { s.setThread t (.loop s.dataSrcs) with srcMtx := some t }
  | loopEnd (t : T) (hpc : s.threads t = .loop []) :
      Moves isPb s (.access t) (s.setThread t .unlockSources)
  | loopNext (t : T) (src : S) (rest : List S) (hpc : s.threads t = .loop (src :: rest)) :
      Moves isPb s (.access t) (s.setThread t (.updateData src (.manager rest)))
  | lockPublish (t : T) (src : S) (updater : Updater S)
      (hpc : s.threads t = .lockPublish src updater) (hfree : s.sinkMtx src = none) :
      Moves isPb s (.access t)
        { s.setThread t (.publish src (s.dataSinks src) updater) with
          sinkMtx := Function.update s.sinkMtx src (some t)
          published := Function.update s.published src (s.published src ++ [s.msg src]) }
  | publish (t : T) (src : S) (sink : K) (sinks : List K) (updater : Updater S)
      (hpc : s.threads t = .publish src (sink :: sinks) updater) :
      Moves isPb s (.access t)
        { s.setThread t (.publish src sinks updater) with
          received :=
            if isPb src sink then
              Function.update s.received sink (s.received sink ++ [(src, s.msg src)])
            else s.received }
  | published (t : T) (src : S) (updater : Updater S)
      (hpc : s.threads t = .publish src [] updater) :
      Moves isPb s (.access t)
        { s.setThread t updater.next with sinkMtx := Function.update s.sinkMtx src none }
  | unlockSources (t : T) (hpc : s.threads t = .unlockSources) :
      Moves isPb s (.access t) { s.setThread t .idle with srcMtx := none }
  | lockSinks (t : T) (src : S) (op : SinkOp K) (hpc : s.threads t = .lockSinks src op)
      (hfree : s.sinkMtx src = none) :
      Moves isPb s (.access t)
        { s.setThread t (.changeSinks src op) with
          sinkMtx := Function.update s.sinkMtx src (some t) }
  | changeSinks (t : T) (src : S) (op : SinkOp K) (hpc : s.threads t = .changeSinks src op) :
      Moves isPb s (.access t)
        { s.setThread t (.unlockSinks src) with
          dataSinks := Function.update s.dataSinks src (op.apply (s.dataSinks src)) }
  | unlockSinks (t : T) (src : S) (hpc : s.threads t = .unlockSinks src) :
      Moves isPb s (.access t)
        { s.setThread t .idle with sinkMtx := Function.update s.sinkMtx src none }
  | nothing (t : T) (src : S) (updater : Updater S)
      (hpc : s.threads t = .updateData src updater) :
      Moves isPb s (.data t .nothing) (s.setThread t updater.next)
  | filled (t : T) (src : S) (updater : Updater S) (value : V)
      (hpc : s.threads t = .updateData src updater) :
      Moves isPb s (.data t (.filled value true))
        ((s.stamp src value).setThread t (.lockPublish src updater))
  | rejected (t : T) (src : S) (updater : Updater S) (value : V)
      (hpc : s.threads t = .updateData src updater) :
      Moves isPb s (.data t (.filled value false))
        ((s.stamp src value).setThread t updater.next)

theorem step_moves {isPb : S → K → Bool} {s s' : State T S K V} {l : Label T S K V}
    (hs : step isPb s l = some s') : Moves isPb s l s' := by
  cases l with
  | call t c =>
      simp only [step, State.call] at hs
      split at hs <;> rename_i hpc <;> simp only [Option.some.injEq, reduceCtorEq] at hs
      subst hs
      exact Moves.enter t c hpc
  | access t =>
      simp only [step, State.access] at hs
      cases hpc : s.threads t with
      | idle | updateData => simp [hpc] at hs
      | lockSources op =>
          cases hfree : s.srcMtx <;> simp only [hpc, hfree, Option.some.injEq, reduceCtorEq] at hs
          exact hs ▸ Moves.lockSources t op hpc hfree
      | changeSources op =>
          simp only [hpc, Option.some.injEq] at hs
          exact hs ▸ Moves.changeSources t op hpc
      | lockUpdate =>
          cases hfree : s.srcMtx <;> simp only [hpc, hfree, Option.some.injEq, reduceCtorEq] at hs
          exact hs ▸ Moves.lockUpdate t hpc hfree
      | loop srcs =>
          cases srcs <;> simp only [hpc, Option.some.injEq] at hs
          · exact hs ▸ Moves.loopEnd t hpc
          · exact hs ▸ Moves.loopNext t _ _ hpc
      | lockPublish src updater =>
          cases hfree : s.sinkMtx src <;>
            simp only [hpc, hfree, Option.some.injEq, reduceCtorEq] at hs
          exact hs ▸ Moves.lockPublish t src updater hpc hfree
      | publish src sinks updater =>
          cases sinks <;> simp only [hpc, Option.some.injEq] at hs
          · exact hs ▸ Moves.published t src updater hpc
          · exact hs ▸ Moves.publish t src _ _ updater hpc
      | unlockSources =>
          simp only [hpc, Option.some.injEq] at hs
          exact hs ▸ Moves.unlockSources t hpc
      | lockSinks src op =>
          cases hfree : s.sinkMtx src <;>
            simp only [hpc, hfree, Option.some.injEq, reduceCtorEq] at hs
          exact hs ▸ Moves.lockSinks t src op hpc hfree
      | changeSinks src op =>
          simp only [hpc, Option.some.injEq] at hs
          exact hs ▸ Moves.changeSinks t src op hpc
      | unlockSinks src =>
          simp only [hpc, Option.some.injEq] at hs
          exact hs ▸ Moves.unlockSinks t src hpc
  | data t data =>
      simp only [step, State.updateData] at hs
      split at hs <;> rename_i hpc <;> simp only [Option.some.injEq, reduceCtorEq] at hs
      · exact hs ▸ Moves.nothing t _ _ hpc
      · exact hs ▸ Moves.filled t _ _ _ hpc
      · exact hs ▸ Moves.rejected t _ _ _ hpc

end Steps

/-- Sources are updated by the manager only. -/
def Managed (_ : State T S K V) : Label T S K V → Prop
  | .call _ (.updateSource _) => False
  | _ => True

end Manager
end DAQ
end DtCore
