import Mathlib.Tactic
import DtCore.Foundation.StepSystem

/-!
# The MCAP sink

`DataSinkPBMcap` hands messages to an `McapWriter`, which passes its output to
`FileWriterCustom::handleWrite`, which calls `write` until its data is out or
`write` fails.

The writer of the mcap library is a parameter: what it passes to `handleWrite`
when it is opened, for each message and when it is closed, and the status it
returns.  A run is cut at the results of `write`: between two of them the sink
either waits for the next call or is inside a `handleWrite` that still has bytes
to write.  Nobody else writes to the file.

Main definitions:

- `State.construct`: the constructor up to the first `write`.
- `State.publish`, `State.write`, `State.close`: `Publish`, `Write` and `Close`.
- `State.writeReturned`: one pass of the loop of `handleWrite`.
- `step`: the run.
-/

namespace DtCore
namespace DAQ
namespace Mcap

/-- Serialized messages and file contents. -/
abbrev Bytes := List UInt8

/-- The members of `mcap::Message`. -/
structure Message where
  channelId : Nat
  sequence : Nat
  publishTime : Nat
  logTime : Nat
  data : Bytes
deriving DecidableEq

/-- What the sink uses of `mcap::McapWriter`.  `opened` is the writer after `open`
with the schema and the channel, and what `open` passes to `handleWrite`; `write`
gives the writer, what it passes to `handleWrite` and whether the status is ok, and
`close` what it still passes before it calls `end` of the file writer. -/
structure McapWriter (W : Type) where
  opened : W × List Bytes
  channelId : Nat
  write : W → Message → W × List Bytes × Bool
  close : W → W × List Bytes

/-- `handleWrite` has no result, so `write` returns ok. -/
def McapWriter.AlwaysOk {W : Type} (M : McapWriter W) : Prop :=
  ∀ w msg, (M.write w msg).2.2 = true

/-- The values of `errno` that `handleWrite` tells apart; a hard error has a text. -/
inductive Errno where
  | eintr
  | hard (strerror : String)
deriving DecidableEq

/-- A result of `write`; a count beyond the request stands for a full write. -/
inductive WriteResult where
  | count (n : Nat)
  | fail (errno : Errno)
deriving DecidableEq

/-- How the system calls of `FileWriterCustom::open` end. -/
inductive OpenResult where
  | ok
  | openFails (strerror : String)
  | seekFails (strerror : String)

/-- The call that the sink is in. -/
inductive Task where
  | idle
  | opening
  | writing (ok : Bool)
  | closing
deriving DecidableEq

variable {W : Type}

/-- The members of a sink and of its file writer.  The file holds `before` and then
`appended`; `given` is what `handleWrite` was given so far, `remaining` what its
current call still has to write and `queue` the data of the calls to come. -/
structure State (W : Type) where
  mcap : W
  fileName : String
  isOpen : Bool
  channelId : Nat
  msgCount : Nat
  before : Bytes
  appended : Bytes
  size : Nat
  given : Bytes
  remaining : Bytes
  queue : List Bytes
  task : Task
  log : List String

/-- Write a line to the log. -/
def State.logLine (text : String) (s : State W) : State W :=
  { s with log := s.log ++ [text] }

/-- `HandleWriteError`; the terminated writer passes nothing on. -/
def State.handleWriteError (s : State W) : State W :=
  { s with isOpen := false }.logLine "[MCAP] Failed to write message.\n"

/-- `end` of the file writer, behind the last data of `Close`. -/
def State.endFile (s : State W) : State W :=
  { s with size := 0 }

/-- The writer has nothing more to pass on and returns to the sink. -/
def State.finish (s : State W) : State W :=
  match s.task with
  | .idle => s
  | .opening => { s with task := .idle, isOpen := true }
  | .writing true => { s with task := .idle }
  | .writing false => { s with task := .idle }.handleWriteError
  | .closing => { s with task := .idle }.endFile.logLine ("Closed MCAP file: " ++ s.fileName)

/-- The calls of `handleWrite` up to the first one that has bytes to write. -/
def State.handleWrites : List Bytes → State W → State W
  | [], s => s.finish
  | data :: queue, s =>
      if data = [] then State.handleWrites queue s
      else { s with given := s.given ++ data, remaining := data, queue := queue }

/-- One pass of the loop of `handleWrite`: a hard error abandons the rest. -/
def State.writeReturned (r : WriteResult) (s : State W) : State W :=
  match r with
  | .count n =>
      let written := s.remaining.take n
      let s := { s with
        appended := s.appended ++ written
        size := s.size + written.length
        remaining := s.remaining.drop n }
      if s.remaining = [] then s.handleWrites s.queue else s
  | .fail .eintr => s
  | .fail (.hard strerror) =>
      let s := s.logLine ("[MCAP] write() failed: " ++ strerror)
      { s with remaining := [] }.handleWrites s.queue

/-- The constructor: `FileWriterCustom::open` and, when it succeeds, the writer's. -/
def State.construct (M : McapWriter W) (fileName : String) (truncate : Bool)
    (existing : Option Bytes) (r : OpenResult) : State W :=
  let before := if truncate then [] else existing.getD []
  let s : State W :=
    { mcap := M.opened.1
      fileName := fileName
      isOpen := false
      channelId := 0
      msgCount := 0
      before := before
      appended := []
      size := 0
      given := []
      remaining := []
      queue := []
      task := .idle
      log := [] }
  match r with
  | .openFails strerror =>
      { s with before := existing.getD [] }.logLine
        ("[MCAP] Failed to open file \"" ++ fileName ++ "\" for writing: " ++ strerror)
  | .seekFails strerror =>
      if truncate then
        { s with size := before.length, channelId := M.channelId, task := .opening }.handleWrites
          M.opened.2
      else
        s.logLine ("[MCAP] Failed to seek to end of file \"" ++ fileName ++ "\": " ++ strerror)
  | .ok =>
      { s with size := before.length, channelId := M.channelId, task := .opening }.handleWrites
        M.opened.2

/-- Hand a message to the writer. -/
def State.writeMessage (M : McapWriter W) (msg : Message) (s : State W) : State W :=
  let r := M.write s.mcap msg
  { s with mcap := r.1, task := .writing r.2.2 }.handleWrites r.2.1

/-- `Publish` of a message that serializes to `serialized`. -/
def State.publish (M : McapWriter W) (now : Nat) (serialized : Bytes) (s : State W) : State W :=
  if s.isOpen = false then s.logLine "[MCAP] Publish error: file is not opened!!!"
  else
    { s with msgCount := (s.msgCount + 1) % 2 ^ 32 }.writeMessage M
      { channelId := s.channelId
        sequence := s.msgCount
        publishTime := now
        logTime := now
        data := serialized }

/-- `Write`. -/
def State.write (M : McapWriter W) (msg : Message) (s : State W) : State W :=
  if s.isOpen = false then s.logLine "[MCAP] Write error: file is not opened!!!"
  else s.writeMessage M msg

/-- `Close`, which is all that the destructor calls. -/
def State.close (M : McapWriter W) (s : State W) : State W :=
  if s.isOpen = false then s
  else
    let r := M.close s.mcap
    { s with isOpen := false, mcap := r.1, task := .closing }.handleWrites r.2

/-! ## Runs -/

/-- The calls of the sink and the results of `write`. -/
inductive Label where
  | publish (now : Nat) (serialized : Bytes)
  | write (msg : Message)
  | close
  | result (r : WriteResult)
deriving DecidableEq

/-- A call starts when the one before has returned, and `write` returns while
`handleWrite` has bytes to write. -/
def step (M : McapWriter W) (s : State W) : Label → Option (State W)
  | .publish now serialized =>
      if s.task = .idle then some (s.publish M now serialized) else none
  | .write msg => if s.task = .idle then some (s.write M msg) else none
  | .close => if s.task = .idle then some (s.close M) else none
  | .result r => if s.remaining = [] then none else some (s.writeReturned r)

/-- The state after a run. -/
def after (M : McapWriter W) (s : State W) (ls : List Label) : Option (State W) :=
  Foundation.run (step M) (fun _ _ => True) s ls

end Mcap
end DAQ
end DtCore
