import DtCore.Foundation.Rotation

/-!
# The rotating file sink

`BasicFileSinkT` collects formatted messages in a buffer of 64 KB, appends the
buffer to the base file when it is full or flushed, and writes longer messages
directly.  Before a message that would take the file over `m_maxSize` it closes
the file, renames the backups one up and opens a truncated base file.

Slot `0` is the base file and slot `i` the backup `base.i`.  The results of the
system calls are part of the state: `write` takes its next result from a list and
the run stops where the list ends; the lists for `open`, `rename` and `unlink`
hold `true` for success, and a call beyond the end of its list succeeds.  Nobody
else writes to the files, and their sizes stay in the range of `size_t`.

Main definitions:

- `flushLoop` and `directLoop`: the two write loops.
- `State.rotateFiles`: `RotateFiles`.
- `State.sinkIt`: `sink_it_` on a formatted message.
-/

namespace DtCore
namespace Log
namespace FileSink

open Foundation

/-- The bytes of a formatted message or of a file. -/
abbrev Bytes := List UInt8

/-- `RtLogConstant::INTERNAL_BUF_SIZE`. -/
def internalBufSize : Nat := 65536

/-! ## System calls -/

/-- The values of `errno` that the sink tells apart. -/
inductive Errno where
  | eintr
  | other
deriving DecidableEq

/-- A result of `write`; a count beyond the request stands for a full write. -/
inductive WriteResult where
  | count (n : Nat)
  | fail (errno : Errno)
deriving DecidableEq

/-- The members of a sink, the files and the results that the system calls still
have in store. -/
structure State where
  fdOpen : Bool
  buffer : Bytes
  currentSize : Nat
  maxSize : Nat
  maxFiles : Nat
  files : Nat → Option Bytes
  errno : Errno
  stderr : List String
  writes : List WriteResult
  opens : List Bool
  renames : List Bool
  unlinks : List Bool

/-- Append to the base file, which an open descriptor refers to. -/
def State.appendBase (s : State) (data : Bytes) : State :=
  { s with files := Function.update s.files 0 (some ((s.files 0).getD [] ++ data)) }

/-- `rename` between two slots. -/
def State.rename (s : State) (src dst : Nat) : State :=
  if s.renames.headD true ∧ (s.files src).isSome then
    { s with files := renameSlot s.files src dst, renames := s.renames.tail }
  else { s with errno := .other, renames := s.renames.tail }

/-- `unlink` of a slot. -/
def State.unlink (s : State) (i : Nat) : State :=
  if s.unlinks.headD true ∧ (s.files i).isSome then
    { s with files := Function.update s.files i none, unlinks := s.unlinks.tail }
  else { s with errno := .other, unlinks := s.unlinks.tail }

def openErr : String := "[RtLog] failed to open log file\n"

/-- `OpenFile`: without truncation the size comes from `stat`. -/
def State.openFile (truncate : Bool) (s : State) : State :=
  let base := if truncate then [] else (s.files 0).getD []
  if s.opens.headD true then
    { s with
      fdOpen := true
      currentSize := base.length
      files := Function.update s.files 0 (some base)
      opens := s.opens.tail }
  else
    { s with
      fdOpen := false
      currentSize := base.length
      errno := .other
      stderr := s.stderr ++ [openErr]
      opens := s.opens.tail }

/-- The constructor; `max_files` zero is taken as one. -/
def State.construct (maxSize maxFiles : Nat) (truncate : Bool) (files : Nat → Option Bytes)
    (writes : List WriteResult) (opens renames unlinks : List Bool) : State :=
  State.openFile truncate
    { fdOpen := false
      buffer := []
      currentSize := 0
      maxSize := maxSize
      maxFiles := if maxFiles = 0 then 1 else maxFiles
      files := files
      errno := .other
      stderr := []
      writes := writes
      opens := opens
      renames := renames
      unlinks := unlinks }

/-! ## The write loops -/

/-- How a write loop ends. -/
structure WriteEnd where
  written : Bytes
  errno : Errno
  stderr : List String
  writes : List WriteResult

/-- The end of a loop that has written `data` before. -/
def WriteEnd.after (data : Bytes) (e : WriteEnd) : WriteEnd :=
  { e with written := data ++ e.written }

def writeErr : String := "[RtLog] file write error, log data lost\n"

def diskFull : String := "[RtLog] disk full, log data lost\n"

/-- The loop of `FlushBuffer`: only a failing `write` is tried again. -/
def flushLoop : List WriteResult → Bytes → Errno → Option WriteEnd
  | rs, [], errno => some { written := [], errno := errno, stderr := [], writes := rs }
  | [], _ :: _, _ => none
  | .count 0 :: rs, _ :: _, errno =>
      some { written := [], errno := errno, stderr := [diskFull], writes := rs }
  | .count (n + 1) :: rs, data, errno =>
      (flushLoop rs (data.drop (n + 1)) errno).map (WriteEnd.after (data.take (n + 1)))
  | .fail .eintr :: rs, data, _ => flushLoop rs data .eintr
  | .fail .other :: rs, _ :: _, _ =>
      some { written := [], errno := .other, stderr := [writeErr], writes := rs }

/-- The loop of `sink_it_`: every `n <= 0` is tried again while `errno` is
`EINTR`, also a zero that left `errno` alone. -/
def directLoop : List WriteResult → Bytes → Errno → Option WriteEnd
  | rs, [], errno => some { written := [], errno := errno, stderr := [], writes := rs }
  | [], _ :: _, _ => none
  | .count 0 :: rs, data, .eintr => directLoop rs data .eintr
  | .count 0 :: rs, _ :: _, .other =>
      some { written := [], errno := .other, stderr := [], writes := rs }
  | .count (n + 1) :: rs, data, errno =>
      (directLoop rs (data.drop (n + 1)) errno).map (WriteEnd.after (data.take (n + 1)))
  | .fail .eintr :: rs, data, _ => directLoop rs data .eintr
  | .fail .other :: rs, _ :: _, _ =>
      some { written := [], errno := .other, stderr := [], writes := rs }

/-- Account for a finished write loop. -/
def State.wrote (s : State) (e : WriteEnd) : State :=
  { s.appendBase e.written with
    currentSize := s.currentSize + e.written.length
    errno := e.errno
    stderr := s.stderr ++ e.stderr
    writes := e.writes }

/-! ## The sink -/

/-- `FlushBuffer`. -/
def State.flushBuffer (s : State) : Option State :=
  if s.fdOpen = false ∨ s.buffer = [] then some s
  else (flushLoop s.writes s.buffer s.errno).map (fun e => { s.wrote e with buffer := [] })

/-- The loop of `RotateFiles` for `i`, ..., `1`; the first pass also unlinks the
last backup. -/
def State.renameBackups : Nat → State → State
  | 0, s => s
  | i + 1, s =>
      let s := if i + 1 = s.maxFiles - 1 then s.unlink (i + 2) else s
      State.renameBackups i (s.rename (i + 1) (i + 2))

/-- `close` of the descriptor. -/
def State.close (s : State) : State :=
  { s with fdOpen := false }

/-- All renames of `RotateFiles`. -/
def State.renameAll (s : State) : State :=
  (State.renameBackups (s.maxFiles - 1) s).rename 0 1

/-- `RotateFiles`, when no string operation runs out of memory. -/
def State.rotateFiles (s : State) : Option State :=
  s.flushBuffer.map (fun s => s.close.renameAll.openFile true)

/-- The rotation check of `sink_it_`. -/
def State.rotateFor (s : State) (msg : Bytes) : Option State :=
  if s.maxSize > 0 ∧ s.currentSize + s.buffer.length + msg.length > s.maxSize then
    s.rotateFiles
  else some s

/-- The direct write of `sink_it_`; `write` on a closed descriptor fails. -/
def State.writeDirect (s : State) (msg : Bytes) : Option State :=
  if s.fdOpen then (directLoop s.writes msg s.errno).map s.wrote
  else some { s with errno := .other }

/-- `memcpy` to the end of the buffer. -/
def State.appendBuffer (s : State) (msg : Bytes) : State :=
  { s with buffer := s.buffer ++ msg }

/-- `sink_it_` after the rotation check. -/
def State.store (s : State) (msg : Bytes) : Option State :=
  if msg.length > internalBufSize then
    s.flushBuffer.bind (fun s => s.writeDirect msg)
  else if s.buffer.length + msg.length > internalBufSize then
    s.flushBuffer.map (fun s => s.appendBuffer msg)
  else some (s.appendBuffer msg)

/-- `sink_it_` on a message that the formatter turned into `msg`. -/
def State.sinkIt (s : State) (msg : Bytes) : Option State :=
  if s.fdOpen = false then some s
  else (s.rotateFor msg).bind (fun s => s.store msg)

/-! ## Runs -/

/-- The calls that spdlog makes. -/
inductive Call where
  | sinkIt (msg : Bytes)
  | flush

/-- The message of a call. -/
def Call.message : Call → Option Bytes
  | .sinkIt msg => some msg
  | .flush => none

/-- One call. -/
def State.call (s : State) : Call → Option State
  | .sinkIt msg => s.sinkIt msg
  | .flush => s.flushBuffer

/-- A sequence of calls. -/
def State.calls : List Call → State → Option State
  | [], s => some s
  | c :: cs, s => (s.call c).bind (State.calls cs)

/-- A sequence of calls and a final flush. -/
def State.callsAndFlush (cs : List Call) (s : State) : Option State :=
  (State.calls cs s).bind State.flushBuffer

end FileSink
end Log
end DtCore
