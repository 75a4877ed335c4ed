import DtCore.Foundation.Lines

/-!
# What the drain thread does with an entry

`FlushEntry` hands one queue entry to a logger.  An entry whose logger name
starts with `CONT_ENTRY_MARKER` carries `LOG_CONT` text: its bytes go to the
continuation buffer, and `FlushContLines` hands every complete line of the
buffer to the default logger, with an indent.  Any other entry first forces out
the unterminated line and then goes to its own logger.

The logger calls are calls into spdlog.  What they do with a message is not part
of the model; `Spdlog` only says which logger names are registered and where, if
at all, a try block of the drain thread throws.  The bytes are letters of any
type with a newline test, so that a run can also be read with every letter
carrying the entry it came from.

Main definitions:

- `Drain.flushContLines`: the line loop over the continuation buffer.
- `Drain.flushEntry`: one entry.
- `Drain.flushAll`: a sequence of entries.
-/

namespace DtCore
namespace Log
namespace RtLog

open Foundation

/-! ## Entries -/

/-- `spdlog::level::level_enum`. -/
inductive LogLevel where
  | trace
  | debug
  | info
  | warn
  | err
  | critical
  | off
deriving DecidableEq, Repr, Inhabited

/-- `static_cast<int>(lvl)`. -/
def LogLevel.toInt : LogLevel → Int
  | .trace => 0
  | .debug => 1
  | .info => 2
  | .warn => 3
  | .err => 4
  | .critical => 5
  | .off => 6

/-- The letters of log messages. -/
class LogByte (β : Type) where
  space : β
  isNewline : β → Bool

export LogByte (space isNewline)

instance : LogByte UInt8 where
  space := 32
  isNewline b := b == 10

/-- A letter may carry the place it came from; the indent comes from nowhere. -/
instance {β γ : Type} [LogByte β] : LogByte (β × Option γ) where
  space := (space, none)
  isNewline b := isNewline b.1

/-- `LogQueue::Entry`: `msg` is `msg[0 .. msgLen)` and `loggerName` the bytes
before the terminating NUL. -/
structure Entry (β : Type) where
  timeStamp_ns : Int
  level : LogLevel
  msg : List β
  loggerName : List UInt8
deriving DecidableEq, Inhabited

/-- `CONT_ENTRY_MARKER`. -/
def contEntryMarker : UInt8 := 1

/-- `CONT_BUF_SIZE = QUEUE_MSGLEN * 4`. -/
def contBufSize : Nat := 1024 * 4

/-- `DEFAULT_CONT_INDENT`. -/
def defaultContIndent : Nat := 21

/-- `entry.loggerName[0] == CONT_ENTRY_MARKER`. -/
def Entry.isCont {β : Type} (e : Entry β) : Bool :=
  e.loggerName.head? == some contEntryMarker

/-- `TimeBase`. -/
structure TimeBase where
  wall_ns : Int
  monotonic_ns : Int

/-- `TimeBase::ToWall_ns`. -/
def TimeBase.toWall_ns (tb : TimeBase) (mono_ns : Int) : Int :=
  tb.wall_ns + (mono_ns - tb.monotonic_ns)

/-! ## Loggers -/

/-- Where the try block around a continuation line throws. -/
inductive Fault where
  | none
  | setPattern
  | log
  | restorePattern
deriving DecidableEq

/-- The spdlog side of a run: the registered names, what happens in the try block
of the `n`-th continuation line, and whether the one of the `n`-th other entry
throws. -/
structure Spdlog where
  registered : List UInt8 → Bool
  lineFault : Nat → Fault
  entryThrows : Nat → Bool

/-- The logger an entry goes to. -/
inductive Target where
  | default
  | named (name : List UInt8)
deriving DecidableEq

/-- One try block of the drain thread: a continuation line for the default
logger, or an entry for its target. -/
inductive Event (β : Type) where
  | line (level : LogLevel) (text : List β) (fault : Fault)
  | entry (target : Target) (time : Int) (level : LogLevel) (text : List β) (thrown : Bool)

/-- The try block of an entry that is not a continuation. -/
def Event.isEntry {β : Type} : Event β → Bool
  | .line _ _ _ => false
  | .entry _ _ _ _ _ => true

/-- The logger call returned, so the text was handed to the logger. -/
def Event.handed {β : Type} : Event β → Bool
  | .line _ _ .none => true
  | .line _ _ .restorePattern => true
  | .line _ _ .setPattern => false
  | .line _ _ .log => false
  | .entry _ _ _ _ thrown => !thrown

/-- The try block threw, so `m_dropCount` was increased. -/
def Event.counted {β : Type} : Event β → Bool
  | .line _ _ .none => false
  | .line _ _ _ => true
  | .entry _ _ _ _ thrown => thrown

/-! ## The drain thread's state -/

/-- The members of `RtLog` that `FlushEntry` and `FlushContLines` use.  `logger`
is `m_logger` with its current pattern; `lineCalls` and `entryCalls` count the
try blocks of the two kinds and `events` records them. -/
structure Drain (β : Type) where
  logger : Option String
  timebase : TimeBase
  contBuf : List β
  contLevel : LogLevel
  patternStr : String
  dropCount : Nat
  lineCalls : Nat
  entryCalls : Nat
  events : List (Event β)

section Flush

variable {β : Type} [LogByte β]

/-- The try block around a continuation line: `set_pattern("%v")`, `log`, and
`set_pattern(m_patternStr)`; the handler counts a drop. -/
def Drain.logLine (env : Spdlog) (s : Drain β) (text : List β) : Drain β :=
  let fault := env.lineFault s.lineCalls
  let s' := { s with
    lineCalls := s.lineCalls + 1
    events := s.events ++ [Event.line s.contLevel text fault] }
  match fault with
  | .none => { s' with logger := s.logger.map fun _ => s.patternStr }
  | .setPattern => { s' with dropCount := s.dropCount + 1 }
  | .log => { s' with logger := s.logger.map fun _ => "%v", dropCount := s.dropCount + 1 }
  | .restorePattern =>
      { s' with logger := s.logger.map fun _ => "%v", dropCount := s.dropCount + 1 }

/-- The line that starts at the front of the buffer and what follows it: up to
the next newline, or with `force` all that is left. -/
def nextLine (force : Bool) (rest : List β) : Option (List β × List β) :=
  match rest.findIdx? isNewline with
  | some i => some (rest.take i, rest.drop (i + 1))
  | none => if force then some (rest, []) else none

/-- A line and what follows it are shorter than the buffer they come from. -/
theorem nextLine_length {force : Bool} {rest line rest' : List β} (hne : rest ≠ [])
    (h : nextLine force rest = some (line, rest')) : rest'.length < rest.length := by
  have hpos : 0 < rest.length := List.length_pos_iff.mpr hne
  unfold nextLine at h
  split at h
  · rename_i i hi
    have hlt := (List.findIdx?_eq_some_iff_getElem.mp hi).1
    cases h
    rw [List.length_drop]
    omega
  · split at h
    · cases h
      simpa using hpos
    · contradiction

/-- Build the indented line. -/
def indentLine (line : List β) : List β :=
  List.replicate defaultContIndent space ++ line.take contBufSize

/-- The while loop of `FlushContLines`; the result has the bytes from `start`
on. -/
def Drain.flushLoop (env : Spdlog) (force : Bool) (s : Drain β) (rest : List β) :
    Drain β × List β :=
  if _hne : rest = [] then (s, [])
  else
    match _hnext : nextLine force rest with
    | none => (s, rest)
    | some (line, rest') => (s.logLine env (indentLine line)).flushLoop env force rest'
termination_by rest.length
decreasing_by exact nextLine_length _hne _hnext

/-- `FlushContLines`: without a default logger nothing happens, otherwise the
lines go out and the remaining bytes slide to the front. -/
def Drain.flushContLines (env : Spdlog) (force : Bool) (s : Drain β) : Drain β :=
  match s.logger with
  | none => s
  | some _ =>
      let r := s.flushLoop env force s.contBuf
      { r.1 with contBuf := r.2 }

/-- The logger of an entry: the registered one of its name, else the default
one. -/
def Drain.target (env : Spdlog) (s : Drain β) (e : Entry β) : Option Target :=
  if e.loggerName ≠ [] ∧ env.registered e.loggerName = true then some (.named e.loggerName)
  else s.logger.map fun _ => .default

/-- The try block around an entry that is not a continuation. -/
def Drain.logEntry (env : Spdlog) (s : Drain β) (e : Entry β) : Drain β :=
  match s.target env e with
  | none => s
  | some target =>
      let thrown := env.entryThrows s.entryCalls
      { s with
        entryCalls := s.entryCalls + 1
        dropCount := if thrown then s.dropCount + 1 else s.dropCount
        events := s.events ++
          [Event.entry target (s.timebase.toWall_ns e.timeStamp_ns) e.level e.msg thrown] }

/-- `FlushEntry`. -/
def Drain.flushEntry (env : Spdlog) (s : Drain β) (e : Entry β) : Drain β :=
  if e.isCont then
    let avail := contBufSize - s.contBuf.length
    { s with
      contBuf := s.contBuf ++ e.msg.take avail
      contLevel := e.level }.flushContLines env false
  else
    let s' := if s.contBuf ≠ [] then s.flushContLines env true else s
    s'.logEntry env e

/-- Entries fed one by one. -/
def Drain.flushAll (env : Spdlog) (s : Drain β) (es : List (Entry β)) : Drain β :=
  es.foldl (Drain.flushEntry env) s

end Flush

end RtLog
end Log
end DtCore
