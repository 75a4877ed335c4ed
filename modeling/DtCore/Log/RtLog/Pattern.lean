import DtCore.Log.RtLog.Continuation
import DtCore.Log.RtLog.Levels

/-!
# The pattern of the default logger

`FlushContLines` sets the pattern of the default logger to `%v` for each line and then
back to `m_patternStr`.  That string is written by `Initialize` and by the overloads of
`SetLogPattern` without a logger name.  The overloads with a name set the pattern of a
registered logger, which may be the default one, and do not touch it.

Every sink of a logger has a pattern.  `set_pattern` of a logger gives one pattern to all
of its sinks in turn, so that an exception may leave the last ones as they were; `Initialize`
gives each sink its own.

Main definitions:

- `PatternCall`: the calls that set patterns, and those of the drain thread.
- `Recent.step`: the patterns most recently set for the default logger.
- `FlushesRestore`: every flush puts back the patterns that were set.
- `FlushesMatch`: every flush of a line finds the patterns in the cache.

Main results:

- Theorem `flush_kept_iff`: what one flush leaves in the sinks.
- Theorem `pattern_kept_iff`: when the flushes of a run leave the patterns alone.
- Theorem `named_pattern_lost`: a pattern that does not survive a line.
-/

namespace DtCore
namespace Log
namespace RtLog

open Foundation

/-! ## Pattern strings -/

/-- The pattern of the terminal and file sinks. -/
def colorPattern : String :=
  "%^[%L][%H:%M:%S.%f]%$ %v"

/-- The pattern of the syslog sink. -/
def syslogPattern : String :=
  "[%L][%H:%M:%S.%f] %v"

/-- `LogPatternFlag`. -/
inductive LogPatternFlag where
  | type
  | typeLong
  | name
  | date
  | time
  | datetime
  | epoch
  | elapsed

/-- The bit of a flag. -/
def LogPatternFlag.bit : LogPatternFlag → UInt32
  | .type => 0x0001
  | .typeLong => 0x0002
  | .name => 0x0004
  | .date => 0x0010
  | .time => 0x0020
  | .datetime => 0x0040
  | .epoch => 0x0080
  | .elapsed => 0x0100

/-- `pattern & flag`. -/
def hasFlag (pattern : UInt32) (flag : LogPatternFlag) : Bool :=
  pattern &&& flag.bit != 0

/-- The string that `SetLogPattern` builds from a set of flags. -/
def flagPattern (pattern : UInt32) (delimiter : String) : String :=
  let type :=
    if hasFlag pattern .type then "%L" ++ delimiter
    else if hasFlag pattern .typeLong then "%l" ++ delimiter
    else ""
  let date :=
    if hasFlag pattern .date then "%Y-%m-%d" ++ delimiter
    else if hasFlag pattern .time then "%H:%M:%S.%f" ++ delimiter
    else if hasFlag pattern .datetime then "%Y-%m-%d %H:%M:%S.%f" ++ delimiter
    else if hasFlag pattern .epoch then "%E.%f" ++ delimiter
    else ""
  let elapsed := if hasFlag pattern .elapsed then "%8i" ++ delimiter else ""
  let name := if hasFlag pattern .name then "%n" ++ delimiter else ""
  "%^" ++ type ++ date ++ elapsed ++ name ++ "%$%v"

/-- Where a logger writes to, from the file name given for it. -/
inductive Output where
  | stdout
  | syslog
  | file

/-- The sinks that `Initialize` gives the default logger, by their patterns: the terminal
first. -/
def Output.defaultSinks : Output → List String
  | .stdout => [colorPattern]
  | .syslog => [colorPattern, syslogPattern]
  | .file => [colorPattern, colorPattern]

/-- The sink that `Create` gives a logger. -/
def Output.createdSinks : Output → List String
  | .stdout => [colorPattern]
  | .syslog => [syslogPattern]
  | .file => [colorPattern]

/-! ## The sinks of a logger -/

/-- `set_pattern`. -/
def setPatterns (pattern : String) (sinks : List String) : List String :=
  sinks.map fun _ => pattern

/-- `set_pattern` that throws when it has reached that many sinks. -/
def setPatternsUpTo (reached : Nat) (pattern : String) (sinks : List String) : List String :=
  sinks.mapIdx fun i old => if i < reached then pattern else old

/-- The try block of a continuation line, up to where it throws. -/
def Fault.line (patternStr : String) (reached : Nat) (sinks : List String) :
    Fault → List String
  | .none => setPatterns patternStr (setPatterns "%v" sinks)
  | .setPattern => setPatternsUpTo reached "%v" sinks
  | .log => setPatterns "%v" sinks
  | .restorePattern => setPatternsUpTo reached patternStr (setPatterns "%v" sinks)

/-- What may go wrong in the drain thread: the faults of the lines and how many sinks a
throwing `set_pattern` has reached, and the entries that throw. -/
structure Faults where
  lineFault : Nat → Fault
  reached : Nat → Nat
  entryThrows : Nat → Bool

/-- The sinks after some lines, from the line number `first` on. -/
def Faults.lines (faults : Faults) (patternStr : String) (first count : Nat)
    (sinks : List String) : List String :=
  (List.range' first count).foldl
    (fun sinks n => (faults.lineFault n).line patternStr (faults.reached n) sinks) sinks

/-! ## The state -/

/-- The loggers, the drain thread with `m_patternStr`, and the patterns of the sinks of every
logger.  Of `drain.logger` it only matters here whether there is one. -/
structure Patterned where
  loggers : Loggers
  drain : Drain UInt8
  sinks : Nat → List String

/-- At the start of the program; `m_patternStr` is empty. -/
def Patterned.start : Patterned where
  loggers := Loggers.start
  drain := { Drain.initialized "" { wall_ns := 0, monotonic_ns := 0 } .info with logger := none }
  sinks := fun _ => [colorPattern]

/-- A call that sets patterns or makes the drain thread write. -/
inductive PatternCall where
  | initializeLog (logName : List UInt8) (output : Output) (timebase : TimeBase)
      (threadCreated : Bool)
  | create (logName : List UInt8) (output : Output)
  | setLogPattern (pattern : UInt32) (delimiter : String)
  | setLogPatternOf (loggerName : List UInt8) (pattern : UInt32) (delimiter : String)
  | setRawPattern (rawPattern : String)
  | setRawPatternOf (loggerName : List UInt8) (rawPattern : String)
  | flushEntry (e : Entry UInt8)
  | flushContLines (force : Bool)

/-- The drain thread runs. -/
def PatternCall.flushes : PatternCall → Bool
  | .flushEntry _ => true
  | .flushContLines _ => true
  | _ => false

/-- spdlog as the drain thread sees it. -/
def Patterned.spdlog (faults : Faults) (s : Patterned) : Spdlog where
  registered name := (s.loggers.registry name).isSome
  lineFault := faults.lineFault
  entryThrows := faults.entryThrows

/-- The patterns of the sinks of the default logger. -/
def Patterned.defaultSinks (s : Patterned) : List String :=
  match s.loggers.logger with
  | some id => s.sinks id
  | none => []

/-- `Initialize`. -/
def Patterned.initializeLog (erases : Bool) (s : Patterned) (logName : List UInt8)
    (output : Output) (timebase : TimeBase) (threadCreated : Bool) : Patterned :=
  if s.loggers.initialized then s
  else
    { loggers := s.loggers.initializeLog erases logName threadCreated
      drain := { s.drain with
        logger := some colorPattern
        timebase := timebase
        patternStr := colorPattern
        contBuf := [] }
      sinks := Function.update s.sinks s.loggers.next output.defaultSinks }

/-- `Create`; nothing is left of a logger whose registration throws. -/
def Patterned.create (s : Patterned) (logName : List UInt8) (output : Output) : Patterned :=
  match s.loggers.create logName with
  | none => s
  | some loggers =>
      { s with
        loggers := loggers
        sinks := Function.update s.sinks s.loggers.next output.createdSinks }

/-- `set_pattern` for one logger. -/
def Patterned.setPatternAt (s : Patterned) (id : Option Nat) (pattern : String) : Patterned :=
  match id with
  | some id => { s with sinks := Function.update s.sinks id (setPatterns pattern (s.sinks id)) }
  | none => s

/-- The overloads without a logger name, behind their `Sync`. -/
def Patterned.setDefault (s : Patterned) (pattern : String) : Patterned :=
  { s with drain := { s.drain with patternStr := pattern } }.setPatternAt s.loggers.logger pattern

/-- The overloads with a logger name, behind their `Sync`. -/
def Patterned.setNamed (s : Patterned) (loggerName : List UInt8) (pattern : String) :
    Patterned :=
  s.setPatternAt (s.loggers.registry loggerName) pattern

/-- The drain thread has gone on to `drain'`. -/
def Patterned.drained (faults : Faults) (s : Patterned) (drain' : Drain UInt8) : Patterned :=
  match s.loggers.logger with
  | some id =>
      { s with
        drain := drain'
        sinks := Function.update s.sinks id
          (faults.lines s.drain.patternStr s.drain.lineCalls
            (drain'.lineCalls - s.drain.lineCalls) (s.sinks id)) }
  | none => { s with drain := drain' }

/-- One call. -/
def Patterned.call (erases : Bool) (faults : Faults) (s : Patterned) :
    PatternCall → Patterned
  | .initializeLog logName output timebase threadCreated =>
      s.initializeLog erases logName output timebase threadCreated
  | .create logName output => s.create logName output
  | .setLogPattern pattern delimiter => s.setDefault (flagPattern pattern delimiter)
  | .setLogPatternOf loggerName pattern delimiter =>
      s.setNamed loggerName (flagPattern pattern delimiter)
  | .setRawPattern rawPattern => s.setDefault rawPattern
  | .setRawPatternOf loggerName rawPattern => s.setNamed loggerName rawPattern
  | .flushEntry e => s.drained faults (s.drain.flushEntry (s.spdlog faults) e)
  | .flushContLines force => s.drained faults (s.drain.flushContLines (s.spdlog faults) force)

/-! ## What the calls set -/

/-- What was set for the default logger: the patterns of its sinks, and the pattern most
recently set by `Initialize` or by an overload without a name. -/
structure Recent where
  initialized : Bool
  name : List UInt8
  patterns : List String
  cached : String

def Recent.start : Recent where
  initialized := false
  name := []
  patterns := []
  cached := ""

/-- All sinks of the default logger get one pattern. -/
def Recent.setAll (r : Recent) (pattern : String) : Recent :=
  { r with patterns := setPatterns pattern r.patterns }

/-- One call. -/
def Recent.step (r : Recent) : PatternCall → Recent
  | .initializeLog logName output _ threadCreated =>
      if r.initialized then r
      else
        { initialized := threadCreated
          name := logName
          patterns := output.defaultSinks
          cached := colorPattern }
  | .setLogPattern pattern delimiter =>
      { r.setAll (flagPattern pattern delimiter) with cached := flagPattern pattern delimiter }
  | .setRawPattern rawPattern => { r.setAll rawPattern with cached := rawPattern }
  | .setLogPatternOf loggerName pattern delimiter =>
      if loggerName = r.name then r.setAll (flagPattern pattern delimiter) else r
  | .setRawPatternOf loggerName rawPattern =>
      if loggerName = r.name then r.setAll rawPattern else r
  | .create _ _ => r
  | .flushEntry _ => r
  | .flushContLines _ => r

/-- The lines that a call of the drain thread takes from the buffer. -/
def PatternCall.lines (d : Drain UInt8) : PatternCall → List (List UInt8)
  | .flushContLines force => takenLines force d.contBuf
  | .flushEntry e =>
      if e.isCont then
        takenLines false (d.contBuf ++ e.msg.take (contBufSize - d.contBuf.length))
      else takenLines true d.contBuf
  | _ => []

/-- What one line leaves in the sink number `i`, unless it does not reach it. -/
def Fault.leaves (patternStr : String) (reached i : Nat) : Fault → Option String
  | .none => some patternStr
  | .setPattern => if i < reached then some "%v" else Option.none
  | .log => some "%v"
  | .restorePattern => some (if i < reached then patternStr else "%v")

/-- What the last line that reaches the sink number `i` leaves in it. -/
def Faults.leaves (faults : Faults) (patternStr : String) (first count i : Nat) :
    Option String :=
  ((List.range' first count).filterMap
    (fun n => (faults.lineFault n).leaves patternStr (faults.reached n) i)).getLast?

/-- The call puts back what was set: in every sink the last line that reaches it leaves the
pattern most recently set for the sink. -/
def Restores (faults : Faults) (d : Drain UInt8) (r : Recent) (c : PatternCall) : Prop :=
  ∀ i, i < r.patterns.length → ∀ pattern,
    faults.leaves r.cached d.lineCalls (c.lines d).length i = some pattern →
      r.patterns[i]? = some pattern

/-- The sinks of the default logger have the patterns that were set. -/
def Kept (s : Patterned) (r : Recent) : Prop :=
  s.defaultSinks = r.patterns

/-- After every call of the drain thread the sinks have the patterns that were set. -/
def FlushesKeep (erases : Bool) (faults : Faults) : Patterned → Recent → List PatternCall → Prop
  | _, _, [] => True
  | s, r, c :: cs =>
      (c.flushes = true → Kept (s.call erases faults c) (r.step c)) ∧
        FlushesKeep erases faults (s.call erases faults c) (r.step c) cs

/-- Every call of the drain thread restores the patterns. -/
def FlushesRestore (erases : Bool) (faults : Faults) :
    Patterned → Recent → List PatternCall → Prop
  | _, _, [] => True
  | s, r, c :: cs =>
      (c.flushes = true → Restores faults s.drain r c) ∧
        FlushesRestore erases faults (s.call erases faults c) (r.step c) cs

/-- The call takes no line, or every sink was most recently set to what is cached. -/
def Matches (d : Drain UInt8) (r : Recent) (c : PatternCall) : Prop :=
  c.lines d = [] ∨ ∀ i, i < r.patterns.length → r.patterns[i]? = some r.cached

/-- Every call of the drain thread that takes a line finds the patterns in the cache. -/
def FlushesMatch (erases : Bool) (faults : Faults) :
    Patterned → Recent → List PatternCall → Prop
  | _, _, [] => True
  | s, r, c :: cs =>
      (c.flushes = true → Matches s.drain r c) ∧
        FlushesMatch erases faults (s.call erases faults c) (r.step c) cs

/-- The same without exceptions in the lines. -/
def Faults.quiet (faults : Faults) : Faults :=
  { faults with lineFault := fun _ => .none }

/-! ## The lines of a flush -/

theorem getElem?_setPatterns (pattern : String) (sinks : List String) (i : Nat) :
    (setPatterns pattern sinks)[i]? = sinks[i]?.map (fun _ => pattern) :=
  List.getElem?_map

theorem getElem?_setPatternsUpTo (reached : Nat) (pattern : String) (sinks : List String)
    (i : Nat) : (setPatternsUpTo reached pattern sinks)[i]? =
      sinks[i]?.map (fun old => if i < reached then pattern else old) :=
  List.getElem?_mapIdx

theorem getElem?_line (patternStr : String) (reached : Nat) (sinks : List String) (f : Fault)
    (i : Nat) : (f.line patternStr reached sinks)[i]? =
      sinks[i]?.map (fun old => (f.leaves patternStr reached i).getD old) := by
  cases f with
  | none =>
      rw [Fault.line, getElem?_setPatterns, getElem?_setPatterns, Option.map_map]
      rfl
  | setPattern =>
      rw [Fault.line, getElem?_setPatternsUpTo]
      unfold Fault.leaves
      split <;> rfl
  | log =>
      rw [Fault.line, getElem?_setPatterns]
      rfl
  | restorePattern =>
      rw [Fault.line, getElem?_setPatternsUpTo, getElem?_setPatterns, Option.map_map]
      rfl

/-- A sink has what the last line that reached it has left in it. -/
theorem getElem?_lines (faults : Faults) (patternStr : String) (first count : Nat)
    (sinks : List String) (i : Nat) :
    (faults.lines patternStr first count sinks)[i]? =
      sinks[i]?.map (fun old => (faults.leaves patternStr first count i).getD old) := by
  unfold Faults.lines Faults.leaves
  generalize List.range' first count = ns
  induction ns using List.reverseRecOn with
  | nil => simp
  | append_singleton ns n ih =>
      rw [List.foldl_append, List.foldl_cons, List.foldl_nil, getElem?_line, ih,
        List.filterMap_append, Option.map_map]
      congr 1
      funext old
      cases hleaves : (faults.lineFault n).leaves patternStr (faults.reached n) i <;>
        simp [hleaves]

/-- The loop stops where no line is complete. -/
theorem takenLines_of_none {force : Bool} {rest : List UInt8} (hne : rest ≠ [])
    (hnext : nextLine force rest = none) : takenLines force rest = [] := by
  rcases exists_newline_or_not isNewline rest with hno | ⟨line, b, rest', rfl, hline, hb⟩
  · rw [nextLine_of_no_newline force hno] at hnext
    cases force with
    | false => simp [takenLines, cutLines_of_no_newline isNewline hno]
    | true => contradiction
  · rw [nextLine_of_newline force hline hb] at hnext
    contradiction

/-- The loop takes the next line and goes on behind it. -/
theorem takenLines_of_some {force : Bool} {rest line rest' : List UInt8} (hne : rest ≠ [])
    (hnext : nextLine force rest = some (line, rest')) :
    takenLines force rest = line :: takenLines force rest' := by
  rcases exists_newline_or_not isNewline rest with hno | ⟨l, b, r, rfl, hline, hb⟩
  · rw [nextLine_of_no_newline force hno] at hnext
    cases force with
    | false => contradiction
    | true =>
        rcases Prod.mk.inj (Option.some.inj hnext) with ⟨rfl, rfl⟩
        simp [takenLines, textLines_of_no_newline isNewline hno hne]
  · rw [nextLine_of_newline force hline hb] at hnext
    rcases Prod.mk.inj (Option.some.inj hnext) with ⟨rfl, rfl⟩
    cases force with
    | false => simp [takenLines, cutLines_of_newline isNewline hline hb]
    | true => simp [takenLines, textLines_of_newline isNewline hline hb]

theorem logLine_lineCalls (env : Spdlog) (d : Drain UInt8) (text : List UInt8) :
    (d.logLine env text).lineCalls = d.lineCalls + 1 ∧
      (d.logLine env text).patternStr = d.patternStr := by
  unfold Drain.logLine
  cases env.lineFault d.lineCalls <;> exact ⟨rfl, rfl⟩

/-- The line loop makes one try block for each line and leaves `m_patternStr`. -/
theorem flushLoop_lineCalls (env : Spdlog) (force : Bool) (d : Drain UInt8)
    (rest : List UInt8) :
    (d.flushLoop env force rest).1.lineCalls =
        d.lineCalls + (takenLines force rest).length ∧
      (d.flushLoop env force rest).1.patternStr = d.patternStr := by
  fun_induction Drain.flushLoop env force d rest with
  | case1 d => cases force <;> simp [takenLines]
  | case2 d rest hne hnext => simp [takenLines_of_none hne hnext]
  | case3 d rest hne line rest' hnext ih =>
      have hline := logLine_lineCalls env d (indentLine line)
      rw [takenLines_of_some hne hnext, ih.1, ih.2, hline.1, hline.2, List.length_cons]
      exact ⟨by omega, rfl⟩

theorem flushContLines_lineCalls (env : Spdlog) (force : Bool) {d : Drain UInt8}
    (hlogger : d.logger.isSome = true) :
    (d.flushContLines env force).lineCalls =
        d.lineCalls + (takenLines force d.contBuf).length ∧
      (d.flushContLines env force).patternStr = d.patternStr := by
  rcases Option.isSome_iff_exists.mp hlogger with ⟨pattern, hsome⟩
  unfold Drain.flushContLines
  rw [hsome]
  exact flushLoop_lineCalls env force d d.contBuf

theorem logEntry_lineCalls (env : Spdlog) (d : Drain UInt8) (e : Entry UInt8) :
    (d.logEntry env e).lineCalls = d.lineCalls ∧
      (d.logEntry env e).patternStr = d.patternStr := by
  unfold Drain.logEntry
  split <;> exact ⟨rfl, rfl⟩

theorem flushEntry_lineCalls (env : Spdlog) (e : Entry UInt8) {d : Drain UInt8}
    (hlogger : d.logger.isSome = true) :
    (d.flushEntry env e).lineCalls =
        d.lineCalls + ((PatternCall.flushEntry e).lines d).length ∧
      (d.flushEntry env e).patternStr = d.patternStr := by
  unfold Drain.flushEntry
  by_cases hcont : e.isCont = true
  · have hlines : (PatternCall.flushEntry e).lines d =
        takenLines false (d.contBuf ++ e.msg.take (contBufSize - d.contBuf.length)) :=
      if_pos hcont
    rw [if_pos hcont, hlines]
    exact flushContLines_lineCalls env false hlogger
  · have hlines : (PatternCall.flushEntry e).lines d = takenLines true d.contBuf := if_neg hcont
    have hlog := logEntry_lineCalls env
      (if d.contBuf ≠ [] then d.flushContLines env true else d) e
    rw [if_neg hcont, hlines, hlog.1, hlog.2]
    by_cases hbuf : d.contBuf = []
    · simp [hbuf, takenLines]
    · rw [if_pos hbuf]
      exact flushContLines_lineCalls env true hlogger

/-! ## The state follows the calls -/

/-- The state is as the calls have set it, apart from what flushes do to the sinks. -/
structure Follows (s : Patterned) (r : Recent) : Prop where
  inv : LoggersInv s.loggers
  initialized : s.loggers.initialized = r.initialized
  registered : ∀ id, s.loggers.logger = some id → s.loggers.registry r.name = some id
  none_set : s.loggers.logger = none → r.patterns = []
  length : s.defaultSinks.length = r.patterns.length
  cached : s.drain.patternStr = r.cached
  logger : s.drain.logger.isSome = s.loggers.logger.isSome

theorem follows_start : Follows Patterned.start Recent.start where
  inv := start_inv
  initialized := rfl
  registered := by simp [Patterned.start, Loggers.start]
  none_set := fun _ => rfl
  length := rfl
  cached := rfl
  logger := rfl

theorem length_setPatterns (pattern : String) (sinks : List String) :
    (setPatterns pattern sinks).length = sinks.length :=
  List.length_map _

section Calls

variable {s : Patterned} {r : Recent}

theorem Follows.initializeLog (h : Follows s r) (erases : Bool) (logName : List UInt8)
    (output : Output) (timebase : TimeBase) (threadCreated : Bool) :
    Follows (s.initializeLog erases logName output timebase threadCreated)
        (r.step (.initializeLog logName output timebase threadCreated)) ∧
      (Kept s r → Kept (s.initializeLog erases logName output timebase threadCreated)
        (r.step (.initializeLog logName output timebase threadCreated))) := by
  have hinv := h.inv.initializeLog erases logName threadCreated
  unfold Patterned.initializeLog Recent.step
  rw [← h.initialized]
  split
  · exact ⟨h, fun hkept => hkept⟩
  · rename_i hinit
    have hsinks : ∀ d : Drain UInt8, Patterned.defaultSinks
        { loggers := s.loggers.initializeLog erases logName threadCreated
          drain := d
          sinks := Function.update s.sinks s.loggers.next output.defaultSinks } =
        output.defaultSinks := by
      intro d
      unfold Patterned.defaultSinks Loggers.initializeLog
      rw [if_neg hinit]
      exact Function.update_self _ _ _
    constructor
    · constructor
      case inv => exact hinv
      case initialized => simp [Loggers.initializeLog, hinit]
      case registered =>
        intro id hid
        simp only [Loggers.initializeLog, hinit, Bool.false_eq_true, if_false] at hid ⊢
        rw [Function.update_self]
        exact hid
      case none_set =>
        intro hnone
        simp [Loggers.initializeLog, hinit] at hnone
      case length => rw [hsinks]
      case cached => rfl
      case logger => simp [Loggers.initializeLog, hinit]
    · intro _
      exact hsinks _

theorem Follows.create (h : Follows s r) (logName : List UInt8) (output : Output) :
    Follows (s.create logName output) r ∧
      (Kept s r → Kept (s.create logName output) r) := by
  unfold Patterned.create
  cases hcreate : s.loggers.create logName with
  | none => exact ⟨h, fun hkept => hkept⟩
  | some loggers =>
      have hinv := h.inv.create hcreate
      unfold Loggers.create at hcreate
      split at hcreate
      · contradiction
      · rename_i hnew
        cases hcreate
        have hsinks : Patterned.defaultSinks
            { s with
              loggers := { s.loggers with
                registry := Function.update s.loggers.registry logName (some s.loggers.next)
                levels := Function.update s.loggers.levels s.loggers.next .info
                created := Function.update s.loggers.created s.loggers.next true
                next := s.loggers.next + 1 }
              sinks := Function.update s.sinks s.loggers.next output.createdSinks } =
            s.defaultSinks := by
          unfold Patterned.defaultSinks
          cases hid : s.loggers.logger with
          | none => rfl
          | some id => exact Function.update_of_ne (Nat.ne_of_lt (h.inv.default id hid).1) _ _
        constructor
        · constructor
          case inv => exact hinv
          case initialized => exact h.initialized
          case registered =>
            intro id hid
            have hold := h.registered id hid
            have hne : r.name ≠ logName := by
              intro heq
              rw [← heq, hold] at hnew
              exact hnew rfl
            show Function.update s.loggers.registry logName _ r.name = some id
            rw [Function.update_of_ne hne]
            exact hold
          case none_set => exact h.none_set
          case length =>
            rw [hsinks]
            exact h.length
          case cached => exact h.cached
          case logger => exact h.logger
        · intro hkept
          exact hsinks.trans hkept

/-- A pattern for the default logger. -/
theorem defaultSinks_setPatternAt (s : Patterned) (pattern : String) :
    (s.setPatternAt s.loggers.logger pattern).defaultSinks =
      setPatterns pattern s.defaultSinks := by
  unfold Patterned.defaultSinks
  cases hid : s.loggers.logger with
  | none =>
      simp only [Patterned.setPatternAt, hid]
      rfl
  | some id => simp [Patterned.setPatternAt, hid]

theorem setPatternAt_loggers (s : Patterned) (id : Option Nat) (pattern : String) :
    (s.setPatternAt id pattern).loggers = s.loggers ∧
      (s.setPatternAt id pattern).drain = s.drain := by
  cases id <;> exact ⟨rfl, rfl⟩

/-- Only patterns change. -/
theorem Follows.repaint {s' : Patterned} {r' : Recent} (h : Follows s r)
    (hloggers : s'.loggers = s.loggers) (hcached : s'.drain.patternStr = r'.cached)
    (hlogger : s'.drain.logger.isSome = s.drain.logger.isSome)
    (hinit : r'.initialized = r.initialized) (hname : r'.name = r.name)
    (hnone : r.patterns = [] → r'.patterns = [])
    (hlength : s'.defaultSinks.length = r'.patterns.length) : Follows s' r' where
  inv := by
    rw [hloggers]
    exact h.inv
  initialized := by
    rw [hloggers, hinit]
    exact h.initialized
  registered := by
    rw [hloggers, hname]
    exact h.registered
  none_set := by
    rw [hloggers]
    exact fun hnil => hnone (h.none_set hnil)
  length := hlength
  cached := hcached
  logger := by
    rw [hlogger, hloggers]
    exact h.logger

theorem setAll_nil {pattern : String} (hnil : r.patterns = []) :
    (r.setAll pattern).patterns = [] := by
  unfold Recent.setAll
  rw [hnil]
  rfl

theorem Follows.setDefault (h : Follows s r) (pattern : String) :
    Follows (s.setDefault pattern) { r.setAll pattern with cached := pattern } ∧
      (Kept s r → Kept (s.setDefault pattern) { r.setAll pattern with cached := pattern }) := by
  have hsame : (s.setDefault pattern).loggers = s.loggers ∧
      (s.setDefault pattern).drain = { s.drain with patternStr := pattern } :=
    setPatternAt_loggers { s with drain := { s.drain with patternStr := pattern } } _ pattern
  have hsinks : (s.setDefault pattern).defaultSinks = setPatterns pattern s.defaultSinks :=
    defaultSinks_setPatternAt { s with drain := { s.drain with patternStr := pattern } } pattern
  have hlength : (s.setDefault pattern).defaultSinks.length =
      (r.setAll pattern).patterns.length := by
    rw [hsinks, length_setPatterns, h.length]
    exact (length_setPatterns pattern r.patterns).symm
  constructor
  · exact h.repaint hsame.1 (by rw [hsame.2]) (by rw [hsame.2]) rfl rfl setAll_nil hlength
  · intro hkept
    show (s.setDefault pattern).defaultSinks = setPatterns pattern r.patterns
    rw [hsinks, hkept]

/-- A pattern for a name reaches the default logger under its own name only. -/
theorem defaultSinks_setNamed (h : Follows s r) (loggerName : List UInt8) (pattern : String) :
    (s.setNamed loggerName pattern).defaultSinks =
      if loggerName = r.name then setPatterns pattern s.defaultSinks else s.defaultSinks := by
  cases hid : s.loggers.logger with
  | none =>
      have hnil : s.defaultSinks = [] := by
        unfold Patterned.defaultSinks
        rw [hid]
      have hnil' : (s.setNamed loggerName pattern).defaultSinks = [] := by
        unfold Patterned.defaultSinks Patterned.setNamed
        rw [(setPatternAt_loggers s _ pattern).1, hid]
      rw [hnil', hnil]
      split <;> rfl
  | some id =>
      have hown := h.registered id hid
      by_cases hname : loggerName = r.name
      · rw [if_pos hname]
        unfold Patterned.setNamed
        rw [hname, hown, ← hid]
        exact defaultSinks_setPatternAt s pattern
      · rw [if_neg hname]
        unfold Patterned.setNamed
        cases hfound : s.loggers.registry loggerName with
        | none => rfl
        | some j =>
            have hne : id ≠ j := by
              intro heq
              rw [← heq] at hfound
              exact hname (h.inv.injective loggerName r.name id hfound hown)
            unfold Patterned.defaultSinks Patterned.setPatternAt
            simp only [hid]
            exact Function.update_of_ne hne _ _

theorem Follows.setNamed (h : Follows s r) (loggerName : List UInt8) (pattern : String) :
    Follows (s.setNamed loggerName pattern)
        (if loggerName = r.name then r.setAll pattern else r) ∧
      (Kept s r → Kept (s.setNamed loggerName pattern)
        (if loggerName = r.name then r.setAll pattern else r)) := by
  have hsame : (s.setNamed loggerName pattern).loggers = s.loggers ∧
      (s.setNamed loggerName pattern).drain = s.drain :=
    setPatternAt_loggers s (s.loggers.registry loggerName) pattern
  have hsinks := defaultSinks_setNamed h loggerName pattern
  by_cases hname : loggerName = r.name
  · rw [if_pos hname] at hsinks ⊢
    have hlength : (s.setNamed loggerName pattern).defaultSinks.length =
        (r.setAll pattern).patterns.length := by
      rw [hsinks, length_setPatterns, h.length]
      exact (length_setPatterns pattern r.patterns).symm
    constructor
    · exact h.repaint hsame.1 (by rw [hsame.2]; exact h.cached) (by rw [hsame.2]) rfl rfl
        setAll_nil hlength
    · intro hkept
      show (s.setNamed loggerName pattern).defaultSinks = setPatterns pattern r.patterns
      rw [hsinks, hkept]
  · rw [if_neg hname] at hsinks ⊢
    constructor
    · exact h.repaint hsame.1 (by rw [hsame.2]; exact h.cached) (by rw [hsame.2]) rfl rfl id
        (by rw [hsinks, h.length])
    · intro hkept
      exact hsinks.trans hkept

/-! ## The drain thread -/

theorem length_lines (faults : Faults) (patternStr : String) (first count : Nat)
    (sinks : List String) :
    (faults.lines patternStr first count sinks).length = sinks.length := by
  unfold Faults.lines
  generalize List.range' first count = ns
  induction ns using List.reverseRecOn with
  | nil => rfl
  | append_singleton ns n ih =>
      rw [List.foldl_append, List.foldl_cons, List.foldl_nil, ← ih]
      cases faults.lineFault n <;> simp [Fault.line, setPatterns, setPatternsUpTo]

/-- The sinks of the default logger after a call of the drain thread. -/
theorem defaultSinks_drained (faults : Faults) (s : Patterned) (d : Drain UInt8) :
    (s.drained faults d).defaultSinks =
      faults.lines s.drain.patternStr s.drain.lineCalls (d.lineCalls - s.drain.lineCalls)
        s.defaultSinks := by
  unfold Patterned.drained Patterned.defaultSinks
  cases hid : s.loggers.logger with
  | none =>
      have hnil : faults.lines s.drain.patternStr s.drain.lineCalls
          (d.lineCalls - s.drain.lineCalls) [] = [] := by
        apply List.eq_nil_of_length_eq_zero
        rw [length_lines]
        rfl
      simp only [hid, hnil]
  | some id =>
      simp only [hid]
      exact Function.update_self _ _ _

theorem drained_loggers (faults : Faults) (s : Patterned) (d : Drain UInt8) :
    (s.drained faults d).loggers = s.loggers ∧ (s.drained faults d).drain = d := by
  unfold Patterned.drained
  split <;> exact ⟨rfl, rfl⟩

theorem Follows.drained (h : Follows s r) (faults : Faults) {d : Drain UInt8}
    (hcached : d.patternStr = s.drain.patternStr)
    (hlogger : d.logger.isSome = s.drain.logger.isSome) : Follows (s.drained faults d) r := by
  have hsame := drained_loggers faults s d
  have hlength : (s.drained faults d).defaultSinks.length = r.patterns.length := by
    rw [defaultSinks_drained, length_lines, h.length]
  exact h.repaint hsame.1 (by rw [hsame.2, hcached, h.cached]) (by rw [hsame.2, hlogger]) rfl
    rfl id hlength

/-- A call of the drain thread leaves the patterns that were set exactly if it restores
them. -/
theorem drained_kept_iff (h : Follows s r) (hkept : Kept s r) (faults : Faults)
    {d : Drain UInt8} {c : PatternCall}
    (hlines : d.lineCalls = s.drain.lineCalls + (c.lines s.drain).length) :
    Kept (s.drained faults d) r ↔ Restores faults s.drain r c := by
  unfold Kept at hkept ⊢
  rw [defaultSinks_drained, hlines, Nat.add_sub_cancel_left, hkept, h.cached,
    List.ext_getElem?_iff]
  constructor
  · intro hall i hi pattern hleaves
    have hget := hall i
    rw [getElem?_lines, hleaves, List.getElem?_eq_getElem hi] at hget
    rw [List.getElem?_eq_getElem hi, ← hget]
    rfl
  · intro hrestores i
    rw [getElem?_lines]
    by_cases hi : i < r.patterns.length
    · cases hleaves : faults.leaves r.cached s.drain.lineCalls (c.lines s.drain).length i with
      | none => simp
      | some pattern =>
          have hget := hrestores i hi pattern hleaves
          rw [hget]
          rfl
    · rw [List.getElem?_eq_none (Nat.le_of_not_lt hi)]
      rfl

theorem flushContLines_logger (env : Spdlog) (force : Bool) (d : Drain UInt8) :
    (d.flushContLines env force).logger.isSome = d.logger.isSome ∧
      (d.flushContLines env force).patternStr = d.patternStr := by
  cases hlogger : d.logger with
  | none =>
      unfold Drain.flushContLines
      rw [hlogger]
      exact ⟨by rw [hlogger], rfl⟩
  | some pattern =>
      have hsome : d.logger.isSome = true := by rw [hlogger]; rfl
      constructor
      · unfold Drain.flushContLines
        rw [hlogger]
        exact (flushLoop_spec env force d d.contBuf).2.logger.trans (by rw [hlogger])
      · exact (flushContLines_lineCalls env force hsome).2

theorem flushEntry_logger (env : Spdlog) (e : Entry UInt8) (d : Drain UInt8) :
    (d.flushEntry env e).logger.isSome = d.logger.isSome ∧
      (d.flushEntry env e).patternStr = d.patternStr := by
  unfold Drain.flushEntry
  by_cases hcont : e.isCont = true
  · rw [if_pos hcont]
    exact flushContLines_logger env false _
  · rw [if_neg hcont]
    have hlog : ∀ t : Drain UInt8, (t.logEntry env e).logger = t.logger ∧
        (t.logEntry env e).patternStr = t.patternStr := by
      intro t
      unfold Drain.logEntry
      split <;> exact ⟨rfl, rfl⟩
    rw [(hlog _).1, (hlog _).2]
    split
    · exact flushContLines_logger env true d
    · exact ⟨rfl, rfl⟩

/-- One call of the drain thread, given the patterns that were set: it leaves them exactly
if it restores them. -/
theorem flush_kept_iff (h : Follows s r) (hkept : Kept s r) (erases : Bool) (faults : Faults)
    {c : PatternCall} (hflushes : c.flushes = true) :
    Kept (s.call erases faults c) (r.step c) ↔ Restores faults s.drain r c := by
  have hready : ∀ d : Drain UInt8, (s.drain.logger.isSome = true → d.lineCalls =
      s.drain.lineCalls + (c.lines s.drain).length) →
      (Kept (s.drained faults d) r ↔ Restores faults s.drain r c) := by
    intro d hlines
    cases hlogger : s.loggers.logger with
    | none =>
        have hnil := h.none_set hlogger
        have hkept' : Kept (s.drained faults d) r := by
          unfold Kept Patterned.defaultSinks
          rw [(drained_loggers faults s d).1, hlogger, hnil]
        constructor
        · intro _ i hi
          rw [hnil] at hi
          exact absurd hi (Nat.not_lt_zero i)
        · exact fun _ => hkept'
    | some id =>
        apply drained_kept_iff h hkept faults
        apply hlines
        rw [h.logger, hlogger]
        rfl
  cases c with
  | flushEntry e => exact hready _ fun hlogger => (flushEntry_lineCalls _ e hlogger).1
  | flushContLines force =>
      exact hready _ fun hlogger => (flushContLines_lineCalls _ force hlogger).1
  | initializeLog | create | setLogPattern | setLogPatternOf | setRawPattern | setRawPatternOf =>
      contradiction

/-- Every call keeps the state in step, and the calls that set patterns keep the sinks. -/
theorem Follows.call (h : Follows s r) (erases : Bool) (faults : Faults) (c : PatternCall) :
    Follows (s.call erases faults c) (r.step c) ∧
      (c.flushes = false → Kept s r → Kept (s.call erases faults c) (r.step c)) := by
  cases c with
  | initializeLog logName output timebase threadCreated =>
      have hstep := h.initializeLog erases logName output timebase threadCreated
      exact ⟨hstep.1, fun _ => hstep.2⟩
  | create logName output =>
      have hstep := h.create logName output
      exact ⟨hstep.1, fun _ => hstep.2⟩
  | setLogPattern pattern delimiter =>
      have hstep := h.setDefault (flagPattern pattern delimiter)
      exact ⟨hstep.1, fun _ => hstep.2⟩
  | setRawPattern rawPattern =>
      have hstep := h.setDefault rawPattern
      exact ⟨hstep.1, fun _ => hstep.2⟩
  | setLogPatternOf loggerName pattern delimiter =>
      have hstep := h.setNamed loggerName (flagPattern pattern delimiter)
      exact ⟨hstep.1, fun _ => hstep.2⟩
  | setRawPatternOf loggerName rawPattern =>
      have hstep := h.setNamed loggerName rawPattern
      exact ⟨hstep.1, fun _ => hstep.2⟩
  | flushEntry e =>
      have hlogger := flushEntry_logger (s.spdlog faults) e s.drain
      exact ⟨h.drained faults hlogger.2 hlogger.1, fun hflushes => by contradiction⟩
  | flushContLines force =>
      have hlogger := flushContLines_logger (s.spdlog faults) force s.drain
      exact ⟨h.drained faults hlogger.2 hlogger.1, fun hflushes => by contradiction⟩

end Calls

/-! ## Whole runs -/

theorem keep_iff_restore (erases : Bool) (faults : Faults) (cs : List PatternCall)
    {s : Patterned} {r : Recent} (h : Follows s r) (hkept : Kept s r) :
    FlushesKeep erases faults s r cs ↔ FlushesRestore erases faults s r cs := by
  induction cs generalizing s r with
  | nil => exact Iff.rfl
  | cons c cs ih =>
      have hstep := h.call erases faults c
      unfold FlushesKeep FlushesRestore
      cases hflushes : c.flushes with
      | false =>
          have hrest := ih hstep.1 (hstep.2 hflushes hkept)
          constructor
          · intro hall
            exact ⟨fun hfalse => by contradiction, hrest.mp hall.2⟩
          · intro hall
            exact ⟨fun hfalse => by contradiction, hrest.mpr hall.2⟩
      | true =>
          have hflush := flush_kept_iff h hkept erases faults hflushes
          constructor
          · intro hall
            have hnow := hall.1 rfl
            exact ⟨fun _ => hflush.mp hnow, (ih hstep.1 hnow).mp hall.2⟩
          · intro hall
            have hnow := hflush.mpr (hall.1 rfl)
            exact ⟨fun _ => hnow, (ih hstep.1 hnow).mpr hall.2⟩

/-- Without exceptions the condition is about the cached pattern: a call that takes a line
restores the patterns exactly if all sinks were most recently set to it. -/
theorem restores_quiet_iff (faults : Faults) (d : Drain UInt8) (r : Recent) (c : PatternCall) :
    Restores faults.quiet d r c ↔ Matches d r c := by
  have hleaves : ∀ i, c.lines d ≠ [] →
      faults.quiet.leaves r.cached d.lineCalls (c.lines d).length i = some r.cached := by
    intro i hne
    have hmap : (List.range' d.lineCalls (c.lines d).length).filterMap (fun n =>
        (faults.quiet.lineFault n).leaves r.cached (faults.quiet.reached n) i) =
        List.replicate (c.lines d).length r.cached := by
      rw [show (fun n => (faults.quiet.lineFault n).leaves r.cached (faults.quiet.reached n) i) =
        (fun _ => some r.cached) from rfl, List.filterMap_eq_map', List.map_const',
        List.length_range']
    have hlength : (c.lines d).length ≠ 0 := by simpa using hne
    unfold Faults.leaves
    rw [hmap, List.getLast?_replicate, if_neg hlength]
  constructor
  · intro hrestores
    by_cases hnil : c.lines d = []
    · exact .inl hnil
    · exact .inr fun i hi => hrestores i hi r.cached (hleaves i hnil)
  · intro hor i hi pattern hpattern
    rcases hor with hnil | hcached
    · rw [hnil] at hpattern
      contradiction
    · by_cases hnil : c.lines d = []
      · rw [hnil] at hpattern
        contradiction
      · rw [hleaves i hnil] at hpattern
        rw [← hpattern]
        exact hcached i hi

theorem restore_iff_match (erases : Bool) (faults : Faults) (cs : List PatternCall)
    {s : Patterned} {r : Recent} :
    FlushesRestore erases faults.quiet s r cs ↔ FlushesMatch erases faults.quiet s r cs := by
  induction cs generalizing s r with
  | nil => exact Iff.rfl
  | cons c cs ih =>
      unfold FlushesRestore FlushesMatch
      rw [ih, restores_quiet_iff]

/-- In every run from the start of the program, all calls of the drain thread leave the
default logger the patterns most recently set for it exactly if all of them restore these
patterns; without exceptions, exactly if all that take a line find them in the cache. -/
theorem pattern_kept_iff (erases : Bool) (faults : Faults) (cs : List PatternCall) :
    (FlushesKeep erases faults Patterned.start Recent.start cs ↔
      FlushesRestore erases faults Patterned.start Recent.start cs) ∧
    (FlushesKeep erases faults.quiet Patterned.start Recent.start cs ↔
      FlushesMatch erases faults.quiet Patterned.start Recent.start cs) := by
  constructor
  · exact keep_iff_restore erases faults cs follows_start rfl
  · rw [keep_iff_restore erases faults.quiet cs follows_start rfl, restore_iff_match]

/-- No line and no entry throws. -/
def quietFaults : Faults where
  lineFault _ := .none
  reached _ := 0
  entryThrows _ := false

/-- A `LOG_CONT` line. -/
def contLine : Entry UInt8 where
  timeStamp_ns := 0
  level := .info
  msg := [104, 105, 10]
  loggerName := [contEntryMarker]

/-- The pattern set under the name of the default logger does not survive a `LOG_CONT`
line. -/
theorem named_pattern_lost :
    ¬ FlushesKeep true quietFaults Patterned.start Recent.start
      [.initializeLog [97] .stdout { wall_ns := 0, monotonic_ns := 0 } true,
        .setRawPatternOf [97] "[%l] %v", .flushEntry contLine] := by
  rw [keep_iff_restore true quietFaults _ follows_start rfl]
  intro hrestores
  have hlast := (restores_quiet_iff quietFaults _ _ _).mp (hrestores.2.2.1 rfl)
  rcases hlast with hnil | hcached
  · exact absurd hnil (by decide)
  · exact absurd (hcached 0 (by decide)) (by decide)

end RtLog
end Log
end DtCore
