import DtCore.Log.RtLog.Drain

/-!
# Logging calls

A logging call checks that the logger is initialized and that its level is active,
builds a queue entry and pushes it.  The entry says where it is to go: no logger name
for `LOG`, the marker for `LOG_CONT`, and for `LOG_U` the name, which is copied twice
into an array of 64 bytes.

Strings are the bytes in front of their terminating null.  What `snprintf` or the
formatter makes of the arguments of a call is an argument here.

Main definitions:

- `Gate.logRt`, `Gate.logRtNamed`, `Gate.logRtCont`: the logging calls.
- `Gate.logU`: a `LOG_U` statement.

Main results:

- Theorem `logU_eq`: a `LOG_U` statement is one call for the shortened name.
-/

namespace DtCore
namespace Log
namespace RtLog

/-! ## Strings -/

/-- `QUEUE_MSGLEN`. -/
def rtMsgLen : Nat := 1024

/-- `sizeof(Entry::loggerName)` and `NAME_BUF_LEN`. -/
def nameBufLen : Nat := 64

/-- The bytes in front of the first null. -/
def cString (bytes : List UInt8) : List UInt8 :=
  bytes.takeWhile (fun b => b != 0)

/-- `strncpy` of a logger name into its array, whose last byte is the null. -/
def copyName (name : List UInt8) : List UInt8 :=
  name.take (nameBufLen - 1)

/-- `Entry::Set` and `Entry::SetV`. -/
def Entry.set (level : LogLevel) (now : Int) (text : List UInt8) : Entry UInt8 where
  timeStamp_ns := now
  level := level
  msg := text.take (rtMsgLen - 1)
  loggerName := []

/-- The drain thread after `Initialize`. -/
def Drain.initialized (pattern : String) (timebase : TimeBase) (contLevel : LogLevel) :
    Drain UInt8 where
  logger := some pattern
  timebase := timebase
  contBuf := []
  contLevel := contLevel
  patternStr := pattern
  dropCount := 0
  lineCalls := 0
  entryCalls := 0
  events := []

/-! ## The calls -/

/-- What every logging call checks: `m_initialized` and `m_level`. -/
structure Gate where
  initialized : Bool
  level : Int

/-- The two checks. -/
def Gate.passes (g : Gate) (lvl : LogLevel) : Bool :=
  g.initialized && !(lvl.toInt < g.level)

/-- `LogRt`, `LogRtV` and `LogRtFmt`. -/
def Gate.logRt (g : Gate) (lvl : LogLevel) (now : Int) (text : List UInt8) :
    Option (Entry UInt8) :=
  if g.passes lvl then some (Entry.set lvl now text) else none

/-- `LogRtNamed`, `LogRtNamedV` and `LogRtNamedFmt`. -/
def Gate.logRtNamed (g : Gate) (loggerName : List UInt8) (lvl : LogLevel) (now : Int)
    (text : List UInt8) : Option (Entry UInt8) :=
  if g.passes lvl then some { Entry.set lvl now text with loggerName := copyName loggerName }
  else none

/-- `LogRtCont`. -/
def Gate.logRtCont (g : Gate) (lvl : LogLevel) (now : Int) (msg : List UInt8) :
    Option (Entry UInt8) :=
  if g.passes lvl then some { Entry.set lvl now msg with loggerName := [contEntryMarker] }
  else none

/-! ## `LOG_U` -/

/-- `NamedLogRtStream`; `buf` is `m_buf[0 .. m_pos)`. -/
structure NamedLogRtStream where
  logLevel : LogLevel
  active : Bool
  submitted : Bool
  buf : List UInt8
  logName : List UInt8

/-- The constructor of `NamedLogRtStream`. -/
def Gate.namedLogRtStream (g : Gate) (logName : List UInt8) (lvl : LogLevel) :
    NamedLogRtStream where
  logLevel := lvl
  active := g.passes lvl
  submitted := false
  buf := []
  logName := copyName logName

/-- `operator<<` with the text that it appends. -/
def NamedLogRtStream.append (s : NamedLogRtStream) (src : List UInt8) : NamedLogRtStream :=
  if s.active then { s with buf := s.buf ++ src.take (rtMsgLen - 1 - s.buf.length) } else s

/-- `printf` and `format`. -/
def NamedLogRtStream.printf (s : NamedLogRtStream) (g : Gate) (now : Int) (text : List UInt8) :
    NamedLogRtStream × Option (Entry UInt8) :=
  if s.active then
    ({ s with submitted := true }, g.logRtNamed s.logName s.logLevel now text)
  else (s, none)

/-- The destructor of `NamedLogRtStream`. -/
def NamedLogRtStream.destroy (s : NamedLogRtStream) (g : Gate) (now : Int) :
    Option (Entry UInt8) :=
  if s.active && !s.submitted && decide (0 < s.buf.length) then
    g.logRtNamed s.logName s.logLevel now (cString s.buf)
  else none

/-- What follows `LOG_U` in a statement: texts for the stream or one formatted text. -/
inductive Body where
  | stream (texts : List (List UInt8))
  | formatted (text : List UInt8)

/-- The entry that a `LOG_U` statement pushes. -/
def Gate.logU (g : Gate) (logName : List UInt8) (lvl : LogLevel) (now : Int) :
    Body → Option (Entry UInt8)
  | .stream texts =>
      (texts.foldl NamedLogRtStream.append (g.namedLogRtStream logName lvl)).destroy g now
  | .formatted text =>
      let s := (g.namedLogRtStream logName lvl).printf g now text
      s.2.or (s.1.destroy g now)

/-- The buffer of a stream that was given some texts. -/
def streamBuf (texts : List (List UInt8)) : List UInt8 :=
  texts.foldl (fun buf src => buf ++ src.take (rtMsgLen - 1 - buf.length)) []

/-- The text of a statement, unless nothing was given to its stream. -/
def Body.text : Body → Option (List UInt8)
  | .stream texts => if streamBuf texts = [] then none else some (cString (streamBuf texts))
  | .formatted text => some text

theorem copyName_copyName (name : List UInt8) : copyName (copyName name) = copyName name := by
  unfold copyName
  rw [List.take_take, Nat.min_self]

theorem copyName_eq_self {name : List UInt8} :
    copyName name = name ↔ name.length < nameBufLen := by
  unfold copyName
  rw [List.take_eq_self_iff]
  exact Nat.le_sub_one_iff_lt (by decide)

/-- The stream after its texts. -/
theorem foldl_append {s : NamedLogRtStream} (hactive : s.active = true)
    (texts : List (List UInt8)) :
    texts.foldl NamedLogRtStream.append s =
      { s with
        buf := texts.foldl (fun buf src => buf ++ src.take (rtMsgLen - 1 - buf.length))
          s.buf } := by
  induction texts generalizing s with
  | nil => rfl
  | cons src texts ih =>
      have happend : s.append src =
          { s with buf := s.buf ++ src.take (rtMsgLen - 1 - s.buf.length) } := by
        unfold NamedLogRtStream.append
        rw [if_pos hactive]
      rw [List.foldl_cons, happend]
      exact ih hactive

/-- A stream that is not active pushes nothing. -/
theorem destroy_inactive {s : NamedLogRtStream} (hactive : s.active = false)
    (texts : List (List UInt8)) (g : Gate) (now : Int) :
    (texts.foldl NamedLogRtStream.append s).destroy g now = none := by
  induction texts generalizing s with
  | nil => simp [NamedLogRtStream.destroy, hactive]
  | cons src texts ih =>
      have happend : s.append src = s := by
        unfold NamedLogRtStream.append
        rw [if_neg (by simp [hactive])]
      rw [List.foldl_cons, happend, ih hactive]

/-- A `LOG_U` statement with a text that passes the checks is one call of `LogRtNamed`
for the shortened name. -/
theorem logU_eq (g : Gate) (logName : List UInt8) (lvl : LogLevel) (now : Int) (body : Body) :
    g.logU logName lvl now body =
      if g.passes lvl then
        body.text.map (fun text =>
          { Entry.set lvl now text with loggerName := copyName logName })
      else none := by
  by_cases hpass : g.passes lvl = true
  · rw [if_pos hpass]
    cases body with
    | stream texts =>
        have hactive : (g.namedLogRtStream logName lvl).active = true := hpass
        have hstream : texts.foldl NamedLogRtStream.append (g.namedLogRtStream logName lvl) =
            { g.namedLogRtStream logName lvl with buf := streamBuf texts } :=
          foldl_append hactive texts
        simp only [Gate.logU, hstream]
        unfold NamedLogRtStream.destroy Body.text Gate.namedLogRtStream
        by_cases hempty : streamBuf texts = []
        · simp [hempty]
        · have hpos : 0 < (streamBuf texts).length := List.length_pos_iff.mpr hempty
          simp [hempty, hpos, hpass, Gate.logRtNamed, copyName_copyName]
    | formatted text =>
        simp [Gate.logU, NamedLogRtStream.printf, Gate.namedLogRtStream, hpass, Gate.logRtNamed,
          copyName_copyName, Body.text]
  · have hfalse : g.passes lvl = false := Bool.eq_false_iff.mpr hpass
    rw [if_neg hpass]
    cases body with
    | stream texts => exact destroy_inactive hfalse texts g now
    | formatted text =>
        simp [Gate.logU, NamedLogRtStream.printf, Gate.namedLogRtStream, hfalse,
          NamedLogRtStream.destroy]

end RtLog
end Log
end DtCore
