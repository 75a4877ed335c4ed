import DtCore.Log.RtLog.Levels

/-!
# The threshold of the default logger

`GetLevel` reads `m_level`, which every logging call compares with.  The default logger
compares with its own level afterwards, and the two levels are set by different calls:
`Initialize` makes a logger of level `info` and leaves `m_level`, `SetLogLevel` with the
name of the default logger sets its level only, and `m_level` survives `Terminate`.

Main definitions:

- `LifeCall`: the calls of a program that may terminate the logger and initialize it
  again.
- `ownLevel`: the level most recently set for the default logger by either setter.

Main results:

- Theorem `default_level_eq`: the default logger has that level.
- Theorem `threshold_iff`: when `GetLevel` says what the default logger emits.
- Theorem `fresh_logger_above_threshold`: a message above `GetLevel` that is not emitted.
-/

namespace DtCore
namespace Log
namespace RtLog

open Foundation

/-! ## The whole life of the logger -/

/-- A call of a program; no other call runs at the same time. -/
inductive LifeCall where
  | setup (c : Setup)
  | terminate
deriving DecidableEq

/-- The loggers, and whether spdlog has a default logger. -/
structure Life where
  loggers : Loggers
  hasDefault : Bool

/-- At the start of the program. -/
def Life.start : Life where
  loggers := Loggers.start
  hasDefault := true

/-- `GetLevel`. -/
def Loggers.getLevel (s : Loggers) : Int :=
  s.level

/-- `Terminate` as far as the loggers go: `spdlog::shutdown` drops all of them, and
`m_logger` is reset. -/
def Life.terminate (s : Life) : Life :=
  if s.loggers.initialized then
    { s with
      loggers := { s.loggers with
        initialized := false
        logger := none
        registry := fun _ => none }
      hasDefault := false }
  else s

/-- One call.  After `shutdown` there is no default logger for `set_default_logger` to
erase; a `Create` that throws changes nothing. -/
def Life.call (erases : Bool) (s : Life) : LifeCall → Life
  | .setup (.initializeLog logName threadCreated) =>
      { s with
        loggers := s.loggers.initializeLog (erases && s.hasDefault) logName threadCreated
        hasDefault := s.hasDefault || !s.loggers.initialized }
  | .setup c => { s with loggers := (s.loggers.call erases c).getD s.loggers }
  | .terminate => s.terminate

/-- A sequence of calls. -/
def Life.calls (erases : Bool) (s : Life) (cs : List LifeCall) : Life :=
  cs.foldl (Life.call erases) s

/-! ## Messages -/

/-- The drain thread may be given an entry. -/
structure Ready (d : Drain UInt8) : Prop where
  logger : d.logger.isSome = true
  room : d.contBuf.length ≤ contBufSize

/-- The logger calls for a message to the default logger. -/
def Loggers.defaultCalls (s : Loggers) (d : Drain UInt8) (lvl : LogLevel) (now : Int)
    (text : List UInt8) : List LoggerCall :=
  (d.flushAll s.spdlog (s.gate.logRt lvl now text).toList).loggerCalls.drop
    d.loggerCalls.length

/-- The default logger is called for the message, which is not below its level. -/
def Loggers.EmitsDefault (s : Loggers) (d : Drain UInt8) (lvl : LogLevel) (now : Int)
    (text : List UInt8) : Prop :=
  ∃ call ∈ s.defaultCalls d lvl now text, ∃ id, s.logger = some id ∧
    s.loggerOf call.logger = some id ∧ (s.levels id).toInt ≤ call.level.toInt

/-- `GetLevel` is the threshold of the default logger. -/
def Loggers.ThresholdExact (s : Loggers) : Prop :=
  ∀ (d : Drain UInt8), Ready d → ∀ (lvl : LogLevel) (now : Int) (text : List UInt8),
    s.EmitsDefault d lvl now text ↔ s.getLevel ≤ lvl.toInt

/-! ## What the calls set -/

/-- What is set for the default logger: whether it is in use, its name and its level. -/
structure Own where
  initialized : Bool
  name : List UInt8
  level : LogLevel

/-- A new default logger has level `info`; both setters reach it. -/
def ownStep (o : Own) : LifeCall → Own
  | .setup (.initializeLog logName threadCreated) =>
      if o.initialized then o
      else { initialized := threadCreated, name := logName, level := .info }
  | .setup (.create _) => o
  | .setup (.setLogLevel lvl) => { o with level := lvl }
  | .setup (.setLogLevelOf loggerName lvl) =>
      { o with level := if loggerName = o.name then lvl else o.level }
  | .terminate => { o with initialized := false }

/-- What the calls of a program have set for the default logger. -/
def own (cs : List LifeCall) : Own :=
  cs.foldl ownStep { initialized := false, name := [], level := .info }

/-- The level most recently set for the default logger by either setter. -/
def ownLevel (cs : List LifeCall) : LogLevel :=
  (own cs).level

/-- The argument of `SetLogLevel(lvl)`. -/
def LifeCall.coarse : LifeCall → Option LogLevel
  | .setup (.setLogLevel lvl) => some lvl
  | _ => none

/-- The level most recently set by `SetLogLevel(lvl)`, at first `trace`. -/
def coarseLevel (cs : List LifeCall) : LogLevel :=
  (cs.filterMap LifeCall.coarse).getLast?.getD .trace

/-- The loggers are as the calls have set them. -/
structure Tracks (s : Loggers) (o : Own) : Prop where
  inv : LoggersInv s
  initialized : s.initialized = o.initialized
  registered : ∀ id, s.logger = some id → s.registry o.name = some id
  level : ∀ id, s.logger = some id → s.levels id = o.level
  used : s.initialized = true → s.logger.isSome = true

theorem tracks_start :
    Tracks Loggers.start { initialized := false, name := [], level := .info } where
  inv := start_inv
  initialized := rfl
  registered := by simp [Loggers.start]
  level := by simp [Loggers.start]
  used := by simp [Loggers.start]

theorem Tracks.initializeLog {s : Loggers} {o : Own} (h : Tracks s o) (erases : Bool)
    (logName : List UInt8) (threadCreated : Bool) :
    Tracks (s.initializeLog erases logName threadCreated)
      (ownStep o (.setup (.initializeLog logName threadCreated))) := by
  have hinv := h.inv.initializeLog erases logName threadCreated
  unfold Loggers.initializeLog at hinv ⊢
  unfold ownStep
  rw [← h.initialized]
  split
  · exact h
  · rename_i hinit
    rw [if_neg hinit] at hinv
    constructor
    case inv => exact hinv
    case initialized => rfl
    case registered =>
      intro id hid
      show Function.update (s.erasedRegistry erases) logName (some s.next) logName = some id
      rw [Function.update_self]
      exact hid
    case level =>
      intro id hid
      injection hid with hid
      show Function.update s.levels s.next .info id = .info
      rw [← hid, Function.update_self]
    case used =>
      intro _
      rfl

theorem Tracks.create {s s' : Loggers} {o : Own} (h : Tracks s o) {logName : List UInt8}
    (hcreate : s.create logName = some s') : Tracks s' o := by
  have hinv := h.inv.create hcreate
  unfold Loggers.create at hcreate
  split at hcreate
  · contradiction
  · rename_i hnew
    cases hcreate
    constructor
    case inv => exact hinv
    case initialized => exact h.initialized
    case registered =>
      intro id hid
      have hold := h.registered id hid
      have hne : o.name ≠ logName := by
        intro heq
        rw [← heq, hold] at hnew
        exact hnew rfl
      show Function.update s.registry logName (some s.next) o.name = some id
      rw [Function.update_of_ne hne]
      exact hold
    case level =>
      intro id hid
      show Function.update s.levels s.next .info id = o.level
      rw [Function.update_of_ne (Nat.ne_of_lt (h.inv.default id hid).1)]
      exact h.level id hid
    case used => exact h.used

/-- A level is set for some logger. -/
theorem Tracks.setLevelAt {s : Loggers} {o : Own} (h : Tracks s o) (found : Option Nat)
    (lvl : LogLevel) {level : LogLevel}
    (hlevel : ∀ id, s.logger = some id → (s.setLevelAt found lvl).levels id = level) :
    Tracks (s.setLevelAt found lvl) { o with level := level } := by
  have hsame := alike_setLevelAt s found lvl
  constructor
  case inv => exact h.inv.setLevelAt found lvl
  case initialized =>
    rw [hsame.initialized]
    exact h.initialized
  case registered =>
    rw [hsame.logger, hsame.registry]
    exact h.registered
  case level =>
    rw [hsame.logger]
    exact hlevel
  case used =>
    rw [hsame.initialized, hsame.logger]
    exact h.used

theorem Tracks.setLogLevel {s : Loggers} {o : Own} (h : Tracks s o) (lvl : LogLevel) :
    Tracks (s.setLogLevel lvl) { o with level := lvl } := by
  have hinv : LoggersInv { s with level := lvl.toInt } :=
    ⟨h.inv.fresh, h.inv.injective, h.inv.default, h.inv.createdFresh⟩
  have hset : Tracks { s with level := lvl.toInt } o :=
    ⟨hinv, h.initialized, h.registered, h.level, h.used⟩
  refine hset.setLevelAt s.logger lvl (fun id hid => ?_)
  have hlogger : s.logger = some id := hid
  rw [hlogger]
  show Function.update s.levels id lvl id = lvl
  rw [Function.update_self]

theorem Tracks.setLogLevelOf {s : Loggers} {o : Own} (h : Tracks s o) (loggerName : List UInt8)
    (lvl : LogLevel) :
    Tracks (s.setLogLevelOf loggerName lvl)
      { o with level := if loggerName = o.name then lvl else o.level } := by
  refine h.setLevelAt (s.registry loggerName) lvl (fun id hid => ?_)
  have hset := levels_setLogLevelOf h.inv (h.registered id hid) loggerName lvl
  rw [h.level id hid] at hset
  exact hset

theorem Tracks.terminate {s : Life} {o : Own} (h : Tracks s.loggers o) :
    Tracks s.terminate.loggers { o with initialized := false } := by
  unfold Life.terminate
  split
  · constructor
    case inv =>
      constructor
      · intro name id hid
        contradiction
      · intro name name' id hid
        contradiction
      · intro id hid
        contradiction
      · exact h.inv.createdFresh
    case initialized => rfl
    case registered =>
      intro id hid
      contradiction
    case level =>
      intro id hid
      contradiction
    case used =>
      intro hinit
      contradiction
  · rename_i hinit
    exact ⟨h.inv, by simpa using hinit, h.registered, h.level, h.used⟩

theorem Tracks.call {s : Life} {o : Own} (h : Tracks s.loggers o) (erases : Bool)
    (c : LifeCall) : Tracks (s.call erases c).loggers (ownStep o c) := by
  cases c with
  | terminate => exact h.terminate
  | setup c =>
      cases c with
      | initializeLog logName threadCreated => exact h.initializeLog _ logName threadCreated
      | create logName =>
          show Tracks ((s.loggers.create logName).getD s.loggers) o
          cases hcreate : s.loggers.create logName with
          | none => exact h
          | some s' => exact h.create hcreate
      | setLogLevel lvl => exact h.setLogLevel lvl
      | setLogLevelOf loggerName lvl => exact h.setLogLevelOf loggerName lvl

theorem tracks_calls (erases : Bool) (cs : List LifeCall) :
    Tracks (Life.start.calls erases cs).loggers (own cs) := by
  have hrun : ∀ (cs : List LifeCall) (s : Life) (o : Own), Tracks s.loggers o →
      Tracks (s.calls erases cs).loggers (cs.foldl ownStep o) := by
    intro cs
    induction cs with
    | nil =>
        intro s o h
        exact h
    | cons c cs ih =>
        intro s o h
        exact ih (s.call erases c) (ownStep o c) (h.call erases c)
  exact hrun cs Life.start _ tracks_start

/-- The default logger has the level most recently set for it. -/
theorem default_level_eq (erases : Bool) (cs : List LifeCall) {id : Nat}
    (hid : (Life.start.calls erases cs).loggers.logger = some id) :
    (Life.start.calls erases cs).loggers.levels id = ownLevel cs :=
  (tracks_calls erases cs).level id hid

/-- `GetLevel` gives the level most recently set by `SetLogLevel(lvl)`. -/
theorem getLevel_eq (erases : Bool) (cs : List LifeCall) :
    (Life.start.calls erases cs).loggers.getLevel = (coarseLevel cs).toInt := by
  unfold Loggers.getLevel coarseLevel
  induction cs using List.reverseRecOn with
  | nil => rfl
  | append_singleton cs c ih =>
      unfold Life.calls at ih ⊢
      rw [List.foldl_append, List.filterMap_append, List.getLast?_append]
      generalize cs.foldl (Life.call erases) Life.start = s at ih ⊢
      cases c with
      | terminate =>
          show s.terminate.loggers.level = _
          unfold Life.terminate
          split <;> exact ih
      | setup c =>
          cases c with
          | initializeLog logName threadCreated =>
              show (s.loggers.initializeLog _ logName threadCreated).level = _
              unfold Loggers.initializeLog
              split <;> exact ih
          | create logName =>
              show ((s.loggers.create logName).getD s.loggers).level = _
              unfold Loggers.create
              split <;> exact ih
          | setLogLevel lvl => exact level_setLevelAt _ _ _
          | setLogLevelOf loggerName lvl => exact (level_setLevelAt _ _ _).trans ih

/-! ## Messages that are emitted -/

/-- A message to the default logger passes `m_level` and the level of the logger. -/
theorem emitsDefault_iff {s : Loggers} {o : Own} (h : Tracks s o) (hinit : s.initialized = true)
    {d : Drain UInt8} (hready : Ready d) (lvl : LogLevel) (now : Int) (text : List UInt8) :
    s.EmitsDefault d lvl now text ↔
      s.getLevel ≤ lvl.toInt ∧ o.level.toInt ≤ lvl.toInt := by
  have hcalls : s.defaultCalls d lvl now text =
      (s.gate.logRt lvl now text).toList.filterMap (Entry.loggerCall s.spdlog d.timebase) := by
    unfold Loggers.defaultCalls
    rw [loggerCalls_flushAll s.spdlog hready.logger hready.room, List.drop_left]
  rcases Option.isSome_iff_exists.mp (h.used hinit) with ⟨id, hid⟩
  by_cases hpass : s.gate.passes lvl = true
  · have hle := ((passes_iff s lvl).mp hpass).2
    have hentry : s.gate.logRt lvl now text = some (Entry.set lvl now text) := if_pos hpass
    have hcall : Entry.loggerCall s.spdlog d.timebase (Entry.set lvl now text) =
        some
          { logger := .default
            time := d.timebase.toWall_ns now
            level := lvl
            text := text.take (rtMsgLen - 1) } := rfl
    rw [hentry, Option.toList_some, List.filterMap_cons_some hcall, List.filterMap_nil] at hcalls
    unfold Loggers.EmitsDefault
    rw [hcalls]
    constructor
    · intro hemits
      rcases hemits with ⟨call, hmem, j, hj, _, hlevel⟩
      rw [List.mem_singleton.mp hmem, h.level j hj] at hlevel
      exact ⟨hle, hlevel⟩
    · intro hboth
      apply Exists.intro _
      apply And.intro (List.mem_singleton.mpr rfl)
      rw [← h.level id hid] at hboth
      exact ⟨id, hid, hid, hboth.2⟩
  · have hentry : s.gate.logRt lvl now text = none := if_neg hpass
    rw [hentry] at hcalls
    constructor
    · intro hemits
      rcases hemits with ⟨call, hmem, _⟩
      rw [hcalls] at hmem
      contradiction
    · intro hboth
      exact absurd ((passes_iff s lvl).mpr ⟨hinit, hboth.1⟩) hpass

/-- Whenever the logger is initialized, `GetLevel` is the threshold of the default logger
exactly if the level most recently set for that logger is not above the one most recently
set by `SetLogLevel(lvl)`. -/
theorem threshold_iff (erases : Bool) (cs : List LifeCall)
    (hinit : (Life.start.calls erases cs).loggers.initialized = true) :
    (Life.start.calls erases cs).loggers.ThresholdExact ↔
      (ownLevel cs).toInt ≤ (coarseLevel cs).toInt := by
  have htracks := tracks_calls erases cs
  constructor
  · intro hexact
    have hdrain : Ready plainDrain := ⟨rfl, Nat.zero_le _⟩
    have hemits := (hexact plainDrain hdrain (coarseLevel cs) 0 []).mpr
      (Int.le_of_eq (getLevel_eq erases cs))
    exact ((emitsDefault_iff htracks hinit hdrain _ 0 []).mp hemits).2
  · intro hle d hready lvl now text
    rw [emitsDefault_iff htracks hinit hready]
    constructor
    · intro hboth
      exact hboth.1
    · intro hlevel
      constructor
      · exact hlevel
      · rw [getLevel_eq] at hlevel
        exact Int.le_trans hle hlevel

/-- After `SetLogLevel(warn)` the threshold is exact, also when the level of the default
logger is lowered by its name. -/
theorem threshold_iff_lowered :
    (Life.start.calls true [.setup (.initializeLog [97] true), .setup (.setLogLevel .warn),
      .setup (.setLogLevelOf [97] .debug)]).loggers.ThresholdExact :=
  (threshold_iff true _ rfl).mpr (by decide)

/-- After `Initialize` alone, `GetLevel` is `trace` and a debug message is not emitted. -/
theorem fresh_logger_above_threshold :
    (Life.start.calls true [.setup (.initializeLog [97] true)]).loggers.initialized = true ∧
      (Life.start.calls true [.setup (.initializeLog [97] true)]).loggers.getLevel =
        LogLevel.trace.toInt ∧
      ¬ (Life.start.calls true [.setup (.initializeLog [97] true)]).loggers.EmitsDefault
        plainDrain .debug 0 [104, 105] := by
  constructor
  · rfl
  · constructor
    · rfl
    · intro hemits
      have htracks := tracks_calls true [.setup (.initializeLog [97] true)]
      have hboth := (emitsDefault_iff htracks rfl ⟨rfl, Nat.zero_le _⟩ .debug 0 _).mp hemits
      exact absurd hboth.2 (by decide)

end RtLog
end Log
end DtCore
