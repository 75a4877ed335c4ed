import DtCore.Foundation.DirTree
import DtCore.Log.RtLog.Directories
import DtCore.Log.RtLog.Pattern

/-!
# Setting up and taking down the logger

The calls that make, change and drop the default logger, `m_logger`: `Initialize`, `Create`,
`Terminate` and the setters of level and pattern.  Using `m_logger` while it is null is an
error.

No two calls overlap in time.  What the operating system answers is an argument of each call.
spdlog's registry is a parameter.  A logger is its name and what its sinks hold on to; what is
asked of `m_logger` is recorded in the field `requests`, which nothing reads.  The terminal
interfaces are numbered in the order in which they are made; `restored` are those that have
left the terminal again, and one that nothing holds on to any more leaves it in its
destructor.  Each saves the attributes of the terminal when it enters and sets them again
when it leaves; standard input is the terminal.

Main definitions:

- `Registry`: spdlog's registry.
- `State.ask`: a request to the logger that `m_logger` points to.
- `State.initializeLog`, `State.create`, `State.terminate`, `State.call`: the calls.
- `Phase`: what the calls so far make of the logger.

Main results:

- Theorem `call_tracks`: a call without an error follows the phases.
- Theorem `run_safe_iff`: the sequences of calls that use no missing logger.
-/

namespace DtCore
namespace Log
namespace RtLog
namespace LifeCycle

open Foundation Utils

/-! ## Loggers -/

/-- A sink, as far as it holds on to something. -/
inductive Sink where
  | console
  | syslog
  | file (filename : Name)
  | tui (id : Nat)
deriving DecidableEq

/-- `spdlog::logger`. -/
structure Logger where
  name : Name
  sinks : List Sink
deriving DecidableEq

/-- spdlog's registry of loggers with its default logger.  Registering a logger throws when
the name is taken. -/
structure Registry where
  Content : Type
  start : Content
  loggers : Content → List Logger
  setDefault : Logger → Content → Content
  register : Logger → Content → Option Content
  shutdown : Content → Content
  loggers_start : ∀ l ∈ loggers start, ∀ id, Sink.tui id ∉ l.sinks
  mem_setDefault : ∀ {l l' r}, l' ∈ loggers (setDefault l r) → l' = l ∨ l' ∈ loggers r
  loggers_shutdown : ∀ r, loggers (shutdown r) = []

/-- What is asked of the default logger. -/
inductive Request where
  | cannotCreateDirectory (dname : Name) (ec : Nat)
  | cannotCreateSymlink (fileBasename fname : Name)
  | cannotCreateThread
  | dropped
  | lastEntries
  | setLevel (lvl : LogLevel)
  | setPattern (pattern : String)
deriving DecidableEq

variable {Y : Registry}

/-- The attributes of the terminal: those from before the first call, or raw mode. -/
inductive Termios where
  | callers
  | raw
deriving DecidableEq

/-- The members of `RtLog`, spdlog's registry, and the terminal with its interfaces;
`oldTermios` is what each interface has saved. -/
structure State (Y : Registry) where
  initialized : Bool
  logger : Option Logger
  level : LogLevel
  patternStr : String
  tui : Option Nat
  registry : Y.Content
  entered : Nat
  restored : List Nat
  termios : Termios
  oldTermios : Nat → Termios
  requests : List (Name × Request)

/-- The constructor. -/
def State.start (Y : Registry) : State Y where
  initialized := false
  logger := none
  level := .trace
  patternStr := ""
  tui := none
  registry := Y.start
  entered := 0
  restored := []
  termios := .callers
  oldTermios := fun _ => .callers
  requests := []

/-- `m_logger->…`. -/
def State.ask (r : Request) (s : State Y) : Option (State Y) :=
  s.logger.map (fun l => { s with requests := s.requests ++ [(l.name, r)] })

/-- `if (m_logger) m_logger->…`. -/
def State.askIfAny (r : Request) (s : State Y) : Option (State Y) :=
  if s.logger.isSome then s.ask r else some s

/-- `m_logger->sinks().push_back`. -/
def State.pushSink (sink : Sink) (s : State Y) : Option (State Y) :=
  s.logger.map (fun l => { s with logger := some { l with sinks := l.sinks ++ [sink] } })

/-! ## Terminal interfaces -/

/-- Something holds on to an interface. -/
def State.Held (s : State Y) (id : Nat) : Prop :=
  s.tui = some id ∨ ∃ l ∈ s.logger.toList ++ Y.loggers s.registry, Sink.tui id ∈ l.sinks

instance (s : State Y) (id : Nat) : Decidable (s.Held id) :=
  inferInstanceAs (Decidable (_ ∨ _))

/-- `TermRestore`, which does nothing the second time. -/
def State.termRestore (id : Nat) (s : State Y) : State Y :=
  if id ∈ s.restored then s
  else { s with restored := s.restored ++ [id], termios := s.oldTermios id }

/-- The interfaces in the terminal that nothing holds on to. -/
def State.unheld (s : State Y) : List Nat :=
  (List.range s.entered).filter (fun id => id ∉ s.restored ∧ ¬ s.Held id)

/-- The destructors of the interfaces that nothing holds on to any more. -/
def State.release (s : State Y) : State Y :=
  { s with
    restored := s.restored ++ s.unheld
    termios := s.unheld.foldl (fun _ id => s.oldTermios id) s.termios }

/-- `TermInit` of a new interface. -/
def State.termInit (s : State Y) : State Y :=
  { s with
    entered := s.entered + 1
    oldTermios := Function.update s.oldTermios s.entered s.termios
    termios := .raw }

/-- `m_tui = std::make_shared<RtTui>(); m_tui->Init()`. -/
def State.enterTui (s : State Y) : State Y :=
  ({ s with tui := some s.entered } : State Y).release.termInit

/-- `m_logger = std::make_shared<spdlog::logger>(logName)`. -/
def State.makeLogger (logName : Name) (s : State Y) : State Y :=
  { s with logger := some { name := logName, sinks := [] } }.release

/-- `set_default_logger(m_logger)`. -/
def State.setDefaultLogger (s : State Y) : State Y :=
  match s.logger with
  | some l => { s with registry := Y.setDefault l s.registry }.release
  | none => s

/-! ## Log files -/

/-- `ENOTDIR`. -/
def enotdir : Nat := 20

/-- What the operating system answers, and the local time. -/
structure Outcomes where
  stamp : Name
  stat : Name → Option Kind
  mkdir : Name → Except Nat Unit
  symlink : Bool
  isatty : Bool
  createThread : Bool

/-- `AnnotateFilenameDatetime`. -/
def annotateFilenameDatetime (stamp fileBasename : Name) : Name :=
  (splitByExtension fileBasename).1 ++ '_' :: stamp ++ (splitByExtension fileBasename).2

/-- `EnsureDirectoryExistes`, with the error code. -/
def Outcomes.ensureDirectoryExistes (o : Outcomes) (dname : Name) : Except Nat Unit :=
  if dname = [] then .ok ()
  else
    match o.stat dname with
    | some .directory => .ok ()
    | some .regular => .error enotdir
    | none => o.mkdir dname

/-- The directory of a log file, and the message when there is none. -/
def State.checkDirectory (dname : Name) (o : Outcomes) (s : State Y) : Option (State Y) :=
  match o.ensureDirectoryExistes dname with
  | .ok () => some s
  | .error ec => s.ask (.cannotCreateDirectory dname ec)

/-- The symbolic link to a log file, and the message when it cannot be made. -/
def State.makeSymlink (fileBasename fname : Name) (o : Outcomes) (s : State Y) :
    Option (State Y) :=
  if o.symlink then some s else s.askIfAny (.cannotCreateSymlink fileBasename fname)

/-- The sink for a log file. -/
def State.fileSink (fileBasename : Name) (annotDatetime : Bool) (o : Outcomes) (s : State Y) :
    Option (Sink × State Y) :=
  if annotDatetime then
    let filename := annotateFilenameDatetime o.stamp fileBasename
    let parts := splitByDirectory filename
    ((s.checkDirectory parts.1 o).bind (State.makeSymlink fileBasename parts.2 o)).map
      (fun s => (.file filename, s))
  else some (.file fileBasename, s)

/-! ## The calls -/

def syslogName : Name := "_SYSLOG_".toList

def stdoutName : Name := "_STDOUT_".toList

/-- The terminal interface is not switched off. -/
def usesTui (fileBasename : Name) (enableTui : Bool) (o : Outcomes) : Bool :=
  enableTui && fileBasename ≠ syslogName && o.isatty

/-- The sink that goes to the terminal. -/
def State.terminalSink (tui : Bool) (s : State Y) : Option (State Y) :=
  if tui then s.enterTui.pushSink (.tui s.entered) else s.pushSink .console

/-- The sink that the file name asks for. -/
def State.outputSink (fileBasename : Name) (annotDatetime : Bool) (o : Outcomes)
    (s : State Y) : Option (State Y) :=
  if fileBasename = syslogName then s.pushSink .syslog
  else if fileBasename ≠ [] ∧ fileBasename ≠ stdoutName then
    (s.fileSink fileBasename annotDatetime o).bind (fun p => p.2.pushSink p.1)
  else some s

/-- `Initialize`. -/
def State.initializeLog (logName fileBasename : Name) (enableTui annotDatetime : Bool)
    (o : Outcomes) (s : State Y) : Option (State Y) :=
  if s.initialized then some s
  else do
    let s ← (s.makeLogger logName).terminalSink (usesTui fileBasename enableTui o)
    let s ← s.outputSink fileBasename annotDatetime o
    let s := { s.setDefaultLogger with patternStr := colorPattern }
    if o.createThread then some { s with initialized := true } else s.ask .cannotCreateThread

/-- The sink that `Create` makes. -/
def State.createdSink (fileBasename : Name) (annotDatetime : Bool) (o : Outcomes)
    (s : State Y) : Option (Sink × State Y) :=
  if fileBasename = stdoutName then some (.console, s)
  else if fileBasename = syslogName then some (.syslog, s)
  else s.fileSink fileBasename annotDatetime o

/-- `register_logger`; nothing is left of a logger when it throws. -/
def State.register (l : Logger) (s : State Y) : State Y :=
  match Y.register l s.registry with
  | some registry => { s with registry := registry }
  | none => s

/-- `Create`. -/
def State.create (logName fileBasename : Name) (annotDatetime : Bool) (o : Outcomes)
    (s : State Y) : Option (State Y) :=
  (s.createdSink fileBasename annotDatetime o).map
    (fun p => p.2.register { name := logName, sinks := [p.1] })

/-- `Stop`, and dropping the interface. -/
def State.stopTui (s : State Y) : State Y :=
  match s.tui with
  | some id => { s.termRestore id with tui := none }
  | none => s

/-- The message about entries that were dropped. -/
def State.reportDropped (dropped : Bool) (s : State Y) : Option (State Y) :=
  if dropped then s.ask .dropped else some s

/-- The last entries, when the thread could be deleted. -/
def State.lastFlush (deleted : Bool) (s : State Y) : Option (State Y) :=
  if deleted then s.askIfAny .lastEntries else some s

/-- `spdlog::shutdown(); m_logger.reset();`. -/
def State.dropLoggers (s : State Y) : State Y :=
  { ({ s with registry := Y.shutdown s.registry } : State Y).release with logger := none }.release

/-- `Terminate`; the arguments say whether entries were dropped and whether the thread could
be deleted. -/
def State.terminate (dropped deleted : Bool) (s : State Y) : Option (State Y) :=
  if s.initialized then
    ((s.reportDropped dropped).bind (State.lastFlush deleted)).map
      (fun s => ({ s.stopTui with initialized := false } : State Y).dropLoggers)
  else some s

/-- `SetLogLevel`. -/
def State.setLogLevel (lvl : LogLevel) (s : State Y) : Option (State Y) :=
  { s with level := lvl }.askIfAny (.setLevel lvl)

/-- `SetLogPattern`, behind its `Sync`. -/
def State.setLogPattern (pattern : String) (s : State Y) : Option (State Y) :=
  { s with patternStr := pattern }.askIfAny (.setPattern pattern)

/-- A call.  The setters with the name of a logger use what spdlog finds by that name. -/
inductive Call where
  | initializeLog (logName fileBasename : Name) (enableTui annotDatetime : Bool) (o : Outcomes)
  | create (logName fileBasename : Name) (annotDatetime : Bool) (o : Outcomes)
  | terminate (dropped deleted : Bool)
  | setLogLevel (lvl : LogLevel)
  | setLogLevelOf (loggerName : Name) (lvl : LogLevel)
  | setLogPattern (pattern : UInt32) (delimiter : String)
  | setLogPatternOf (loggerName : Name) (pattern : UInt32) (delimiter : String)
  | setRawPattern (rawPattern : String)
  | setRawPatternOf (loggerName : Name) (rawPattern : String)

def State.call (c : Call) (s : State Y) : Option (State Y) :=
  match c with
  | .initializeLog logName fileBasename enableTui annotDatetime o =>
      s.initializeLog logName fileBasename enableTui annotDatetime o
  | .create logName fileBasename annotDatetime o => s.create logName fileBasename annotDatetime o
  | .terminate dropped deleted => s.terminate dropped deleted
  | .setLogLevel lvl => s.setLogLevel lvl
  | .setLogPattern pattern delimiter => s.setLogPattern (flagPattern pattern delimiter)
  | .setRawPattern rawPattern => s.setLogPattern rawPattern
  | .setLogLevelOf _ _ | .setLogPatternOf _ _ _ | .setRawPatternOf _ _ => some s

/-- Some calls, one after the other. -/
def run : List Call → State Y → Option (State Y)
  | [], s => some s
  | c :: cs, s => (s.call c).bind (run cs)

/-! ## Phases -/

/-- What the calls so far make of the logger: there is none; `Initialize` has made one but
could not start the thread, and before that may have entered the terminal; it runs. -/
inductive Phase where
  | idle
  | halfway (inTui : Bool)
  | running
deriving DecidableEq

def Phase.inTui : Phase → Bool
  | .halfway inTui => inTui
  | _ => false

def Phase.next (c : Call) (p : Phase) : Phase :=
  match c, p with
  | .initializeLog _ _ _ _ _, .running => .running
  | .initializeLog _ fileBasename enableTui _ o, p =>
      if o.createThread then .running
      else .halfway (p.inTui || usesTui fileBasename enableTui o)
  | .terminate _ _, .running => .idle
  | _, p => p

/-- The phase behind some calls. -/
def Phase.after (cs : List Call) (p : Phase) : Phase :=
  cs.foldl (fun p c => p.next c) p

/-- The directory part of an annotated log file. -/
def directoryOf (fileBasename : Name) (o : Outcomes) : Name :=
  (splitByDirectory (annotateFilenameDatetime o.stamp fileBasename)).1

/-- `Create` for a log file with an annotated name in a directory that is not there and
cannot be made. -/
def Call.CannotCreateDirectory : Call → Prop
  | .create _ fileBasename true o =>
      fileBasename ≠ stdoutName ∧ fileBasename ≠ syslogName ∧
        ∃ ec, o.ensureDirectoryExistes (directoryOf fileBasename o) = .error ec
  | _ => False

/-- The members agree with the phase. -/
def Tracks (s : State Y) (p : Phase) : Prop :=
  match p with
  | .idle => s.initialized = false ∧ s.logger = none
  | .halfway _ => s.initialized = false ∧ s.logger.isSome
  | .running => s.initialized = true ∧ s.logger.isSome

/-! ## The steps of a call -/

variable {s s' : State Y}

theorem exists_logger (h : s.logger.isSome) : ∃ l, s.logger = some l :=
  Option.isSome_iff_exists.mp h

theorem ask_eq (r : Request) {l : Logger} (h : s.logger = some l) :
    s.ask r = some { s with requests := s.requests ++ [(l.name, r)] } := by
  unfold State.ask
  rw [h]
  rfl

theorem pushSink_eq (sink : Sink) {l : Logger} (h : s.logger = some l) :
    s.pushSink sink = some { s with logger := some { l with sinks := l.sinks ++ [sink] } } := by
  unfold State.pushSink
  rw [h]
  rfl

theorem setDefaultLogger_eq {l : Logger} (h : s.logger = some l) :
    s.setDefaultLogger = { s with registry := Y.setDefault l s.registry }.release := by
  unfold State.setDefaultLogger
  rw [h]

/-- Asking the logger changes nothing else. -/
theorem ask_spec (r : Request) (h : s.logger.isSome) :
    ∃ rs, s.ask r = some { s with requests := rs } := by
  rcases exists_logger h with ⟨l, hl⟩
  exact ⟨_, ask_eq r hl⟩

theorem askIfAny_spec (r : Request) (s : State Y) :
    ∃ rs, s.askIfAny r = some { s with requests := rs } := by
  unfold State.askIfAny
  by_cases h : s.logger.isSome
  · rw [if_pos h]
    exact ask_spec r h
  · rw [if_neg h]
    exact ⟨s.requests, rfl⟩

theorem checkDirectory_spec {dname : Name} {o : Outcomes}
    (h : s.logger.isSome ∨ o.ensureDirectoryExistes dname = .ok ()) :
    ∃ rs, s.checkDirectory dname o = some { s with requests := rs } := by
  unfold State.checkDirectory
  cases hensure : o.ensureDirectoryExistes dname with
  | ok u => exact ⟨s.requests, rfl⟩
  | error ec =>
      rcases h with hsome | hok
      · exact ask_spec _ hsome
      · rw [hensure] at hok
        cases hok

theorem makeSymlink_spec (fileBasename fname : Name) (o : Outcomes) (s : State Y) :
    ∃ rs, s.makeSymlink fileBasename fname o = some { s with requests := rs } := by
  unfold State.makeSymlink
  cases o.symlink with
  | true => exact ⟨s.requests, rfl⟩
  | false => exact askIfAny_spec _ s

/-- The sink for a log file; only the error about its directory needs a logger. -/
theorem fileSink_spec {fileBasename : Name} {annotDatetime : Bool} {o : Outcomes}
    (h : s.logger.isSome ∨ annotDatetime = false ∨
      o.ensureDirectoryExistes (directoryOf fileBasename o) = .ok ()) :
    ∃ filename rs, s.fileSink fileBasename annotDatetime o =
      some (.file filename, { s with requests := rs }) := by
  unfold State.fileSink
  cases annotDatetime with
  | false => exact ⟨fileBasename, s.requests, rfl⟩
  | true =>
      have hready : s.logger.isSome ∨
          o.ensureDirectoryExistes (directoryOf fileBasename o) = .ok () := by
        rcases h with hsome | hfalse | hok
        · exact .inl hsome
        · cases hfalse
        · exact .inr hok
      rcases checkDirectory_spec hready with ⟨rs, hfirst⟩
      rcases makeSymlink_spec fileBasename
        (splitByDirectory (annotateFilenameDatetime o.stamp fileBasename)).2 o
        ({ s with requests := rs } : State Y) with ⟨rs', hsecond⟩
      refine ⟨annotateFilenameDatetime o.stamp fileBasename, rs', ?_⟩
      unfold directoryOf at hfirst
      rw [if_pos rfl]
      dsimp only
      rw [hfirst, Option.bind_some, hsecond]
      rfl

theorem fileSink_none {fileBasename : Name} {o : Outcomes} {ec : Nat} (h : s.logger = none)
    (hensure : o.ensureDirectoryExistes (directoryOf fileBasename o) = .error ec) :
    s.fileSink fileBasename true o = none := by
  have hcheck : s.checkDirectory (directoryOf fileBasename o) o = none := by
    unfold State.checkDirectory State.ask
    rw [hensure, h]
    rfl
  unfold directoryOf at hcheck
  unfold State.fileSink
  rw [if_pos rfl]
  dsimp only
  rw [hcheck]
  rfl

/-- A logger gets the sink that the file name asks for, which holds on to no interface. -/
theorem outputSink_spec {l : Logger} (h : s.logger = some l) (fileBasename : Name)
    (annotDatetime : Bool) (o : Outcomes) :
    ∃ sinks rs, (∀ id, Sink.tui id ∉ sinks) ∧ s.outputSink fileBasename annotDatetime o =
      some { s with logger := some { l with sinks := l.sinks ++ sinks }, requests := rs } := by
  unfold State.outputSink
  split
  · exact ⟨[.syslog], s.requests, by simp, pushSink_eq _ h⟩
  · split
    · have hsome : s.logger.isSome := by rw [h]; rfl
      rcases @fileSink_spec _ s fileBasename annotDatetime o (.inl hsome) with
        ⟨filename, rs, hsink⟩
      refine ⟨[.file filename], rs, by simp, ?_⟩
      rw [hsink, Option.bind_some]
      exact pushSink_eq (s := ({ s with requests := rs } : State Y)) _ h
    · refine ⟨[], s.requests, fun id hid => absurd hid List.not_mem_nil, ?_⟩
      rw [List.append_nil, ← h]

/-! ## The calls -/

/-- The state in front of `set_default_logger`. -/
def State.prepared (logName : Name) (enters : Bool) (sinks : List Sink)
    (rs : List (Name × Request)) (s : State Y) : State Y :=
  let t := if enters then (s.makeLogger logName).enterTui else s.makeLogger logName
  { t with
    logger := some
      { name := logName, sinks := (if enters then .tui s.entered else .console) :: sinks }
    requests := rs }

/-- `Initialize` on a logger that does not run prepares a logger, makes it the default one and
tries to start the thread. -/
theorem initializeLog_spec (hinit : s.initialized = false) (logName fileBasename : Name)
    (enableTui annotDatetime : Bool) (o : Outcomes) :
    ∃ sinks rs rs', (∀ id, Sink.tui id ∉ sinks) ∧
      s.initializeLog logName fileBasename enableTui annotDatetime o =
        some { (s.prepared logName (usesTui fileBasename enableTui o) sinks
            rs).setDefaultLogger with
          patternStr := colorPattern
          initialized := o.createThread
          requests := rs' } := by
  generalize henters : usesTui fileBasename enableTui o = enters
  have hterminal : ∃ s₁, (s.makeLogger logName).terminalSink enters = some s₁ ∧
      s₁ = s.prepared logName enters [] s₁.requests := by
    unfold State.terminalSink State.prepared
    cases enters with
    | true => exact ⟨_, rfl, rfl⟩
    | false => exact ⟨_, rfl, rfl⟩
  rcases hterminal with ⟨s₁, hterminal, hs₁⟩
  have hlogger₁ : s₁.logger = some
      { name := logName, sinks := [if enters then .tui s.entered else .console] } := by
    rw [hs₁]
    rfl
  rcases outputSink_spec hlogger₁ fileBasename annotDatetime o with ⟨sinks, rs, hsinks, houtput⟩
  have hprepared : s₁.outputSink fileBasename annotDatetime o =
      some (s.prepared logName enters sinks rs) := by
    rw [houtput, hs₁]
    rfl
  have hcall : s.initializeLog logName fileBasename enableTui annotDatetime o =
      if o.createThread then
        some { (s.prepared logName enters sinks rs).setDefaultLogger with
          patternStr := colorPattern, initialized := true }
      else ({ (s.prepared logName enters sinks rs).setDefaultLogger with
        patternStr := colorPattern } : State Y).ask .cannotCreateThread := by
    unfold State.initializeLog
    rw [if_neg (by rw [hinit]; exact Bool.false_ne_true), henters]
    dsimp only [bind]
    rw [hterminal, Option.bind_some, hprepared, Option.bind_some]
  have hdefault := setDefaultLogger_eq (s := s.prepared logName enters sinks rs) rfl
  have hstopped : (s.prepared logName enters sinks rs).setDefaultLogger.initialized = false := by
    rw [hdefault]
    unfold State.prepared
    cases enters with
    | true => exact hinit
    | false => exact hinit
  have hsome : (s.prepared logName enters sinks rs).setDefaultLogger.logger.isSome := by
    rw [hdefault]
    rfl
  rw [hcall]
  cases o.createThread with
  | true => exact ⟨sinks, rs, _, hsinks, rfl⟩
  | false =>
      rcases ask_spec (s := ({ (s.prepared logName enters sinks rs).setDefaultLogger with
        patternStr := colorPattern } : State Y)) .cannotCreateThread hsome with ⟨rs', hask⟩
      refine ⟨sinks, rs, rs', hsinks, ?_⟩
      rw [if_neg Bool.false_ne_true, hask, ← hstopped]

theorem register_spec (l : Logger) (s : State Y) :
    (s.register l).initialized = s.initialized ∧ (s.register l).logger = s.logger := by
  unfold State.register
  cases Y.register l s.registry with
  | some registry => exact ⟨rfl, rfl⟩
  | none => exact ⟨rfl, rfl⟩

/-- The sink that `Create` makes. -/
theorem createdSink_spec {fileBasename : Name} {annotDatetime : Bool} {o : Outcomes}
    (h : s.logger.isSome ∨ fileBasename = stdoutName ∨ fileBasename = syslogName ∨
      annotDatetime = false ∨
        o.ensureDirectoryExistes (directoryOf fileBasename o) = .ok ()) :
    ∃ sink rs, s.createdSink fileBasename annotDatetime o =
      some (sink, { s with requests := rs }) := by
  unfold State.createdSink
  by_cases hstdout : fileBasename = stdoutName
  · rw [if_pos hstdout]
    exact ⟨.console, s.requests, rfl⟩
  · rw [if_neg hstdout]
    by_cases hsyslog : fileBasename = syslogName
    · rw [if_pos hsyslog]
      exact ⟨.syslog, s.requests, rfl⟩
    · rw [if_neg hsyslog]
      have hready : s.logger.isSome ∨ annotDatetime = false ∨
          o.ensureDirectoryExistes (directoryOf fileBasename o) = .ok () := by
        rcases h with hsome | hname | hname | hrest
        · exact .inl hsome
        · exact absurd hname hstdout
        · exact absurd hname hsyslog
        · exact .inr hrest
      rcases fileSink_spec hready with ⟨filename, rs, hfile⟩
      exact ⟨.file filename, rs, hfile⟩

/-- `Create` leaves the default logger alone; it needs one only for an error. -/
theorem create_spec {logName fileBasename : Name} {annotDatetime : Bool} {o : Outcomes}
    (h : s.logger.isSome ∨
      ¬ (Call.create logName fileBasename annotDatetime o).CannotCreateDirectory) :
    ∃ s', s.create logName fileBasename annotDatetime o = some s' ∧
      s'.initialized = s.initialized ∧ s'.logger = s.logger := by
  have hready : s.logger.isSome ∨ fileBasename = stdoutName ∨ fileBasename = syslogName ∨
      annotDatetime = false ∨
        o.ensureDirectoryExistes (directoryOf fileBasename o) = .ok () := by
    rcases h with hsome | hsafe
    · exact .inl hsome
    · by_contra hnot
      rw [not_or, not_or, not_or, not_or] at hnot
      rcases hnot with ⟨-, hstdout, hsyslog, hannot, hensure⟩
      rw [Bool.not_eq_false] at hannot
      cases hresult : o.ensureDirectoryExistes (directoryOf fileBasename o) with
      | ok u => exact hensure hresult
      | error ec =>
          rw [hannot] at hsafe
          exact hsafe ⟨hstdout, hsyslog, ec, hresult⟩
  rcases createdSink_spec hready with ⟨sink, rs, hsink⟩
  rcases register_spec { name := logName, sinks := [sink] }
    ({ s with requests := rs } : State Y) with ⟨hinit, hlogger⟩
  unfold State.create
  rw [hsink]
  exact ⟨_, rfl, hinit, hlogger⟩

theorem create_none {logName fileBasename : Name} {annotDatetime : Bool} {o : Outcomes}
    (hlogger : s.logger = none)
    (h : (Call.create logName fileBasename annotDatetime o).CannotCreateDirectory) :
    s.create logName fileBasename annotDatetime o = none := by
  cases annotDatetime with
  | false => exact absurd h id
  | true =>
      rcases h with ⟨hstdout, hsyslog, ec, hensure⟩
      unfold State.create State.createdSink
      rw [if_neg hstdout, if_neg hsyslog, fileSink_none hlogger hensure]
      rfl

/-- `Terminate` on a logger that runs leaves the terminal and drops all loggers. -/
theorem terminate_spec (hinit : s.initialized = true) (hlogger : s.logger.isSome)
    (dropped deleted : Bool) :
    ∃ rs, s.terminate dropped deleted =
      some ({ s.stopTui with initialized := false, requests := rs } : State Y).dropLoggers := by
  have hreport : ∃ rs, s.reportDropped dropped = some { s with requests := rs } := by
    unfold State.reportDropped
    split
    · exact ask_spec _ hlogger
    · exact ⟨s.requests, rfl⟩
  rcases hreport with ⟨rs, hreport⟩
  have hflush : ∃ rs', ({ s with requests := rs } : State Y).lastFlush deleted =
      some { s with requests := rs' } := by
    unfold State.lastFlush
    split
    · exact askIfAny_spec _ ({ s with requests := rs } : State Y)
    · exact ⟨rs, rfl⟩
  rcases hflush with ⟨rs', hflush⟩
  refine ⟨rs', ?_⟩
  unfold State.terminate
  rw [if_pos hinit, hreport, Option.bind_some, hflush, Option.map_some]
  unfold State.stopTui State.termRestore
  dsimp only
  split
  · split <;> rfl
  · rfl

/-! ## Missing loggers -/

theorem tracks_idle_or (h : Tracks s p) : p = .idle ∧ s.logger = none ∨ s.logger.isSome := by
  cases p with
  | idle => exact .inl ⟨rfl, h.2⟩
  | halfway inTui => exact .inr h.2
  | running => exact .inr h.2

theorem Tracks.initialized_iff {p : Phase} (h : Tracks s p) :
    s.initialized = true ↔ p = .running := by
  cases p with
  | idle => exact ⟨fun hinit => absurd (h.1.symm.trans hinit) Bool.false_ne_true, Phase.noConfusion⟩
  | halfway inTui =>
      exact ⟨fun hinit => absurd (h.1.symm.trans hinit) Bool.false_ne_true, Phase.noConfusion⟩
  | running => exact ⟨fun _ => rfl, fun _ => h.1⟩

theorem Phase.next_initializeLog {p : Phase} (hp : p ≠ .running) (logName fileBasename : Name)
    (enableTui annotDatetime : Bool) (o : Outcomes) :
    p.next (.initializeLog logName fileBasename enableTui annotDatetime o) =
      if o.createThread then .running
      else .halfway (p.inTui || usesTui fileBasename enableTui o) := by
  cases p with
  | idle => rfl
  | halfway inTui => rfl
  | running => exact absurd rfl hp

/-- Before the drain thread runs `Terminate` does nothing. -/
theorem Phase.next_terminate {p : Phase} (hp : p ≠ .running) (dropped deleted : Bool) :
    p.next (.terminate dropped deleted) = p := by
  cases p with
  | idle => rfl
  | halfway inTui => rfl
  | running => exact absurd rfl hp

/-- What does not change the two members follows the same phase. -/
theorem Tracks.congr {p : Phase} (h : Tracks s p) (hinit : s'.initialized = s.initialized)
    (hlogger : s'.logger = s.logger) : Tracks s' p := by
  cases p with
  | idle => exact ⟨hinit.trans h.1, hlogger.trans h.2⟩
  | halfway inTui => exact ⟨hinit.trans h.1, hlogger ▸ h.2⟩
  | running => exact ⟨hinit.trans h.1, hlogger ▸ h.2⟩

/-- A call without an error follows the phases. -/
theorem call_tracks {p : Phase} {c : Call} (h : Tracks s p)
    (hsafe : p = .idle → ¬ c.CannotCreateDirectory) :
    ∃ s', s.call c = some s' ∧ Tracks s' (p.next c) := by
  cases c with
  | initializeLog logName fileBasename enableTui annotDatetime o =>
      by_cases hp : p = .running
      · subst hp
        exact ⟨s, if_pos h.1, h⟩
      · have hinit : s.initialized = false :=
          Bool.eq_false_of_not_eq_true (fun hinit => hp (h.initialized_iff.mp hinit))
        rcases initializeLog_spec hinit logName fileBasename enableTui annotDatetime o with
          ⟨sinks, rs, rs', -, hcall⟩
        refine ⟨_, hcall, ?_⟩
        rw [Phase.next_initializeLog hp, setDefaultLogger_eq rfl]
        cases hthread : o.createThread with
        | true => exact ⟨rfl, rfl⟩
        | false => exact ⟨rfl, rfl⟩
  | create logName fileBasename annotDatetime o =>
      have hready : s.logger.isSome ∨
          ¬ (Call.create logName fileBasename annotDatetime o).CannotCreateDirectory := by
        rcases tracks_idle_or h with ⟨hidle, -⟩ | hsome
        · exact .inr (hsafe hidle)
        · exact .inl hsome
      rcases create_spec hready with ⟨s', hcall, hinit, hlogger⟩
      exact ⟨s', hcall, h.congr hinit hlogger⟩
  | terminate dropped deleted =>
      by_cases hp : p = .running
      · subst hp
        rcases terminate_spec h.1 h.2 dropped deleted with ⟨rs, hcall⟩
        exact ⟨_, hcall, rfl, rfl⟩
      · rw [Phase.next_terminate hp]
        exact ⟨s, if_neg (fun hinit => hp (h.initialized_iff.mp hinit)), h⟩
  | setLogLevel lvl =>
      rcases askIfAny_spec (.setLevel lvl) ({ s with level := lvl } : State Y) with ⟨rs, hcall⟩
      exact ⟨_, hcall, h.congr rfl rfl⟩
  | setLogPattern pattern delimiter =>
      rcases askIfAny_spec (.setPattern (flagPattern pattern delimiter))
        ({ s with patternStr := flagPattern pattern delimiter } : State Y) with ⟨rs, hcall⟩
      exact ⟨_, hcall, h.congr rfl rfl⟩
  | setRawPattern rawPattern =>
      rcases askIfAny_spec (.setPattern rawPattern)
        ({ s with patternStr := rawPattern } : State Y) with ⟨rs, hcall⟩
      exact ⟨_, hcall, h.congr rfl rfl⟩
  | setLogLevelOf loggerName lvl => exact ⟨s, rfl, h⟩
  | setLogPatternOf loggerName pattern delimiter => exact ⟨s, rfl, h⟩
  | setRawPatternOf loggerName rawPattern => exact ⟨s, rfl, h⟩

theorem call_none {c : Call} (h : Tracks s .idle) (hc : c.CannotCreateDirectory) :
    s.call c = none := by
  cases c with
  | create logName fileBasename annotDatetime o => exact create_none h.2 hc
  | _ => exact absurd hc id

/-- A run from a state in some phase. -/
theorem run_isSome_iff {p : Phase} (h : Tracks s p) (cs : List Call) :
    (run cs s).isSome ↔ ∀ front c rest, cs = front ++ c :: rest →
      Phase.after front p = .idle → ¬ c.CannotCreateDirectory := by
  induction cs generalizing s p with
  | nil =>
      refine ⟨?_, fun _ => rfl⟩
      intro _ front c rest heq
      exact absurd heq.symm (by simp)
  | cons c cs ih =>
      by_cases hc : p = .idle ∧ c.CannotCreateDirectory
      · rcases hc with ⟨rfl, hc⟩
        unfold run
        rw [call_none h hc]
        constructor
        · intro hfalse
          cases hfalse
        · intro hall
          exact absurd hc (hall [] c cs rfl rfl)
      · rcases call_tracks h (fun hidle hfail => hc ⟨hidle, hfail⟩) with ⟨s', hcall, htracks⟩
        unfold run
        rw [hcall, Option.bind_some, ih htracks]
        constructor
        · intro hall front c' rest heq hidle hfail
          cases front with
          | nil =>
              cases heq
              exact hc ⟨hidle, hfail⟩
          | cons c'' front =>
              cases heq
              exact hall front c' rest rfl hidle hfail
        · intro hall front c' rest heq
          exact hall (c :: front) c' rest (congrArg (c :: ·) heq)

/-- No call uses a missing logger exactly when no `Create` that cannot make its directory
comes while there is no default logger. -/
theorem run_safe_iff (Y : Registry) (cs : List Call) :
    (run cs (State.start Y)).isSome ↔ ∀ front c rest, cs = front ++ c :: rest →
      Phase.after front .idle = .idle → ¬ c.CannotCreateDirectory := by
  have hstart : Tracks (State.start Y) .idle := ⟨rfl, rfl⟩
  exact run_isSome_iff hstart cs

/-- A registry as a list of loggers with different names. -/
def listRegistry : Registry where
  Content := List Logger
  start := []
  loggers := id
  setDefault l r := l :: r.filter (fun l' => l'.name ≠ l.name)
  register l r := if l.name ∈ r.map Logger.name then none else some (l :: r)
  shutdown _ := []
  loggers_start := by
    intro l hl
    cases hl
  mem_setDefault := by
    intro l l' r hmem
    rcases List.mem_cons.mp hmem with heq | hold
    · exact .inl heq
    · exact .inr (List.mem_filter.mp hold).1
  loggers_shutdown _ := rfl

/-- Nothing is there, and no directory can be made. -/
def nothingWorks : Outcomes where
  stamp := "2024-01-01_00-00-00".toList
  stat _ := none
  mkdir _ := .error 2
  symlink := false
  isatty := false
  createThread := false

/-- `Create` before `Initialize`, for a log file in a directory that cannot be made. -/
theorem create_uses_missing_logger :
    run [.create "motor".toList "logs/motor.log".toList true nothingWorks]
      (State.start listRegistry) = none := by
  have hstart : Tracks (State.start listRegistry) .idle := ⟨rfl, rfl⟩
  have hfails : (Call.create "motor".toList "logs/motor.log".toList true
      nothingWorks).CannotCreateDirectory := by
    refine ⟨by decide, by decide, 2, ?_⟩
    decide
  unfold run
  rw [call_none hstart hfails]
  rfl

end LifeCycle
end RtLog
end Log
end DtCore
