import Mathlib.Data.List.Infix
import DtCore.Log.RtLog.Routing

/-!
# Log levels

Two levels decide about a `LOG_U` message: the logging call compares with `m_level`,
which `SetLogLevel(lvl)` sets together with the level of the default logger, and the
logger of the name compares with its own level, which `SetLogLevel(name, lvl)` sets.

spdlog is modelled as far as the levels go: its registry maps names to loggers, a new
logger has level `info`, registering a name twice throws, and a logger emits what is not
below its level.  Whether `set_default_logger` removes the default logger before it from
the registry differs between versions of spdlog and is a parameter.

Main definitions:

- `Setup`: `Initialize`, `Create` and the two `SetLogLevel`.
- `Loggers.Emits`: a logger emits a message.
- `recentLevel`: the level most recently set for a name.

Main results:

- Theorem `level_eq_recentLevel`: a logger has the level most recently set.
- Theorem `emits_iff`: which messages a named logger emits.
- Theorem `levels_per_logger_iff`: when the level of the default logger does not matter.
- Theorem `default_level_silences`: a message that is lost.
-/

namespace DtCore
namespace Log
namespace RtLog

open Foundation

/-! ## Setting up loggers -/

/-- A call before the logging starts; `Initialize` with whether its thread is created. -/
inductive Setup where
  | initializeLog (logName : List UInt8) (threadCreated : Bool)
  | create (logName : List UInt8)
  | setLogLevel (lvl : LogLevel)
  | setLogLevelOf (loggerName : List UInt8) (lvl : LogLevel)
deriving DecidableEq

/-- The members of `RtLog` and the registry of spdlog.  Loggers are numbered, and
`created` says which of them come from `Create`. -/
structure Loggers where
  initialized : Bool
  level : Int
  logger : Option Nat
  registry : List UInt8 → Option Nat
  defaultName : List UInt8
  levels : Nat → LogLevel
  created : Nat → Bool
  next : Nat

/-- At the start of the program spdlog has a default logger without a name. -/
def Loggers.start : Loggers where
  initialized := false
  level := LogLevel.trace.toInt
  logger := none
  registry := fun name => if name = [] then some 0 else none
  defaultName := []
  levels := fun _ => .info
  created := fun _ => false
  next := 1

/-- The registry without the default logger so far, if `set_default_logger` erases it. -/
def Loggers.erasedRegistry (erases : Bool) (s : Loggers) : List UInt8 → Option Nat :=
  if erases then Function.update s.registry s.defaultName none else s.registry

/-- `Initialize`. -/
def Loggers.initializeLog (erases : Bool) (logName : List UInt8) (threadCreated : Bool)
    (s : Loggers) : Loggers :=
  if s.initialized then s
  else
    { s with
      initialized := threadCreated
      logger := some s.next
      registry := Function.update (s.erasedRegistry erases) logName (some s.next)
      defaultName := logName
      levels := Function.update s.levels s.next .info
      next := s.next + 1 }

/-- `Create`, unless registering the logger throws. -/
def Loggers.create (logName : List UInt8) (s : Loggers) : Option Loggers :=
  if (s.registry logName).isSome then none
  else
    some { s with
      registry := Function.update s.registry logName (some s.next)
      levels := Function.update s.levels s.next .info
      created := Function.update s.created s.next true
      next := s.next + 1 }

/-- The level of one logger. -/
def Loggers.setLevelAt (id : Option Nat) (lvl : LogLevel) (s : Loggers) : Loggers :=
  match id with
  | some id => { s with levels := Function.update s.levels id lvl }
  | none => s

/-- `SetLogLevel(lvl)` and `SetLevel`. -/
def Loggers.setLogLevel (lvl : LogLevel) (s : Loggers) : Loggers :=
  { s with level := lvl.toInt }.setLevelAt s.logger lvl

/-- `SetLogLevel(name, lvl)`. -/
def Loggers.setLogLevelOf (loggerName : List UInt8) (lvl : LogLevel) (s : Loggers) : Loggers :=
  s.setLevelAt (s.registry loggerName) lvl

/-- One call. -/
def Loggers.call (erases : Bool) (s : Loggers) : Setup → Option Loggers
  | .initializeLog logName threadCreated => some (s.initializeLog erases logName threadCreated)
  | .create logName => s.create logName
  | .setLogLevel lvl => some (s.setLogLevel lvl)
  | .setLogLevelOf loggerName lvl => some (s.setLogLevelOf loggerName lvl)

/-- A sequence of calls of which none throws. -/
def Loggers.calls (erases : Bool) (s : Loggers) (cs : List Setup) : Option Loggers :=
  cs.foldlM (Loggers.call erases) s

/-! ## Messages -/

/-- A `LOG_U` statement with a text. -/
structure NamedMessage where
  name : List UInt8
  level : LogLevel
  now : Int
  body : Body
  sends : body.text.isSome = true

/-- What the logging calls check. -/
def Loggers.gate (s : Loggers) : Gate where
  initialized := s.initialized
  level := s.level

/-- The registry as the drain thread sees it; no logger throws. -/
def Loggers.spdlog (s : Loggers) : Spdlog where
  registered name := (s.registry name).isSome
  lineFault _ := .none
  entryThrows _ := false

/-- The logger behind a target. -/
def Loggers.loggerOf (s : Loggers) : Target → Option Nat
  | .default => s.logger
  | .named name => s.registry name

/-- The entry that a message pushes. -/
def Loggers.entry (s : Loggers) (m : NamedMessage) : Option (Entry UInt8) :=
  s.gate.logU m.name m.level m.now m.body

/-- The drain thread after messages that were synced one by one. -/
def Loggers.drained (s : Loggers) (d : Drain UInt8) (ms : List NamedMessage) : Drain UInt8 :=
  d.flushAll s.spdlog (ms.filterMap s.entry)

/-- The logger calls for one more message. -/
def Loggers.callsOf (s : Loggers) (d : Drain UInt8) (m : NamedMessage) : List LoggerCall :=
  (s.drained d [m]).loggerCalls.drop d.loggerCalls.length

/-- A logger is called for the message, which is not below its level. -/
def Loggers.Emits (s : Loggers) (d : Drain UInt8) (m : NamedMessage) (id : Nat) : Prop :=
  ∃ call ∈ s.callsOf d m,
    s.loggerOf call.logger = some id ∧ (s.levels id).toInt ≤ call.level.toInt

/-! ## What the calls set -/

/-- The level set for a name; a new logger has level `info`. -/
def recentStep (name : List UInt8) (level : LogLevel) : Setup → LogLevel
  | .initializeLog _ _ => level
  | .create logName => if logName = name then .info else level
  | .setLogLevel _ => level
  | .setLogLevelOf loggerName lvl => if loggerName = name then lvl else level

/-- The level most recently set for a name. -/
def recentLevel (name : List UInt8) (cs : List Setup) : LogLevel :=
  cs.foldl (recentStep name) .info

/-- The level set by `SetLogLevel(lvl)`. -/
def recentDefaultStep (level : LogLevel) : Setup → LogLevel
  | .initializeLog _ _ => level
  | .create _ => level
  | .setLogLevel lvl => lvl
  | .setLogLevelOf _ _ => level

/-- The level most recently set for the default logger, at first `trace`. -/
def recentDefaultLevel (cs : List Setup) : LogLevel :=
  cs.foldl recentDefaultStep .trace

/-- Different names have different loggers, those of names are numbered so far, and the
default logger does not come from `Create`. -/
structure LoggersInv (s : Loggers) : Prop where
  fresh : ∀ name id, s.registry name = some id → id < s.next
  injective : ∀ name name' id, s.registry name = some id → s.registry name' = some id →
    name = name'
  default : ∀ id, s.logger = some id → id < s.next ∧ s.created id = false
  createdFresh : ∀ id, s.created id = true → id < s.next

theorem start_registry {name : List UInt8} {id : Nat}
    (h : Loggers.start.registry name = some id) : name = [] ∧ id = 0 := by
  unfold Loggers.start at h
  dsimp only at h
  split at h
  · rename_i hname
    injection h with h
    exact ⟨hname, h.symm⟩
  · contradiction

theorem start_inv : LoggersInv Loggers.start where
  fresh := by
    intro name id h
    rw [(start_registry h).2]
    exact Nat.zero_lt_one
  injective := by
    intro name name' id h h'
    rw [(start_registry h).1, (start_registry h').1]
  default := fun _ h => absurd h (by simp [Loggers.start])
  createdFresh := fun _ h => absurd h (by simp [Loggers.start])

/-- Registering a new logger. -/
theorem register_inv {registry : List UInt8 → Option Nat} {next : Nat}
    (hfresh : ∀ name id, registry name = some id → id < next)
    (hinj : ∀ name name' id, registry name = some id → registry name' = some id → name = name')
    (logName : List UInt8) :
    (∀ name id, Function.update registry logName (some next) name = some id → id < next + 1) ∧
      ∀ name name' id, Function.update registry logName (some next) name = some id →
        Function.update registry logName (some next) name' = some id → name = name' := by
  have hcases : ∀ name id, Function.update registry logName (some next) name = some id →
      (name = logName ∧ id = next) ∨ (name ≠ logName ∧ registry name = some id) := by
    intro name id h
    by_cases hname : name = logName
    · rw [hname, Function.update_self] at h
      injection h with h
      exact Or.inl ⟨hname, h.symm⟩
    · rw [Function.update_of_ne hname] at h
      exact Or.inr ⟨hname, h⟩
  constructor
  · intro name id h
    rcases hcases name id h with ⟨-, hid⟩ | ⟨-, hold⟩
    · omega
    · have := hfresh name id hold
      omega
  · intro name name' id h h'
    rcases hcases name id h with ⟨hname, hid⟩ | ⟨-, hold⟩
    · rcases hcases name' id h' with ⟨hname', -⟩ | ⟨-, hold'⟩
      · rw [hname, hname']
      · have := hfresh name' id hold'
        omega
    · rcases hcases name' id h' with ⟨-, hid⟩ | ⟨-, hold'⟩
      · have := hfresh name id hold
        omega
      · exact hinj name name' id hold hold'

/-- Erasing adds no names. -/
theorem erasedRegistry_some {erases : Bool} {s : Loggers} {name : List UInt8} {id : Nat}
    (h : s.erasedRegistry erases name = some id) : s.registry name = some id := by
  unfold Loggers.erasedRegistry at h
  split at h
  · by_cases hname : name = s.defaultName
    · rw [hname, Function.update_self] at h
      contradiction
    · rwa [Function.update_of_ne hname] at h
  · exact h

theorem LoggersInv.setLevelAt {s : Loggers} (h : LoggersInv s) (id : Option Nat)
    (lvl : LogLevel) : LoggersInv (s.setLevelAt id lvl) := by
  cases id with
  | none => exact h
  | some id => exact ⟨h.fresh, h.injective, h.default, h.createdFresh⟩

theorem LoggersInv.initializeLog {s : Loggers} (h : LoggersInv s) (erases : Bool)
    (logName : List UInt8) (threadCreated : Bool) :
    LoggersInv (s.initializeLog erases logName threadCreated) := by
  unfold Loggers.initializeLog
  split
  · exact h
  · have hreg := @register_inv (s.erasedRegistry erases) s.next
      (fun name id hname => h.fresh name id (erasedRegistry_some hname))
      (fun name name' id hname hname' =>
        h.injective name name' id (erasedRegistry_some hname) (erasedRegistry_some hname'))
      logName
    constructor
    · exact hreg.1
    · exact hreg.2
    · intro id hid
      injection hid with hid
      constructor
      · exact hid ▸ Nat.lt_succ_self _
      · show s.created id = false
        rw [← hid]
        by_contra hcreated
        exact Nat.lt_irrefl _ (h.createdFresh s.next (by simpa using hcreated))
    · exact fun id hid => Nat.lt_succ_of_lt (h.createdFresh id hid)

theorem LoggersInv.create {s s' : Loggers} (h : LoggersInv s) {logName : List UInt8}
    (hcreate : s.create logName = some s') : LoggersInv s' := by
  unfold Loggers.create at hcreate
  split at hcreate
  · contradiction
  · cases hcreate
    have hreg := register_inv h.fresh h.injective logName
    constructor
    · exact hreg.1
    · exact hreg.2
    · intro id hid
      have hold := h.default id hid
      constructor
      · exact Nat.lt_succ_of_lt hold.1
      · show Function.update s.created s.next true id = false
        rw [Function.update_of_ne (Nat.ne_of_lt hold.1)]
        exact hold.2
    · intro id hid
      by_cases hnext : id = s.next
      · exact hnext ▸ Nat.lt_succ_self _
      · have hold : s.created id = true := by
          rw [← hid]
          exact (Function.update_of_ne hnext _ _).symm
        exact Nat.lt_succ_of_lt (h.createdFresh id hold)

theorem LoggersInv.call {erases : Bool} {s s' : Loggers} (h : LoggersInv s) {c : Setup}
    (hcall : s.call erases c = some s') : LoggersInv s' := by
  cases c with
  | initializeLog logName threadCreated =>
      cases hcall
      exact h.initializeLog erases logName threadCreated
  | create logName => exact h.create hcall
  | setLogLevel lvl =>
      cases hcall
      apply LoggersInv.setLevelAt
      exact ⟨h.fresh, h.injective, h.default, h.createdFresh⟩
  | setLogLevelOf loggerName lvl =>
      cases hcall
      exact h.setLevelAt _ lvl

/-- The rule for sequences of calls: what relates the loggers to a value and survives each
call, with the value moved along, holds after all calls. -/
theorem Loggers.calls_foldl {α : Type} {Rel : Loggers → α → Prop} {f : α → Setup → α}
    {erases : Bool}
    (hstep : ∀ t u a c, Rel t a → t.call erases c = some u → Rel u (f a c))
    {cs : List Setup} {s s' : Loggers} {a : α} (h : Rel s a)
    (hcalls : s.calls erases cs = some s') : Rel s' (cs.foldl f a) := by
  induction cs generalizing s a with
  | nil =>
      cases hcalls
      exact h
  | cons c cs ih =>
      rcases Option.bind_eq_some_iff.mp hcalls with ⟨t, ht, hrest⟩
      exact ih (hstep s t a c h ht) hrest

theorem LoggersInv.calls {erases : Bool} {s s' : Loggers} (h : LoggersInv s) {cs : List Setup}
    (hcalls : s.calls erases cs = some s') : LoggersInv s' := by
  have hstep : ∀ (t u : Loggers) (_ : Unit) c, LoggersInv t → t.call erases c = some u →
      LoggersInv u := fun t u _ c ht hu => ht.call hu
  exact Loggers.calls_foldl (f := fun a _ => a) (a := ()) hstep h hcalls

/-- The two states differ in levels only. -/
structure Loggers.Alike (s t : Loggers) : Prop where
  initialized : t.initialized = s.initialized
  logger : t.logger = s.logger
  registry : t.registry = s.registry
  defaultName : t.defaultName = s.defaultName
  created : t.created = s.created
  next : t.next = s.next

theorem alike_setLevelAt (s : Loggers) (id : Option Nat) (lvl : LogLevel) :
    s.Alike (s.setLevelAt id lvl) := by
  cases id <;> exact ⟨rfl, rfl, rfl, rfl, rfl, rfl⟩

/-- A created logger survives `Initialize` with its level. -/
theorem levels_initializeLog {s : Loggers} (h : LoggersInv s) (erases : Bool)
    (logName : List UInt8) (threadCreated : Bool) {name : List UInt8} {id : Nat}
    (hid : (s.initializeLog erases logName threadCreated).registry name = some id)
    (hcreated : (s.initializeLog erases logName threadCreated).created id = true) :
    s.registry name = some id ∧ s.created id = true ∧
      (s.initializeLog erases logName threadCreated).levels id = s.levels id := by
  unfold Loggers.initializeLog at hid hcreated ⊢
  split at hid
  · rename_i hinit
    rw [if_pos hinit] at hcreated ⊢
    exact ⟨hid, hcreated, rfl⟩
  · rename_i hinit
    rw [if_neg hinit] at hcreated ⊢
    have hlt := h.createdFresh id hcreated
    have hname : name ≠ logName := by
      intro heq
      rw [heq] at hid
      have hnext : s.next = id := by simpa using hid
      omega
    have hold : s.registry name = some id := by
      have hid' : Function.update (s.erasedRegistry erases) logName (some s.next) name =
          some id := hid
      rw [Function.update_of_ne hname] at hid'
      exact erasedRegistry_some hid'
    exact ⟨hold, hcreated, Function.update_of_ne (Nat.ne_of_lt hlt) _ _⟩

/-- `Create` makes a logger with the level `info` and leaves the others alone. -/
theorem levels_create {s s' : Loggers} (h : LoggersInv s) {logName : List UInt8}
    (hcreate : s.create logName = some s') {name : List UInt8} {id : Nat}
    (hid : s'.registry name = some id) (hcreated : s'.created id = true) :
    logName = name ∧ s'.levels id = .info ∨
      logName ≠ name ∧ s.registry name = some id ∧ s.created id = true ∧
        s'.levels id = s.levels id := by
  unfold Loggers.create at hcreate
  split at hcreate
  · contradiction
  · cases hcreate
    by_cases hname : name = logName
    · have hnext : s.next = id := by
        rw [hname] at hid
        simpa using hid
      refine Or.inl ⟨hname.symm, ?_⟩
      show Function.update s.levels s.next .info id = .info
      rw [← hnext, Function.update_self]
    · have hold : s.registry name = some id := by
        rw [← hid]
        exact (Function.update_of_ne hname _ _).symm
      have hne : id ≠ s.next := Nat.ne_of_lt (h.fresh name id hold)
      have hcreated' : s.created id = true := by
        rw [← hcreated]
        exact (Function.update_of_ne hne _ _).symm
      exact Or.inr ⟨Ne.symm hname, hold, hcreated', Function.update_of_ne hne _ _⟩

/-- `SetLogLevel(lvl)` leaves the created loggers alone. -/
theorem levels_setLogLevel {s : Loggers} (h : LoggersInv s) (lvl : LogLevel) {id : Nat}
    (hcreated : s.created id = true) : (s.setLogLevel lvl).levels id = s.levels id := by
  unfold Loggers.setLogLevel
  cases hlogger : s.logger with
  | none => rfl
  | some j =>
      have hne : id ≠ j := by
        intro heq
        have hfalse := (h.default j hlogger).2
        rw [← heq] at hfalse
        exact Bool.false_ne_true (hfalse.symm.trans hcreated)
      exact Function.update_of_ne hne _ _

/-- `SetLogLevel(name, lvl)` sets the level of the logger with this name. -/
theorem levels_setLogLevelOf {s : Loggers} (h : LoggersInv s) {name : List UInt8} {id : Nat}
    (hid : s.registry name = some id) (loggerName : List UInt8) (lvl : LogLevel) :
    (s.setLogLevelOf loggerName lvl).levels id =
      if loggerName = name then lvl else s.levels id := by
  unfold Loggers.setLogLevelOf
  cases hfound : s.registry loggerName with
  | none =>
      have hne : loggerName ≠ name := by
        intro heq
        rw [heq, hid] at hfound
        contradiction
      rw [if_neg hne]
      rfl
  | some j =>
      show Function.update s.levels j lvl id = if loggerName = name then lvl else s.levels id
      by_cases hname : loggerName = name
      · have hj : j = id := by
          rw [hname, hid] at hfound
          exact (Option.some.inj hfound).symm
        rw [hj, Function.update_self, if_pos hname]
      · have hne : id ≠ j := by
          intro heq
          rw [heq] at hid
          exact hname (h.injective loggerName name j hfound hid)
        rw [Function.update_of_ne hne, if_neg hname]

/-- One call keeps the level of a created logger the most recent one. -/
theorem levels_call {erases : Bool} {s s' : Loggers} (h : LoggersInv s) {c : Setup}
    (hcall : s.call erases c = some s') {name : List UInt8} {level : LogLevel}
    (hlevel : ∀ id, s.registry name = some id → s.created id = true → s.levels id = level)
    (id : Nat) (hid : s'.registry name = some id) (hcreated : s'.created id = true) :
    s'.levels id = recentStep name level c := by
  cases c with
  | initializeLog logName threadCreated =>
      cases hcall
      rcases levels_initializeLog h erases logName threadCreated hid hcreated with
        ⟨hold, hcreated', hsame⟩
      rw [hsame]
      exact hlevel id hold hcreated'
  | create logName =>
      show s'.levels id = if logName = name then .info else level
      rcases levels_create h hcall hid hcreated with
        ⟨hname, hinfo⟩ | ⟨hname, hold, hcreated', hsame⟩
      · rw [if_pos hname, hinfo]
      · rw [if_neg hname, hsame]
        exact hlevel id hold hcreated'
  | setLogLevel lvl =>
      cases hcall
      have hsame := alike_setLevelAt { s with level := lvl.toInt } s.logger lvl
      have hold : s.registry name = some id := hsame.registry ▸ hid
      have hcreated' : s.created id = true := hsame.created ▸ hcreated
      rw [levels_setLogLevel h lvl hcreated']
      exact hlevel id hold hcreated'
  | setLogLevelOf loggerName lvl =>
      cases hcall
      have hsame := alike_setLevelAt s (s.registry loggerName) lvl
      have hold : s.registry name = some id := hsame.registry ▸ hid
      have hcreated' : s.created id = true := hsame.created ▸ hcreated
      rw [levels_setLogLevelOf h hold, hlevel id hold hcreated']
      rfl

/-- A logger that comes from `Create` has the level most recently set for its name. -/
theorem level_eq_recentLevel {erases : Bool} {cs : List Setup} {s : Loggers}
    (hcalls : Loggers.start.calls erases cs = some s) {name : List UInt8} {id : Nat}
    (hid : s.registry name = some id) (hcreated : s.created id = true) :
    s.levels id = recentLevel name cs := by
  have hstep : ∀ (t u : Loggers) (level : LogLevel) (c : Setup),
      (LoggersInv t ∧ ∀ id, t.registry name = some id → t.created id = true →
        t.levels id = level) → t.call erases c = some u →
      LoggersInv u ∧ ∀ id, u.registry name = some id → u.created id = true →
        u.levels id = recentStep name level c := by
    rintro t u level c ⟨hinv, hlevel⟩ hu
    exact ⟨hinv.call hu, levels_call hinv hu hlevel⟩
  have hstart : ∀ id, Loggers.start.registry name = some id →
      Loggers.start.created id = true → Loggers.start.levels id = .info := by
    intro id _ hfalse
    simp [Loggers.start] at hfalse
  exact (Loggers.calls_foldl hstep ⟨start_inv, hstart⟩ hcalls).2 id hid hcreated

/-- Setting the level of a logger leaves `m_level` alone. -/
theorem level_setLevelAt (s : Loggers) (id : Option Nat) (lvl : LogLevel) :
    (s.setLevelAt id lvl).level = s.level := by
  cases id <;> rfl

/-- `m_level` is the level most recently set for the default logger. -/
theorem level_eq_recentDefaultLevel {erases : Bool} {cs : List Setup} {s : Loggers}
    (hcalls : Loggers.start.calls erases cs = some s) :
    s.level = (recentDefaultLevel cs).toInt := by
  have hstep : ∀ (t u : Loggers) (level : LogLevel) (c : Setup), t.level = level.toInt →
      t.call erases c = some u → u.level = (recentDefaultStep level c).toInt := by
    intro t u level c hlevel hu
    cases c with
    | initializeLog logName threadCreated =>
        cases hu
        unfold Loggers.initializeLog
        split
        · exact hlevel
        · exact hlevel
    | create logName =>
        simp only [Loggers.call, Loggers.create] at hu
        split at hu
        · contradiction
        · cases hu
          exact hlevel
    | setLogLevel lvl =>
        cases hu
        exact level_setLevelAt _ _ _
    | setLogLevelOf loggerName lvl =>
        cases hu
        exact (level_setLevelAt _ _ _).trans hlevel
  exact Loggers.calls_foldl hstep rfl hcalls

/-! ## Changing the level of the default logger -/

theorem Loggers.Alike.setLevelAt {s t : Loggers} (h : s.Alike t) (id : Option Nat)
    (lvl : LogLevel) : (s.setLevelAt id lvl).Alike (t.setLevelAt id lvl) := by
  cases id <;> exact ⟨h.initialized, h.logger, h.registry, h.defaultName, h.created, h.next⟩

theorem Loggers.Alike.call {erases : Bool} {s t s' t' : Loggers} (h : s.Alike t) {c : Setup}
    (hs : s.call erases c = some s') (ht : t.call erases c = some t') : s'.Alike t' := by
  cases c with
  | initializeLog logName threadCreated =>
      cases hs
      cases ht
      unfold Loggers.initializeLog
      rw [h.initialized]
      split
      · exact h
      · have herased : t.erasedRegistry erases = s.erasedRegistry erases := by
          unfold Loggers.erasedRegistry
          rw [h.registry, h.defaultName]
        constructor
        · rfl
        · exact congrArg some h.next
        · show Function.update (t.erasedRegistry erases) logName (some t.next) =
            Function.update (s.erasedRegistry erases) logName (some s.next)
          rw [herased, h.next]
        · rfl
        · exact h.created
        · exact congrArg (· + 1) h.next
  | create logName =>
      simp only [Loggers.call, Loggers.create] at hs ht
      rw [h.registry] at ht
      split at hs
      · contradiction
      · rename_i hnone
        rw [if_neg hnone] at ht
        cases hs
        cases ht
        constructor
        · exact h.initialized
        · exact h.logger
        · show Function.update s.registry logName (some t.next) =
            Function.update s.registry logName (some s.next)
          rw [h.next]
        · exact h.defaultName
        · show Function.update t.created t.next true = Function.update s.created s.next true
          rw [h.created, h.next]
        · exact congrArg (· + 1) h.next
  | setLogLevel lvl =>
      cases hs
      cases ht
      unfold Loggers.setLogLevel
      rw [h.logger]
      apply Loggers.Alike.setLevelAt
      exact ⟨h.initialized, rfl, h.registry, h.defaultName, h.created, h.next⟩
  | setLogLevelOf loggerName lvl =>
      cases hs
      cases ht
      unfold Loggers.setLogLevelOf
      rw [h.registry]
      exact h.setLevelAt _ lvl

theorem Loggers.Alike.calls {erases : Bool} {s t s' t' : Loggers} (h : s.Alike t)
    {cs : List Setup} (hs : s.calls erases cs = some s') (ht : t.calls erases cs = some t') :
    s'.Alike t' := by
  induction cs generalizing s t with
  | nil =>
      cases hs
      cases ht
      exact h
  | cons c cs ih =>
      rcases Option.bind_eq_some_iff.mp hs with ⟨u, hu, hus⟩
      rcases Option.bind_eq_some_iff.mp ht with ⟨v, hv, hvt⟩
      exact ih (h.call hu hv) hus hvt

/-- A further change of the default level only changes levels. -/
theorem alike_of_setLogLevel {erases : Bool} {cs₁ cs₂ : List Setup} {lvl : LogLevel}
    {s t : Loggers} (hs : Loggers.start.calls erases (cs₁ ++ cs₂) = some s)
    (ht : Loggers.start.calls erases (cs₁ ++ .setLogLevel lvl :: cs₂) = some t) :
    s.Alike t := by
  unfold Loggers.calls at hs ht
  rw [List.foldlM_append] at hs ht
  rcases Option.bind_eq_some_iff.mp hs with ⟨u, hu, hus⟩
  rcases Option.bind_eq_some_iff.mp ht with ⟨v, hv, hvt⟩
  have huv : v = u := Option.some.inj (hv.symm.trans hu)
  rw [huv] at hvt
  have hset : u.Alike (u.setLogLevel lvl) :=
    have hlevel := alike_setLevelAt { u with level := lvl.toInt } u.logger lvl
    ⟨hlevel.initialized, hlevel.logger, hlevel.registry, hlevel.defaultName, hlevel.created,
      hlevel.next⟩
  exact hset.calls hus hvt

/-! ## Messages that are emitted -/

theorem passes_iff (s : Loggers) (lvl : LogLevel) :
    s.gate.passes lvl = true ↔ s.initialized = true ∧ s.level ≤ lvl.toInt := by
  unfold Gate.passes Loggers.gate
  rw [Bool.and_eq_true, Bool.not_eq_true', decide_eq_false_iff_not, Int.not_lt]

/-- The entry of a message. -/
theorem entry_eq (s : Loggers) (m : NamedMessage) :
    ∃ text, s.entry m =
      if s.gate.passes m.level then
        some { Entry.set m.level m.now text with loggerName := copyName m.name }
      else none := by
  rcases Option.isSome_iff_exists.mp m.sends with ⟨text, htext⟩
  apply Exists.intro text
  unfold Loggers.entry
  rw [logU_eq, htext]
  rfl

/-- The calls that a message leads to when it is drained behind others. -/
theorem callsOf_eq {s : Loggers} {d : Drain UInt8} (hlogger : d.logger.isSome = true)
    (hroom : d.contBuf.length ≤ contBufSize) (m : NamedMessage) :
    s.callsOf d m = ([m].filterMap s.entry).filterMap (Entry.loggerCall s.spdlog d.timebase) := by
  unfold Loggers.callsOf Loggers.drained
  rw [loggerCalls_flushAll s.spdlog hlogger hroom, List.drop_left]

/-- A message that passes leads to the call for its entry, if there is one. -/
theorem callsOf_of_passes {s : Loggers} {d : Drain UInt8} (hlogger : d.logger.isSome = true)
    (hroom : d.contBuf.length ≤ contBufSize) {m : NamedMessage}
    (hpass : s.gate.passes m.level = true) :
    ∃ e : Entry UInt8, e.loggerName = copyName m.name ∧ e.level = m.level ∧
      s.callsOf d m = (e.loggerCall s.spdlog d.timebase).toList := by
  rcases entry_eq s m with ⟨text, hentry⟩
  rw [if_pos hpass] at hentry
  let e : Entry UInt8 :=
    { Entry.set m.level m.now text with loggerName := copyName m.name }
  have hone : s.callsOf d m = (e.loggerCall s.spdlog d.timebase).toList := by
    rw [callsOf_eq hlogger hroom, List.filterMap_cons_some hentry, List.filterMap_nil]
    cases hcall : e.loggerCall s.spdlog d.timebase with
    | none => rw [List.filterMap_cons_none hcall, List.filterMap_nil, Option.toList_none]
    | some call => rw [List.filterMap_cons_some hcall, List.filterMap_nil, Option.toList_some]
  exact ⟨e, rfl, rfl, hone⟩

theorem callsOf_of_not_passes {s : Loggers} {d : Drain UInt8}
    (hlogger : d.logger.isSome = true) (hroom : d.contBuf.length ≤ contBufSize)
    {m : NamedMessage} (hpass : ¬ s.gate.passes m.level = true) : s.callsOf d m = [] := by
  rcases entry_eq s m with ⟨text, hentry⟩
  rw [if_neg hpass] at hentry
  rw [callsOf_eq hlogger hroom, List.filterMap_cons_none hentry]
  rfl

/-- A call has the time, the level and the text of its entry. -/
theorem loggerCall_fields {env : Spdlog} {tb : TimeBase} {e : Entry UInt8} {call : LoggerCall}
    (hcall : e.loggerCall env tb = some call) :
    call =
      { logger := call.logger
        time := tb.toWall_ns e.timeStamp_ns
        level := e.level
        text := e.msg } := by
  unfold Entry.loggerCall at hcall
  split at hcall
  · contradiction
  · cases hcall
    rfl

/-- Of the loggers that a call can go to, only that of the name is the one from `Create`. -/
theorem LoggersInv.target_eq {s : Loggers} (h : LoggersInv s) {target : Target}
    {name : List UInt8} {id : Nat} (hid : s.registry name = some id)
    (hcreated : s.created id = true) (hof : s.loggerOf target = some id) :
    target = .named name := by
  cases target with
  | default =>
      have hfalse := (h.default id hof).2
      exact absurd (hfalse.symm.trans hcreated) Bool.false_ne_true
  | named other => exact congrArg Target.named (h.injective other name id hof hid)

/-- A logger from `Create` emits a message for its name exactly when the message passes
both levels and the name comes through the queue. -/
theorem emits_iff {s : Loggers} (h : LoggersInv s) {d : Drain UInt8}
    (hlogger : d.logger.isSome = true) (hroom : d.contBuf.length ≤ contBufSize)
    (m : NamedMessage) {id : Nat} (hid : s.registry m.name = some id)
    (hcreated : s.created id = true) :
    s.Emits d m id ↔
      s.initialized = true ∧ s.level ≤ m.level.toInt ∧ Routable s.spdlog m.name ∧
        (s.levels id).toInt ≤ m.level.toInt := by
  by_cases hpass : s.gate.passes m.level = true
  · rcases callsOf_of_passes hlogger hroom hpass with ⟨e, hname, hlevel, hone⟩
    have hroute := loggerCall_named_iff s.spdlog d.timebase hname
    have hpasses := (passes_iff s m.level).mp hpass
    unfold Loggers.Emits
    rw [hone]
    constructor
    · rintro ⟨call, hmem, hof, hle⟩
      have hcall : e.loggerCall s.spdlog d.timebase = some call := Option.mem_toList.mp hmem
      have hlog : call.logger = .named m.name := h.target_eq hid hcreated hof
      have hfields := loggerCall_fields hcall
      have hlevel' : call.level = m.level := by
        rw [hfields]
        exact hlevel
      rw [hfields, hlog] at hcall
      constructor
      · exact hpasses.1
      · constructor
        · exact hpasses.2
        · constructor
          · exact hroute.mp hcall
          · rwa [hlevel'] at hle
    · rintro ⟨-, -, hroutable, hle⟩
      have hcall := hroute.mpr hroutable
      apply Exists.intro
        { logger := .named m.name
          time := d.timebase.toWall_ns e.timeStamp_ns
          level := e.level
          text := e.msg }
      constructor
      · exact Option.mem_toList.mpr hcall
      · constructor
        · exact hid
        · show (s.levels id).toInt ≤ e.level.toInt
          rwa [hlevel]
  · constructor
    · rintro ⟨call, hmem, -⟩
      rw [callsOf_of_not_passes hlogger hroom hpass] at hmem
      contradiction
    · rintro ⟨hinit, hle, -⟩
      exact absurd ((passes_iff s m.level).mpr ⟨hinit, hle⟩) hpass

/-- For every sequence of setup calls, with and without one more `SetLogLevel(lvl)`, and
every message behind others, to a logger registered with `Create`: the logger emits the
message exactly when it is not below the level most recently set for the name, and the
further call does not matter, if and only if a message that is not below that level finds
the logger initialized, a routable name, and passes the level of the default logger with
and without the further call. -/
theorem levels_per_logger_iff (erases : Bool) (cs₁ cs₂ : List Setup) (lvl : LogLevel)
    {s t : Loggers} (hs : Loggers.start.calls erases (cs₁ ++ cs₂) = some s)
    (ht : Loggers.start.calls erases (cs₁ ++ .setLogLevel lvl :: cs₂) = some t)
    (pattern : String) (timebase : TimeBase) (contLevel : LogLevel)
    (before : List NamedMessage) (m : NamedMessage) {id : Nat}
    (hid : s.registry m.name = some id) (hcreated : s.created id = true) :
    let d := Drain.initialized pattern timebase contLevel
    let own := (recentLevel m.name (cs₁ ++ cs₂)).toInt
    ((s.Emits (s.drained d before) m id ↔ own ≤ m.level.toInt) ∧
        (s.Emits (s.drained d before) m id ↔ t.Emits (t.drained d before) m id)) ↔
      (own ≤ m.level.toInt →
        s.initialized = true ∧
          (1 ≤ m.name.length ∧ m.name.length ≤ 63 ∧ m.name.head? ≠ some contEntryMarker) ∧
          (recentDefaultLevel (cs₁ ++ cs₂)).toInt ≤ m.level.toInt ∧
          (recentDefaultLevel (cs₁ ++ .setLogLevel lvl :: cs₂)).toInt ≤ m.level.toInt) := by
  intro d own
  have halike := alike_of_setLogLevel hs ht
  have hid' : t.registry m.name = some id := by
    rw [halike.registry]
    exact hid
  have hcreated' : t.created id = true := by
    rw [halike.created]
    exact hcreated
  have hown : recentLevel m.name (cs₁ ++ .setLogLevel lvl :: cs₂) =
      recentLevel m.name (cs₁ ++ cs₂) := by
    unfold recentLevel
    rw [List.foldl_append, List.foldl_append, List.foldl_cons]
    rfl
  have hsready := flushAll_ready s.spdlog (d := d) rfl (Nat.zero_le _) (before.filterMap s.entry)
  have htready := flushAll_ready t.spdlog (d := d) rfl (Nat.zero_le _) (before.filterMap t.entry)
  have hsroute : Routable s.spdlog m.name ↔ 1 ≤ m.name.length ∧ m.name.length ≤ 63 ∧
      m.name.head? ≠ some contEntryMarker := by
    have hfound : s.spdlog.registered m.name = true := by
      show (s.registry m.name).isSome = true
      rw [hid]
      rfl
    exact and_iff_right hfound
  have htroute : Routable t.spdlog m.name ↔ Routable s.spdlog m.name := by
    have hsame : t.spdlog = s.spdlog := by
      unfold Loggers.spdlog
      rw [halike.registry]
    rw [hsame]
  have hsemits := emits_iff (start_inv.calls hs) hsready.1 hsready.2 m hid hcreated
  have htemits := emits_iff (start_inv.calls ht) htready.1 htready.2 m hid' hcreated'
  rw [level_eq_recentLevel hs hid hcreated, level_eq_recentDefaultLevel hs, hsroute] at hsemits
  rw [level_eq_recentLevel ht hid' hcreated', level_eq_recentDefaultLevel ht, htroute, hsroute,
    halike.initialized, hown] at htemits
  show ((s.Emits (s.drained d before) m id ↔ _) ∧
    (s.Emits (s.drained d before) m id ↔ t.Emits (t.drained d before) m id)) ↔ _
  unfold Loggers.drained
  rw [hsemits, htemits]
  constructor
  · rintro ⟨hlevel, hsame⟩ hle
    have hall := hlevel.mpr hle
    have hall' := hsame.mp hall
    exact ⟨hall.1, hall.2.2.1, hall.2.1, hall'.2.1⟩
  · intro h
    constructor
    · constructor
      · exact fun hall => hall.2.2.2
      · intro hle
        have hall := h hle
        exact ⟨hall.1, hall.2.2.1, hall.2.1, hle⟩
    · constructor
      · intro hall
        have hall' := h hall.2.2.2
        exact ⟨hall.1, hall'.2.2.2, hall.2.2.1, hall.2.2.2⟩
      · intro hall
        have hall' := h hall.2.2.2
        exact ⟨hall.1, hall'.2.2.1, hall.2.2.1, hall.2.2.2⟩

/-- A message for the logger `b`. -/
def messageFor (level : LogLevel) : NamedMessage where
  name := [98]
  level := level
  now := 0
  body := .formatted [104, 105]
  sends := rfl

/-- A default logger `a` and a logger `b`, whose level is set to `lvl`. -/
def twoLoggers (lvl : LogLevel) : List Setup :=
  [.initializeLog [97] true, .create [98], .setLogLevelOf [98] lvl]

/-- The drain thread before its first entry, with the pattern `%v`. -/
def plainDrain : Drain UInt8 :=
  Drain.initialized "%v" { wall_ns := 0, monotonic_ns := 0 } .info

/-- A message for `b` does not depend on a lower level of the default logger. -/
theorem levels_per_logger_iff_lower_default :
    ∃ s, Loggers.start.calls true (twoLoggers .info) = some s ∧
      s.Emits plainDrain (messageFor .info) 2 := by
  apply Exists.intro _
  constructor
  · rfl
  · have h := levels_per_logger_iff true (twoLoggers .info) [] .debug rfl rfl "%v"
      { wall_ns := 0, monotonic_ns := 0 } .info [] (messageFor .info) (show _ = some 2 from rfl) rfl
    exact (h.mpr (by decide)).1.mpr (by decide)

/-- Which messages the logger `b` emits. -/
theorem emits_messageFor_iff {cs : List Setup} {s : Loggers}
    (hcalls : Loggers.start.calls true cs = some s) (hid : s.registry [98] = some 2)
    (hcreated : s.created 2 = true) (level : LogLevel) :
    s.Emits plainDrain (messageFor level) 2 ↔
      s.initialized = true ∧ s.level ≤ level.toInt ∧ Routable s.spdlog [98] ∧
        (s.levels 2).toInt ≤ level.toInt :=
  emits_iff (start_inv.calls hcalls) rfl (Nat.zero_le _) (messageFor level) hid hcreated

/-- The logger `b` with level `debug` emits a debug message, but no more once the level of
the default logger is `info`. -/
theorem default_level_silences :
    ∃ s t, Loggers.start.calls true (twoLoggers .debug) = some s ∧
      Loggers.start.calls true (twoLoggers .debug ++ [.setLogLevel .info]) = some t ∧
      s.registry [98] = some 2 ∧ t.registry [98] = some 2 ∧ t.created 2 = true ∧
      recentLevel [98] (twoLoggers .debug ++ [.setLogLevel .info]) = .debug ∧
      s.Emits plainDrain (messageFor .debug) 2 ∧ ¬ t.Emits plainDrain (messageFor .debug) 2 := by
  refine ⟨_, _, rfl, rfl, rfl, rfl, rfl, rfl, ?_, ?_⟩
  · apply (emits_messageFor_iff
      (show Loggers.start.calls true (twoLoggers .debug) = some _ from rfl) rfl rfl .debug).mpr
    exact ⟨rfl, by decide, ⟨rfl, by decide, by decide, by decide⟩, by decide⟩
  · intro hemits
    have hiff := emits_messageFor_iff
      (show Loggers.start.calls true (twoLoggers .debug ++ [.setLogLevel .info]) = some _ from rfl)
      rfl rfl .debug
    exact absurd (hiff.mp hemits).2.1 (by decide)

end RtLog
end Log
end DtCore
