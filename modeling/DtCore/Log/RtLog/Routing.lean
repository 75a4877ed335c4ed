import DtCore.Log.RtLog.Named
import DtCore.Log.RtLog.Handed

/-!
# The loggers of named messages

The name of a `LOG_U` message crosses the queue in an array of 64 bytes, in which no
name means the default logger and `CONT_ENTRY_MARKER` in front a continuation.  This
file says which logger every message of a sequence of calls is handed to.

Main definitions:

- `Call`: the three kinds of logging calls.
- `Call.asked`: the logger call that a logging call asks for.

Main results:

- Theorem `loggerCalls_flushAll`: the drain thread makes one logger call for each
  entry that is no continuation, in the order of the queue.
- Theorem `named_messages_routed_iff`: when every message goes to the logger of its name.
- Theorem `long_name_misrouted`: a name of 64 bytes.
-/

namespace DtCore
namespace Log
namespace RtLog

open Foundation

/-! ## Logger calls -/

/-- A message handed to a logger. -/
structure LoggerCall where
  logger : Target
  time : Int
  level : LogLevel
  text : List UInt8
deriving DecidableEq

/-- The message of a piece that is no continuation line. -/
def Piece.loggerCall : Piece UInt8 → Option LoggerCall
  | .line _ => none
  | .entry target time level text =>
      some { logger := target, time := time, level := level, text := text }

/-- The messages other than continuation lines that were handed to loggers. -/
def Drain.loggerCalls (d : Drain UInt8) : List LoggerCall :=
  d.events.filterMap (fun ev => ev.piece.loggerCall)

/-- The logger call for an entry; a continuation goes to the buffer instead. -/
def Entry.loggerCall (env : Spdlog) (timebase : TimeBase) (e : Entry UInt8) :
    Option LoggerCall :=
  if e.isCont then none
  else
    some
      { logger := e.target env
        time := timebase.toWall_ns e.timeStamp_ns
        level := e.level
        text := e.msg }

theorem filterMap_linePieces (lines : List (List UInt8)) :
    (linePieces lines).filterMap Piece.loggerCall = [] := by
  induction lines with
  | nil => rfl
  | cons line lines ih => exact ih

theorem Emits.loggerCalls {env : Spdlog} {d d' : Drain UInt8} {ps : List (Piece UInt8)}
    (h : Emits env d d' ps) : d'.loggerCalls = d.loggerCalls ++ ps.filterMap Piece.loggerCall := by
  rcases h.events with ⟨new, hnew, hps, -⟩
  unfold Drain.loggerCalls
  rw [hnew, List.filterMap_append, ← hps, List.filterMap_map]
  rfl

/-- `FlushEntry` makes the logger call of its entry. -/
theorem loggerCalls_flushEntry (env : Spdlog) {d : Drain UInt8}
    (hlogger : d.logger.isSome = true) (hroom : d.contBuf.length ≤ contBufSize)
    (e : Entry UInt8) :
    (d.flushEntry env e).loggerCalls =
      d.loggerCalls ++ (e.loggerCall env d.timebase).toList := by
  unfold Entry.loggerCall
  by_cases hcont : e.isCont = true
  · rw [(flushEntry_cont env hlogger hroom hcont).2.loggerCalls, filterMap_linePieces,
      if_pos hcont]
    rfl
  · rw [(flushEntry_regular env hlogger hroom hcont).2.loggerCalls, List.filterMap_append,
      filterMap_linePieces, if_neg hcont]
    rfl

/-- The default logger and the room in the buffer stay. -/
theorem flushEntry_ready (env : Spdlog) {d : Drain UInt8} (hlogger : d.logger.isSome = true)
    (hroom : d.contBuf.length ≤ contBufSize) (e : Entry UInt8) :
    (d.flushEntry env e).logger.isSome = true ∧
      (d.flushEntry env e).contBuf.length ≤ contBufSize ∧
      (d.flushEntry env e).timebase = d.timebase := by
  rcases flushEntry_emits env hlogger hroom e with ⟨ps, hemit⟩
  constructor
  · exact hemit.logger.trans hlogger
  · constructor
    · rw [flushEntry_contBuf env hlogger hroom e]
      exact length_heldAfter hroom e
    · exact hemit.timebase

theorem flushAll_ready (env : Spdlog) {d : Drain UInt8} (hlogger : d.logger.isSome = true)
    (hroom : d.contBuf.length ≤ contBufSize) (es : List (Entry UInt8)) :
    (d.flushAll env es).logger.isSome = true ∧
      (d.flushAll env es).contBuf.length ≤ contBufSize := by
  induction es generalizing d with
  | nil => exact ⟨hlogger, hroom⟩
  | cons e es ih =>
      have hready := flushEntry_ready env hlogger hroom e
      exact ih hready.1 hready.2.1

/-- The drain thread makes one logger call for each entry that is no continuation, in
the order of the queue. -/
theorem loggerCalls_flushAll (env : Spdlog) {d : Drain UInt8}
    (hlogger : d.logger.isSome = true) (hroom : d.contBuf.length ≤ contBufSize)
    (es : List (Entry UInt8)) :
    (d.flushAll env es).loggerCalls =
      d.loggerCalls ++ es.filterMap (Entry.loggerCall env d.timebase) := by
  induction es generalizing d with
  | nil => exact (List.append_nil _).symm
  | cons e es ih =>
      rcases flushEntry_ready env hlogger hroom e with ⟨hlogger', hroom', htime⟩
      have hrest := ih hlogger' hroom'
      show ((d.flushEntry env e).flushAll env es).loggerCalls = _
      rw [hrest, loggerCalls_flushEntry env hlogger hroom, htime, List.append_assoc]
      cases hcall : e.loggerCall env d.timebase with
      | none => rw [List.filterMap_cons_none hcall, Option.toList_none, List.nil_append]
      | some call =>
          rw [List.filterMap_cons_some hcall, Option.toList_some, List.singleton_append]

/-! ## Logging calls -/

/-- A logging call; `now` is the time that it takes. -/
inductive Call where
  | logU (logName : List UInt8) (lvl : LogLevel) (now : Int) (body : Body)
  | logRt (lvl : LogLevel) (now : Int) (text : List UInt8)
  | logRtCont (lvl : LogLevel) (now : Int) (msg : List UInt8)

/-- The entry that a call pushes. -/
def Call.entry (g : Gate) : Call → Option (Entry UInt8)
  | .logU logName lvl now body => g.logU logName lvl now body
  | .logRt lvl now text => g.logRt lvl now text
  | .logRtCont lvl now msg => g.logRtCont lvl now msg

/-- The logger that a call names: `LOG_U` the one of the full name, `LOG` the default
one. -/
def Call.logger : Call → Option Target
  | .logU logName _ _ _ => some (.named logName)
  | .logRt _ _ _ => some .default
  | .logRtCont _ _ _ => none

/-- The logger call that a logging call asks for. -/
def Call.asked (g : Gate) (timebase : TimeBase) (c : Call) : Option LoggerCall :=
  (c.entry g).bind (fun e =>
    c.logger.map (fun target =>
      { logger := target
        time := timebase.toWall_ns e.timeStamp_ns
        level := e.level
        text := e.msg }))

/-- The logger call that a logging call leads to. -/
def Call.made (env : Spdlog) (g : Gate) (timebase : TimeBase) (c : Call) : Option LoggerCall :=
  (c.entry g).bind (Entry.loggerCall env timebase)

/-- A name that is found again behind the queue. -/
def Routable (env : Spdlog) (logName : List UInt8) : Prop :=
  env.registered logName = true ∧ 1 ≤ logName.length ∧ logName.length ≤ 63 ∧
    logName.head? ≠ some contEntryMarker

theorem head?_copyName (name : List UInt8) : (copyName name).head? = name.head? := by
  cases name with
  | nil => rfl
  | cons b name => rfl

/-- The entry of a `LOG_U` call goes to the logger of its full name exactly when the name
is routable. -/
theorem loggerCall_named_iff (env : Spdlog) (timebase : TimeBase) {e : Entry UInt8}
    {logName : List UInt8} (he : e.loggerName = copyName logName) :
    e.loggerCall env timebase =
        some
          { logger := .named logName
            time := timebase.toWall_ns e.timeStamp_ns
            level := e.level
            text := e.msg } ↔ Routable env logName := by
  have hcont : e.isCont = true ↔ logName.head? = some contEntryMarker := by
    unfold Entry.isCont
    rw [he, head?_copyName]
    exact beq_iff_eq
  unfold Entry.loggerCall Routable
  constructor
  · intro hcall
    by_cases hc : e.isCont = true
    · rw [if_pos hc] at hcall
      contradiction
    · rw [if_neg hc] at hcall
      have htarget : e.target env = .named logName := by
        injection hcall with hcall
        exact congrArg LoggerCall.logger hcall
      unfold Entry.target at htarget
      split at htarget
      · rename_i hfound
        injection htarget with hname
        rw [he] at hname
        rw [he, hname] at hfound
        have hlen := copyName_eq_self.mp hname
        constructor
        · exact hfound.2
        · constructor
          · exact List.length_pos_iff.mpr hfound.1
          · exact ⟨Nat.le_of_lt_succ hlen, mt hcont.mpr hc⟩
      · contradiction
  · intro h
    have hname : copyName logName = logName := copyName_eq_self.mpr (Nat.lt_succ_of_le h.2.2.1)
    have hfound : e.loggerName ≠ [] ∧ env.registered e.loggerName = true := by
      rw [he, hname]
      exact ⟨List.length_pos_iff.mp h.2.1, h.1⟩
    have htarget : e.target env = .named logName := by
      unfold Entry.target
      rw [if_pos hfound, he, hname]
    rw [if_neg (mt hcont.mp h.2.2.2), htarget]

/-- A call that asks for nothing leads to nothing. -/
theorem made_of_asked_none (env : Spdlog) (g : Gate) (timebase : TimeBase) (c : Call)
    (h : c.asked g timebase = none) : c.made env g timebase = none := by
  unfold Call.asked at h
  unfold Call.made
  cases c with
  | logU logName lvl now body =>
      cases hentry : Call.entry g (.logU logName lvl now body) with
      | none => rfl
      | some e =>
          rw [hentry] at h
          contradiction
  | logRt lvl now text =>
      cases hentry : Call.entry g (.logRt lvl now text) with
      | none => rfl
      | some e =>
          rw [hentry] at h
          contradiction
  | logRtCont lvl now msg =>
      simp only [Call.entry, Gate.logRtCont]
      split
      · rfl
      · rfl

/-- A call leads to what it asks for, unless it is a `LOG_U` that passes the checks with
a name that is not routable. -/
theorem made_eq_asked_iff (env : Spdlog) (g : Gate) (timebase : TimeBase) (c : Call) :
    c.made env g timebase = c.asked g timebase ↔
      ∀ logName lvl now body, c = .logU logName lvl now body →
        (g.logU logName lvl now body).isSome = true → Routable env logName := by
  cases c with
  | logU logName lvl now body =>
      cases hentry : Call.entry g (.logU logName lvl now body) with
      | none =>
          have hmade : (Call.logU logName lvl now body).made env g timebase = none := by
            unfold Call.made
            rw [hentry]
            rfl
          have hasked : (Call.logU logName lvl now body).asked g timebase = none := by
            unfold Call.asked
            rw [hentry]
            rfl
          rw [hmade, hasked]
          constructor
          · intro _ logName' lvl' now' body' heq hsome
            cases heq
            rw [show g.logU logName lvl now body = none from hentry] at hsome
            contradiction
          · exact fun _ => rfl
      | some e =>
          have hname : e.loggerName = copyName logName := by
            rw [Call.entry, logU_eq] at hentry
            split at hentry
            · rcases Option.map_eq_some_iff.mp hentry with ⟨text, -, rfl⟩
              rfl
            · contradiction
          have hmade : (Call.logU logName lvl now body).made env g timebase =
              e.loggerCall env timebase := by
            unfold Call.made
            rw [hentry]
            rfl
          have hasked : (Call.logU logName lvl now body).asked g timebase =
              some
                { logger := .named logName
                  time := timebase.toWall_ns e.timeStamp_ns
                  level := e.level
                  text := e.msg } := by
            unfold Call.asked
            rw [hentry]
            rfl
          rw [hmade, hasked, loggerCall_named_iff env timebase hname]
          constructor
          · intro hroute logName' lvl' now' body' heq _
            cases heq
            exact hroute
          · intro h
            have hsome : (g.logU logName lvl now body).isSome = true :=
              Option.isSome_iff_exists.mpr ⟨e, hentry⟩
            exact h logName lvl now body rfl hsome
  | logRt lvl now text =>
      apply iff_of_true
      · simp only [Call.made, Call.asked, Call.entry, Gate.logRt]
        split
        · rfl
        · rfl
      · intro logName' lvl' now' body' heq
        contradiction
  | logRtCont lvl now msg =>
      apply iff_of_true
      · simp only [Call.made, Call.asked, Call.entry, Gate.logRtCont]
        split
        · rfl
        · rfl
      · intro logName' lvl' now' body' heq
        contradiction

/-! ## All calls -/

/-- Where one partial function is defined at most where another one is, they collect the
same list exactly when they agree. -/
theorem filterMap_eq_filterMap_iff {α β : Type} {f w : α → Option β} {l : List α}
    (h : ∀ a ∈ l, w a = none → f a = none) :
    l.filterMap f = l.filterMap w ↔ ∀ a ∈ l, f a = w a := by
  have hlen : ∀ l' : List α, (∀ a ∈ l', w a = none → f a = none) →
      (l'.filterMap f).length ≤ (l'.filterMap w).length := by
    intro l'
    induction l' with
    | nil => exact fun _ => Nat.le_refl 0
    | cons a l' ih =>
        intro hl'
        have hrest := ih (fun b hb => hl' b (List.mem_cons_of_mem _ hb))
        cases hw : w a with
        | none =>
            rw [List.filterMap_cons_none hw, List.filterMap_cons_none (hl' a List.mem_cons_self hw)]
            exact hrest
        | some b =>
            rw [List.filterMap_cons_some hw, List.length_cons]
            cases hf : f a with
            | none =>
                rw [List.filterMap_cons_none hf]
                exact Nat.le_succ_of_le hrest
            | some b' =>
                rw [List.filterMap_cons_some hf, List.length_cons]
                exact Nat.succ_le_succ hrest
  constructor
  · induction l with
    | nil => exact fun _ a ha => absurd ha List.not_mem_nil
    | cons a l ih =>
        intro heq
        have hl : ∀ b ∈ l, w b = none → f b = none :=
          fun b hb => h b (List.mem_cons_of_mem _ hb)
        have hhead : f a = w a ∧ l.filterMap f = l.filterMap w := by
          cases hw : w a with
          | none =>
              have hf := h a List.mem_cons_self hw
              rw [List.filterMap_cons_none hw, List.filterMap_cons_none hf] at heq
              exact ⟨hf, heq⟩
          | some b =>
              rw [List.filterMap_cons_some hw] at heq
              cases hf : f a with
              | none =>
                  rw [List.filterMap_cons_none hf] at heq
                  have := hlen l hl
                  rw [heq, List.length_cons] at this
                  omega
              | some b' =>
                  rw [List.filterMap_cons_some hf] at heq
                  injection heq with hb hrest
                  exact ⟨congrArg some hb, hrest⟩
        intro b hb
        rcases List.mem_cons.mp hb with rfl | hb
        · exact hhead.1
        · exact ih hl hhead.2 b hb
  · exact List.filterMap_congr

/-- For every set of registered names and every sequence of calls whose entries pass the
queue: the loggers get the messages in the order of the queue, each message that is no
continuation in one call; and each message goes to the logger that its call names exactly
when every `LOG_U` call that passes the checks has the name of a registered logger, of 1
to 63 bytes and without the marker of continuations in front. -/
theorem named_messages_routed_iff (env : Spdlog) (g : Gate) (pattern : String)
    (timebase : TimeBase) (contLevel : LogLevel) (cs : List Call) :
    let d := (Drain.initialized pattern timebase contLevel).flushAll env
      (cs.filterMap (Call.entry g))
    d.loggerCalls = cs.filterMap (Call.made env g timebase) ∧
      (d.loggerCalls = cs.filterMap (Call.asked g timebase) ↔
        ∀ logName lvl now body, Call.logU logName lvl now body ∈ cs →
          (g.logU logName lvl now body).isSome = true → Routable env logName) := by
  intro d
  have hmade : d.loggerCalls = cs.filterMap (Call.made env g timebase) := by
    have hflush := loggerCalls_flushAll env (d := Drain.initialized pattern timebase contLevel)
      rfl (Nat.zero_le _) (cs.filterMap (Call.entry g))
    rw [List.filterMap_filterMap] at hflush
    exact hflush
  constructor
  · exact hmade
  · rw [hmade, filterMap_eq_filterMap_iff (fun c _ => made_of_asked_none env g timebase c)]
    constructor
    · intro h logName lvl now body hmem hsome
      exact (made_eq_asked_iff env g timebase _).mp (h _ hmem) logName lvl now body rfl hsome
    · intro h c hmem
      apply (made_eq_asked_iff env g timebase c).mpr
      intro logName lvl now body heq hsome
      rw [heq] at hmem
      exact h logName lvl now body hmem hsome

/-- A name of 64 letters. -/
def longName : List UInt8 :=
  List.replicate 64 97

/-- Loggers of which one has the long name. -/
def longNameSpdlog : Spdlog where
  registered name := name == longName
  lineFault _ := .none
  entryThrows _ := false

/-- A message for the logger with the long name is handed to the default logger. -/
theorem long_name_misrouted :
    let g : Gate := { initialized := true, level := 0 }
    let timebase : TimeBase := { wall_ns := 0, monotonic_ns := 0 }
    let c : Call := .logU longName .info 0 (.stream [[104, 105]])
    let d := (Drain.initialized "%v" timebase .info).flushAll longNameSpdlog
      ([c].filterMap (Call.entry g))
    d.loggerCalls = [{ logger := .default, time := 0, level := .info, text := [104, 105] }] ∧
      [c].filterMap (Call.asked g timebase) =
        [{ logger := .named longName, time := 0, level := .info, text := [104, 105] }] := by
  intro g timebase c d
  constructor
  · have hflush := loggerCalls_flushAll longNameSpdlog
      (d := Drain.initialized "%v" timebase .info) rfl (Nat.zero_le _)
      ([c].filterMap (Call.entry g))
    rw [hflush]
    decide
  · decide

end RtLog
end Log
end DtCore
