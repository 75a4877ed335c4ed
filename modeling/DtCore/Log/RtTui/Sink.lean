import DtCore.Foundation.StepSystem
import DtCore.Log.RtTui.Window
import DtCore.Log.RtLog.Handed
import DtCore.Log.RtLog.Named

/-!
# Messages on their way to the user interface

In the mode with a user interface the default logger writes to `TuiSinkT`, whose
messages wait in the queue of `RtTui` for the next `Tick`.  The drain thread empties
the queue of the logger in every `Poll`, but calls `Tick` only at 25 Hz.  `TryPush` into
a full queue fails, and `LogV` ignores its result.

A call of the drain thread on one entry, `FlushEntry`, is one step: nobody else uses the
two queues' reading ends.  What spdlog does with a logger call is a parameter: the text
and the colour range that the formatter makes of it, if the call gets to `TuiSinkT` at
all.  `bursts` and `burst` record the formatted messages, grouped by the `Tick`s, and
`refused` the entries that `Enqueue` dropped; no step reads them.

Main definitions:

- `State.sinkIt`: `TuiSinkT::sink_it_`.
- `pathStep`: the steps of the logging threads and of the drain thread.

Main results:

- Theorem `PathInv.step`: of each burst the first 1024 messages are taken.
- Theorem `messages_counted_iff`: when no message is lost uncounted.
- Theorem `message_lost_uncounted`: a burst of 1025 messages.
-/

namespace DtCore
namespace Log
namespace RtTui

open Foundation RtLog

/-! ## The sink -/

/-- A control sequence. -/
def ansi (code : String) : Bytes :=
  esc :: ascii code

/-- `SinkColorFor`. -/
def sinkColorFor : LogLevel → Bytes
  | .trace => ansi "[37m"
  | .debug => ansi "[36m"
  | .info => ansi "[32m"
  | .warn => ansi "[33m" ++ ansi "[1m"
  | .err => ansi "[31m" ++ ansi "[1m"
  | .critical => ansi "[1m" ++ ansi "[41m"
  | .off => []

/-- What the formatter makes of a message. -/
structure Formatted where
  buf : Bytes
  colorRangeStart : Nat
  colorRangeEnd : Nat

/-- `safe_copy` behind the bytes that are in `tmp` already. -/
def safeCopy (tmp src : Bytes) : Bytes :=
  tmp ++ src.take (queueMsgLen - 1 - tmp.length)

/-- The number of formatted bytes without a newline at the end. -/
def Formatted.size (m : Formatted) : Nat :=
  if m.buf.getLast? = some 10 then m.buf.length - 1 else m.buf.length

/-- The text that `sink_it_` passes to `Log`. -/
def sinkText (level : LogLevel) (m : Formatted) : Bytes :=
  let sz := m.size
  let color := sinkColorFor level
  let start := m.colorRangeStart
  let stop := m.colorRangeEnd
  if color ≠ [] ∧ stop > start ∧ stop ≤ sz then
    let before := safeCopy [] (m.buf.take start)
    let coloured := safeCopy (safeCopy before color) ((m.buf.drop start).take (stop - start))
    let reset := safeCopy coloured (ansi "[m")
    cString (safeCopy reset ((m.buf.drop stop).take (sz - stop)))
  else cString (m.buf.take sz)

/-- `sink_it_` with what the formatter made of the message. -/
def State.sinkIt (level : LogLevel) (m : Formatted) (s : State) : State :=
  s.logV level (sinkText level m)

/-- The level of a logger call. -/
def eventLevel : Event UInt8 → LogLevel
  | .line level _ _ => level
  | .entry _ _ level _ _ => level

/-! ## The drain thread -/

/-- A message that `TuiSinkT` formatted, whether `TryPush` took it, and whether the try
block of its logger call was counted in `m_dropCount`. -/
structure Message where
  entry : TuiLogEntry
  taken : Bool
  counted : Bool

/-- The two queues and what is between them. -/
structure Path where
  queue : List (Entry UInt8)
  drain : Drain UInt8
  tui : State
  draining : Bool
  refused : Nat
  bursts : List (List Message)
  burst : List Message

/-- `QUEUE_CAPACITY`. -/
def rtQueueCapacity : Nat := 1024

/-- `Enqueue`. -/
def Path.enqueue (s : Path) (e : Entry UInt8) : Path :=
  if s.queue.length < rtQueueCapacity then { s with queue := s.queue ++ [e] }
  else
    { s with
      drain := { s.drain with dropCount := s.drain.dropCount + 1 }
      refused := s.refused + 1 }

/-- A logger call: `TuiSinkT` gets what the formatter makes of it. -/
def Path.call (format : Nat → Event UInt8 → Option Formatted) (s : Path)
    (ev : Event UInt8 × Nat) : Path :=
  match format ev.2 ev.1 with
  | none => s
  | some m =>
      let entry := tuiLogEntry (eventLevel ev.1) (sinkText (eventLevel ev.1) m)
      { s with
        tui := s.tui.sinkIt (eventLevel ev.1) m
        burst := s.burst ++
          [{ entry := entry, taken := (s.tui.tryPush entry).1, counted := ev.1.counted }] }

/-- `FlushEntry` with its logger calls. -/
def Path.flushEntry (env : Spdlog) (format : Nat → Event UInt8 → Option Formatted)
    (s : Path) (e : Entry UInt8) : Path :=
  let drain := s.drain.flushEntry env e
  ((s.drain.newEvents drain).zipIdx s.drain.events.length).foldl (Path.call format)
    { s with drain := drain }

/-- `Tick`, which ends a burst when the user interface is running. -/
def Path.tick (s : Path) (i : TickInput) : Path :=
  { s with
    tui := s.tui.tick i
    bursts := if s.tui.running then s.bursts ++ [s.burst] else s.bursts
    burst := if s.tui.running then [] else s.burst }

/-- The calls that update what the user interface shows beside the log. -/
def Op.isUpdate : Op → Bool
  | .setLayoutName _ _ => true
  | .setGroup _ _ _ _ => true
  | .setGroupNoHeader _ _ => true
  | .setRowCols _ _ _ _ _ => true
  | .setTextRow _ _ _ _ _ => true
  | .logV _ _ => false
  | .popPendingKey => true
  | .tick _ => false
  | .stop => false

/-- A logging thread pushes, the loop of `DrainAll` pops or ends, `Poll` goes on with or
without a `Tick`, and any thread updates the user interface. -/
inductive PathLabel where
  | enqueue (e : Entry UInt8)
  | pop
  | drained
  | poll (tick : Option TickInput)
  | update (o : Op)

/-- The steps; `TryPop` can also fail when the next entry is not published yet. -/
def pathStep (env : Spdlog) (format : Nat → Event UInt8 → Option Formatted) (s : Path) :
    PathLabel → Option Path
  | .enqueue e => some (s.enqueue e)
  | .pop =>
      match s.draining, s.queue with
      | true, e :: queue => some (Path.flushEntry env format { s with queue := queue } e)
      | _, _ => none
  | .drained => if s.draining then some { s with draining := false } else none
  | .poll tick =>
      if s.draining then none
      else
        match tick with
        | some i => some { s.tick i with draining := true }
        | none => some { s with draining := true }
  | .update o => if o.isUpdate then some { s with tui := s.tui.op o } else none

/-- After `Initialize` with a user interface. -/
def Path.initial (pattern : String) (timebase : TimeBase) (contLevel : LogLevel) : Path where
  queue := []
  drain := Drain.initialized pattern timebase contLevel
  tui := State.init
  draining := true
  refused := 0
  bursts := []
  burst := []

/-- The messages formatted between two `Tick`s, for all `Tick`s so far and since the
last one. -/
def Path.allBursts (s : Path) : List (List Message) :=
  s.bursts ++ [s.burst]

/-- All formatted messages. -/
def Path.formatted (s : Path) : List Message :=
  s.allBursts.flatten

/-! ## The queue of the user interface -/

/-- The two states agree on the messages and on whether the user interface runs. -/
structure SameQueue (s t : State) : Prop where
  logQueue : t.logQueue = s.logQueue
  popped : t.popped = s.popped
  running : t.running = s.running

theorem SameQueue.trans {s t u : State} (h : SameQueue s t) (h' : SameQueue t u) :
    SameQueue s u where
  logQueue := h'.logQueue.trans h.logQueue
  popped := h'.popped.trans h.popped
  running := h'.running.trans h.running

theorem sameQueue_updateLayout (i : Nat) (f : TuiLayoutData → TuiLayoutData) (s : State) :
    SameQueue s (s.updateLayout i f) :=
  ⟨rfl, rfl, rfl⟩

theorem sameQueue_updateRow (layoutIdx groupIdx rowIdx : Int) (f : TuiDataRow → TuiDataRow)
    (s : State) : SameQueue s (s.updateRow layoutIdx groupIdx rowIdx f) := by
  unfold State.updateRow
  split
  · exact sameQueue_updateLayout _ _ s
  · exact ⟨rfl, rfl, rfl⟩

/-- Updates leave the log alone. -/
theorem sameQueue_update {o : Op} (h : o.isUpdate = true) (s : State) : SameQueue s (s.op o) := by
  cases o with
  | setLayoutName layoutIdx name =>
      show SameQueue s (s.setLayoutName layoutIdx name)
      unfold State.setLayoutName
      split
      · exact ⟨rfl, rfl, rfl⟩
      · split
        · exact sameQueue_updateLayout _ _ s
        · exact ⟨rfl, rfl, rfl⟩
  | setGroup layoutIdx groupIdx labelHdr colHdrs =>
      show SameQueue s (s.setGroup layoutIdx groupIdx labelHdr colHdrs)
      unfold State.setGroup
      split
      · exact sameQueue_updateLayout _ _ s
      · exact ⟨rfl, rfl, rfl⟩
  | setGroupNoHeader layoutIdx groupIdx =>
      show SameQueue s (s.setGroupNoHeader layoutIdx groupIdx)
      unfold State.setGroupNoHeader
      split
      · exact sameQueue_updateLayout _ _ s
      · exact ⟨rfl, rfl, rfl⟩
  | setRowCols layoutIdx groupIdx rowIdx label values => exact sameQueue_updateRow _ _ _ _ s
  | setTextRow layoutIdx groupIdx rowIdx label text => exact sameQueue_updateRow _ _ _ _ s
  | logV level text => contradiction
  | popPendingKey => exact ⟨rfl, rfl, rfl⟩
  | tick i => contradiction
  | stop => contradiction

theorem sameQueue_handleKey (buf : Bytes) (s : State) : SameQueue s (s.handleKey buf) := by
  rcases handleKey_cases buf s with ⟨_, _, h⟩ | ⟨_, h⟩ | ⟨_, h⟩
  · rw [h]
    exact ⟨rfl, rfl, rfl⟩
  · rw [h]
    exact ⟨rfl, rfl, rfl⟩
  · rw [h]
    exact ⟨rfl, rfl, rfl⟩

theorem sameQueue_handleKeys (skip : Nat) (buf : Bytes) (s : State) :
    SameQueue s (s.handleKeys skip buf) :=
  handleKeys_keeps (fun t buf h => h.trans (sameQueue_handleKey buf t)) skip buf
    ⟨rfl, rfl, rfl⟩

/-- The drain loop takes every message. -/
theorem drainLog_queue (s : State) :
    s.drainLog.logQueue = [] ∧ s.drainLog.popped = s.popped ++ s.logQueue ∧
      s.drainLog.running = s.running := by
  have hloop : ∀ (es : List TuiLogEntry) (t : State),
      (es.foldl State.keepEntry t).logQueue = t.logQueue ∧
        (es.foldl State.keepEntry t).popped = t.popped ++ es ∧
        (es.foldl State.keepEntry t).running = t.running := by
    intro es
    induction es with
    | nil => exact fun t => ⟨rfl, (List.append_nil _).symm, rfl⟩
    | cons e es ih =>
        intro t
        have hrest := ih (t.keepEntry e)
        have hpopped : (t.keepEntry e).popped ++ es = t.popped ++ e :: es :=
          List.append_assoc t.popped [e] es
        exact ⟨hrest.1, hrest.2.1.trans hpopped, hrest.2.2⟩
  exact hloop s.logQueue { s with logQueue := [] }

/-- A running `Tick` empties the queue. -/
theorem tick_queue {s : State} (h : s.running = true) (i : TickInput) :
    (s.tick i).logQueue = [] ∧ (s.tick i).popped = s.popped ++ s.logQueue ∧
      (s.tick i).running = true := by
  have hdrain := drainLog_queue s
  have hkeys := sameQueue_handleKeys 0 (i.keys.take keyBufLen) s.drainLog
  have hafter : SameQueue s.drainLog (s.beforeRender i).swapArea1 :=
    hkeys.trans ⟨rfl, rfl, rfl⟩
  unfold State.tick
  rw [if_pos h]
  constructor
  · exact hafter.logQueue.trans hdrain.1
  · constructor
    · exact hafter.popped.trans hdrain.2.1
    · exact hafter.running.trans (hdrain.2.2.trans h)

/-! ## Bursts -/

/-- `TryPush` took the first messages of a burst, as many as the queue holds. -/
structure Marked (b : List Message) : Prop where
  taken : ∀ m ∈ b.take queueCapacity, m.taken = true
  lost : ∀ m ∈ b.drop queueCapacity, m.taken = false

theorem marked_nil : Marked [] where
  taken := by simp
  lost := by simp

theorem Marked.append {b : List Message} (h : Marked b) {m : Message}
    (hm : m.taken = decide (b.length < queueCapacity)) : Marked (b ++ [m]) := by
  by_cases hlt : b.length < queueCapacity
  · have hlen : (b ++ [m]).length ≤ queueCapacity := by
      rw [List.length_append]
      exact hlt
    constructor
    · intro m' hmem
      rw [List.take_of_length_le hlen] at hmem
      rcases List.mem_append.mp hmem with hmem | hmem
      · apply h.taken
        rw [List.take_of_length_le hlt.le]
        exact hmem
      · rw [List.mem_singleton.mp hmem, hm]
        exact decide_eq_true hlt
    · intro m' hmem
      rw [List.drop_of_length_le hlen] at hmem
      contradiction
  · have hle : queueCapacity ≤ b.length := Nat.not_lt.mp hlt
    constructor
    · intro m' hmem
      rw [List.take_append_of_le_length hle] at hmem
      exact h.taken m' hmem
    · intro m' hmem
      rw [List.drop_append_of_le_length hle] at hmem
      rcases List.mem_append.mp hmem with hmem | hmem
      · exact h.lost m' hmem
      · rw [List.mem_singleton.mp hmem, hm]
        exact decide_eq_false hlt

/-- The messages of a burst that were taken. -/
theorem Marked.filter {b : List Message} (h : Marked b) :
    b.filter Message.taken = b.take queueCapacity := by
  have hsplit : b = b.take queueCapacity ++ b.drop queueCapacity :=
    (List.take_append_drop _ b).symm
  have htaken : (b.take queueCapacity).filter Message.taken = b.take queueCapacity :=
    List.filter_eq_self.mpr h.taken
  have hlost : (b.drop queueCapacity).filter Message.taken = [] := by
    apply List.filter_eq_nil_iff.mpr
    intro m hmem
    rw [h.lost m hmem]
    exact Bool.false_ne_true
  calc b.filter Message.taken
      = (b.take queueCapacity ++ b.drop queueCapacity).filter Message.taken := by rw [← hsplit]
    _ = b.take queueCapacity := by rw [List.filter_append, htaken, hlost, List.append_nil]

/-! ## The invariant -/

/-- Of each burst the first messages were taken: those of earlier bursts are in the
history, those of the last one wait. -/
structure PathInv (s : Path) : Prop where
  running : s.tui.running = true
  waiting : s.tui.logQueue = (s.burst.take queueCapacity).map Message.entry
  popped : s.tui.popped = (s.bursts.flatMap (List.take queueCapacity)).map Message.entry
  marked : ∀ b ∈ s.allBursts, Marked b
  logger : s.drain.logger.isSome = true
  room : s.drain.contBuf.length ≤ contBufSize
  drops : s.drain.dropCount = s.refused + s.drain.events.countP Event.counted

theorem initial_pathInv (pattern : String) (timebase : TimeBase) (contLevel : LogLevel) :
    PathInv (Path.initial pattern timebase contLevel) where
  running := rfl
  waiting := rfl
  popped := rfl
  marked := by
    intro b hb
    rw [List.mem_singleton.mp hb]
    exact marked_nil
  logger := rfl
  room := Nat.zero_le _
  drops := rfl

theorem PathInv.enqueue {s : Path} (h : PathInv s) (e : Entry UInt8) :
    PathInv (s.enqueue e) := by
  unfold Path.enqueue
  split
  · exact ⟨h.running, h.waiting, h.popped, h.marked, h.logger, h.room, h.drops⟩
  · constructor
    · exact h.running
    · exact h.waiting
    · exact h.popped
    · exact h.marked
    · exact h.logger
    · exact h.room
    · show s.drain.dropCount + 1 = s.refused + 1 + s.drain.events.countP Event.counted
      rw [h.drops]
      omega

/-- A logger call adds a message to the burst at most; it is taken if there is room. -/
theorem PathInv.call {s : Path} (h : PathInv s)
    (format : Nat → Event UInt8 → Option Formatted) (ev : Event UInt8 × Nat) :
    PathInv (s.call format ev) := by
  unfold Path.call
  split
  · exact h
  · rename_i m _
    have hlen : s.tui.logQueue.length = min queueCapacity s.burst.length := by
      rw [h.waiting, List.length_map, List.length_take]
    have hroom : s.tui.logQueue.length < queueCapacity ↔ s.burst.length < queueCapacity := by
      rw [hlen]
      omega
    generalize hentry : tuiLogEntry (eventLevel ev.1) (sinkText (eventLevel ev.1) m) = entry
    have hsink : s.tui.sinkIt (eventLevel ev.1) m = (s.tui.tryPush entry).2 := by
      rw [← hentry]
      rfl
    have hpush : (s.tui.tryPush entry).1 = decide (s.burst.length < queueCapacity) ∧
        (s.tui.tryPush entry).2.running = true ∧
        (s.tui.tryPush entry).2.popped = s.tui.popped ∧
        (s.tui.tryPush entry).2.logQueue =
          if s.burst.length < queueCapacity then s.tui.logQueue ++ [entry]
          else s.tui.logQueue := by
      unfold State.tryPush
      by_cases hlt : s.burst.length < queueCapacity
      · rw [if_pos (hroom.mpr hlt), if_pos hlt]
        exact ⟨(decide_eq_true hlt).symm, h.running, rfl, rfl⟩
      · rw [if_neg (mt hroom.mp hlt), if_neg hlt]
        exact ⟨(decide_eq_false hlt).symm, h.running, rfl, rfl⟩
    dsimp only
    rw [hsink]
    rcases hpush with ⟨hmark, hrunning, hpopped, hqueue⟩
    constructor
    · exact hrunning
    · show (s.tui.tryPush entry).2.logQueue =
        ((s.burst ++ [_]).take queueCapacity).map Message.entry
      rw [hqueue, h.waiting]
      split
      · rename_i hlt
        have hle : ∀ x : Message, (s.burst ++ [x]).length ≤ queueCapacity := by
          intro x
          rw [List.length_append]
          exact hlt
        rw [List.take_of_length_le (hle _), List.take_of_length_le hlt.le, List.map_append]
        rfl
      · rename_i hge
        rw [List.take_append_of_le_length (Nat.not_lt.mp hge)]
    · exact hpopped.trans h.popped
    · intro b hb
      rcases List.mem_append.mp hb with hb | hb
      · exact h.marked b (List.mem_append_left _ hb)
      · rw [List.mem_singleton.mp hb]
        apply Marked.append
        · exact h.marked s.burst (List.mem_append_right _ List.mem_cons_self)
        · exact hmark
    · exact h.logger
    · exact h.room
    · exact h.drops

theorem PathInv.flushEntry {s : Path} (h : PathInv s) (env : Spdlog)
    (format : Nat → Event UInt8 → Option Formatted) (e : Entry UInt8) :
    PathInv (s.flushEntry env format e) := by
  have hcalls : ∀ (evs : List (Event UInt8 × Nat)) (t : Path), PathInv t →
      PathInv (evs.foldl (Path.call format) t) := by
    intro evs
    induction evs with
    | nil => exact fun t ht => ht
    | cons ev evs ih => exact fun t ht => ih _ (ht.call format ev)
  apply hcalls
  rcases flushEntry_emits env h.logger h.room e with ⟨ps, hemit⟩
  constructor
  · exact h.running
  · exact h.waiting
  · exact h.popped
  · exact h.marked
  · exact hemit.logger.trans h.logger
  · show (s.drain.flushEntry env e).contBuf.length ≤ contBufSize
    rw [flushEntry_contBuf env h.logger h.room e]
    exact length_heldAfter h.room e
  · rcases hemit.events with ⟨new, hnew, -, hdrops, -⟩
    show (s.drain.flushEntry env e).dropCount =
      s.refused + (s.drain.flushEntry env e).events.countP Event.counted
    rw [hdrops, hnew, h.drops, List.countP_append, Nat.add_assoc]

/-- A `Tick` moves the waiting messages to the history. -/
theorem PathInv.tick {s : Path} (h : PathInv s) (i : TickInput) : PathInv (s.tick i) := by
  have htick := tick_queue h.running i
  unfold Path.tick
  rw [h.running]
  apply PathInv.mk
  · exact htick.2.2
  · exact htick.1
  · show (s.tui.tick i).popped =
      ((s.bursts ++ [s.burst]).flatMap (List.take queueCapacity)).map Message.entry
    rw [htick.2.1, h.popped, h.waiting, List.flatMap_append, List.map_append,
      List.flatMap_singleton]
  · intro b hb
    rcases List.mem_append.mp hb with hb | hb
    · exact h.marked b hb
    · rw [List.mem_singleton.mp hb]
      exact marked_nil
  · exact h.logger
  · exact h.room
  · exact h.drops

theorem PathInv.step {env : Spdlog} {format : Nat → Event UInt8 → Option Formatted}
    {s s' : Path} {l : PathLabel} (h : PathInv s) (hstep : pathStep env format s l = some s') :
    PathInv s' := by
  cases l with
  | enqueue e =>
      cases hstep
      exact h.enqueue e
  | pop =>
      simp only [pathStep] at hstep
      split at hstep
      · cases hstep
        apply PathInv.flushEntry
        exact ⟨h.running, h.waiting, h.popped, h.marked, h.logger, h.room, h.drops⟩
      · contradiction
  | drained =>
      simp only [pathStep] at hstep
      split at hstep
      · cases hstep
        exact ⟨h.running, h.waiting, h.popped, h.marked, h.logger, h.room, h.drops⟩
      · contradiction
  | poll tick =>
      simp only [pathStep] at hstep
      split at hstep
      · contradiction
      · split at hstep
        · rename_i i
          cases hstep
          have htick := h.tick i
          exact ⟨htick.running, htick.waiting, htick.popped, htick.marked, htick.logger,
            htick.room, htick.drops⟩
        · cases hstep
          exact ⟨h.running, h.waiting, h.popped, h.marked, h.logger, h.room, h.drops⟩
  | update o =>
      simp only [pathStep] at hstep
      split at hstep
      · rename_i hupdate
        cases hstep
        have hsame := sameQueue_update hupdate s.tui
        exact ⟨hsame.running.trans h.running, hsame.logQueue.trans h.waiting,
          hsame.popped.trans h.popped, h.marked, h.logger, h.room, h.drops⟩
      · contradiction

/-- The states of the runs of the two queues. -/
def PathReach (env : Spdlog) (format : Nat → Event UInt8 → Option Formatted)
    (pattern : String) (timebase : TimeBase) (contLevel : LogLevel) : Path → Prop :=
  Reach (pathStep env format) (fun _ _ => True) (Path.initial pattern timebase contLevel)

theorem PathInv.of_reach {env : Spdlog} {format : Nat → Event UInt8 → Option Formatted}
    {pattern : String} {timebase : TimeBase} {contLevel : LogLevel} {s : Path}
    (h : PathReach env format pattern timebase contLevel s) : PathInv s :=
  Reach.invariant (initial_pathInv pattern timebase contLevel)
    (fun _ _ _ hinv _ hstep => hinv.step hstep) h

/-- The messages that were taken are those in the history and in the queue. -/
theorem PathInv.stored {s : Path} (h : PathInv s) :
    (s.formatted.filter Message.taken).map Message.entry = s.tui.popped ++ s.tui.logQueue := by
  have hfilter : ∀ bs : List (List Message), (∀ b ∈ bs, Marked b) →
      bs.flatten.filter Message.taken = bs.flatMap (List.take queueCapacity) := by
    intro bs
    induction bs with
    | nil => exact fun _ => rfl
    | cons b bs ih =>
        intro hbs
        rw [List.flatten_cons, List.filter_append, (hbs b List.mem_cons_self).filter,
          ih (fun b' hb' => hbs b' (List.mem_cons_of_mem _ hb')), List.flatMap_cons]
  rw [Path.formatted, hfilter _ h.marked, Path.allBursts, List.flatMap_append, List.map_append,
    List.flatMap_singleton, h.popped, h.waiting]

/-- Every formatted message was taken or counted. -/
def Path.Accounted (s : Path) : Prop :=
  ∀ m ∈ s.formatted, m.taken = true ∨ m.counted = true

/-- For every run of the logging threads and the drain thread: the messages that
`TryPush` took are those that entered the history and those that wait, in their order;
the drop counter counts the refused entries and the logger calls that threw; and every
formatted message was taken or counted exactly when between two `Tick`s all messages
behind the first 1024 are counted. -/
theorem messages_counted_iff (env : Spdlog) (format : Nat → Event UInt8 → Option Formatted)
    (pattern : String) (timebase : TimeBase) (contLevel : LogLevel) {s : Path}
    (h : PathReach env format pattern timebase contLevel s) :
    (s.formatted.filter Message.taken).map Message.entry = s.tui.popped ++ s.tui.logQueue ∧
      s.drain.dropCount = s.refused + s.drain.events.countP Event.counted ∧
      (s.Accounted ↔ ∀ b ∈ s.allBursts, ∀ m ∈ b.drop 1024, m.counted = true) := by
  have hinv := PathInv.of_reach h
  constructor
  · exact hinv.stored
  · constructor
    · exact hinv.drops
    · constructor
      · intro hacc b hb m hm
        have hlost := (hinv.marked b hb).lost m hm
        rcases hacc m (List.mem_flatten.mpr ⟨b, hb, List.mem_of_mem_drop hm⟩) with ht | hc
        · rw [hlost] at ht
          contradiction
        · exact hc
      · intro hcounted m hm
        rcases List.mem_flatten.mp hm with ⟨b, hb, hmb⟩
        rw [← List.take_append_drop queueCapacity b] at hmb
        rcases List.mem_append.mp hmb with hmb | hmb
        · exact Or.inl ((hinv.marked b hb).taken m hmb)
        · exact Or.inr (hcounted b hb m hmb)

/-! ## A burst -/

/-- The formatter of the pattern `%v`. -/
def plainFormat (_ : Nat) : Event UInt8 → Option Formatted
  | .line _ text _ => some { buf := text ++ [10], colorRangeStart := 0, colorRangeEnd := 0 }
  | .entry _ _ _ text _ => some { buf := text ++ [10], colorRangeStart := 0, colorRangeEnd := 0 }

/-- A message of a real-time task. -/
def burstEntry : Entry UInt8 where
  timeStamp_ns := 0
  level := .info
  msg := ascii "hi"
  loggerName := []

/-- The states of a run with the pattern `%v`. -/
abbrev PlainReach : Path → Prop :=
  PathReach quietSpdlog plainFormat "%v" { wall_ns := 0, monotonic_ns := 0 } .info

/-- After a burst of `n` messages since the start, each drained at once. -/
structure InBurst (n : Nat) (s : Path) : Prop where
  queue : s.queue = []
  draining : s.draining = true
  logger : s.drain.logger = some "%v"
  contBuf : s.drain.contBuf = []
  dropCount : s.drain.dropCount = 0
  bursts : s.bursts = []
  length : s.burst.length = n
  uncounted : ∀ m ∈ s.burst, m.counted = false

/-- `FlushEntry` hands the message to the default logger. -/
theorem flushEntry_burstEntry {d : Drain UInt8} (hlogger : d.logger = some "%v")
    (hbuf : d.contBuf = []) :
    d.flushEntry quietSpdlog burstEntry =
      { d with
        entryCalls := d.entryCalls + 1
        events := d.events ++
          [.entry .default (d.timebase.toWall_ns 0) .info burstEntry.msg false] } := by
  have hreg : ¬ burstEntry.isCont = true := by decide
  unfold Drain.flushEntry
  rw [if_neg hreg, hbuf]
  simp [Drain.logEntry, Drain.target, hlogger, hbuf, burstEntry, quietSpdlog]

theorem InBurst.next {n : Nat} {s : Path} (h : InBurst n s) :
    ∃ s', pathStep quietSpdlog plainFormat (s.enqueue burstEntry) .pop = some s' ∧
      InBurst (n + 1) s' := by
  have henqueue : s.enqueue burstEntry = { s with queue := [burstEntry] } := by
    unfold Path.enqueue
    rw [h.queue]
    rfl
  have hflush := flushEntry_burstEntry h.logger h.contBuf
  rw [henqueue]
  apply Exists.intro (Path.flushEntry quietSpdlog plainFormat { s with queue := [] } burstEntry)
  constructor
  · simp only [pathStep, h.draining]
  · unfold Path.flushEntry
    dsimp only
    rw [hflush]
    simp only [Drain.newEvents, List.drop_left, List.zipIdx_cons, List.zipIdx_nil, List.foldl_cons,
      List.foldl_nil, Path.call, plainFormat]
    constructor
    · rfl
    · exact h.draining
    · exact h.logger
    · exact h.contBuf
    · exact h.dropCount
    · exact h.bursts
    · rw [List.length_append, h.length]
      rfl
    · intro m hm
      rcases List.mem_append.mp hm with hm | hm
      · exact h.uncounted m hm
      · rw [List.mem_singleton.mp hm]
        rfl

/-- Bursts of every length occur. -/
theorem exists_burst (n : Nat) : ∃ s, PlainReach s ∧ InBurst n s := by
  induction n with
  | zero =>
      apply Exists.intro (Path.initial "%v" { wall_ns := 0, monotonic_ns := 0 } .info)
      constructor
      · exact Reach.start
      · exact ⟨rfl, rfl, rfl, rfl, rfl, rfl, rfl, fun m hm => absurd hm List.not_mem_nil⟩
  | succ n ih =>
      rcases ih with ⟨s, hreach, hburst⟩
      rcases hburst.next with ⟨s', hpop, hburst'⟩
      have henqueue : PlainReach (s.enqueue burstEntry) :=
        Reach.step (l := .enqueue burstEntry) hreach trivial rfl
      exact ⟨s', Reach.step henqueue trivial hpop, hburst'⟩

/-- All 1024 messages of a burst wait in the queue. -/
theorem messages_counted_iff_full_burst :
    ∃ s, PlainReach s ∧ s.formatted.length = 1024 ∧ s.Accounted := by
  rcases exists_burst 1024 with ⟨s, hreach, hburst⟩
  apply Exists.intro s
  have hall : s.allBursts = [s.burst] := by
    rw [Path.allBursts, hburst.bursts]
    rfl
  constructor
  · exact hreach
  · constructor
    · rw [Path.formatted, hall, List.flatten_singleton, hburst.length]
    · apply (messages_counted_iff quietSpdlog plainFormat "%v" _ .info hreach).2.2.mpr
      intro b hb m hm
      rw [hall] at hb
      rw [List.mem_singleton.mp hb, List.drop_of_length_le hburst.length.le] at hm
      contradiction

/-- In a burst of 1025 messages the last one neither enters the history nor waits, and
the drop counter is still zero. -/
theorem message_lost_uncounted :
    ∃ s, PlainReach s ∧ s.formatted.length = 1025 ∧
      (s.tui.popped ++ s.tui.logQueue).length = 1024 ∧ s.drain.dropCount = 0 ∧
      ¬ s.Accounted := by
  rcases exists_burst 1025 with ⟨s, hreach, hburst⟩
  have hinv : PathInv s := PathInv.of_reach hreach
  apply Exists.intro s
  have hall : s.allBursts = [s.burst] := by
    rw [Path.allBursts, hburst.bursts]
    rfl
  have hformatted : s.formatted = s.burst := by
    rw [Path.formatted, hall, List.flatten_singleton]
  constructor
  · exact hreach
  · constructor
    · rw [hformatted, hburst.length]
    · constructor
      · rw [hinv.popped, hinv.waiting, hburst.bursts, List.flatMap_nil, List.map_nil,
          List.nil_append, List.length_map, List.length_take, hburst.length]
        rfl
      · constructor
        · exact hburst.dropCount
        · intro hacc
          have hlen : queueCapacity < s.burst.length := by
            rw [hburst.length]
            decide
          have hlast : s.burst[queueCapacity] ∈ s.burst.drop queueCapacity := by
            rw [List.drop_eq_getElem_cons hlen]
            exact List.mem_cons_self
          have hmem : s.burst[queueCapacity] ∈ s.burst := List.mem_of_mem_drop hlast
          have hmarked := hinv.marked s.burst (List.mem_append_right _ List.mem_cons_self)
          rcases hacc _ (by rw [hformatted]; exact hmem) with htaken | hcounted
          · rw [hmarked.lost _ hlast] at htaken
            contradiction
          · rw [hburst.uncounted _ hmem] at hcounted
            contradiction

end RtTui
end Log
end DtCore
