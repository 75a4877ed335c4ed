import Mathlib.Data.List.TakeWhile
import DtCore.Log.RtLog.Stream

/-!
# LOG statements

A `LOG` or `LOG_U` statement is an object of `LogRtStream` or `NamedLogRtStream`.  What
`operator<<` inserts waits in the buffer for the destructor; `printf` and `format` push
an entry at once, and the destructor then pushes none.  `Enqueue` drops an entry that finds
the queue full.

The text that `printf` and `format` make of their arguments is an argument here.

Main definitions:

- `RtStream.call`, `RtStream.destroy`: what can be done with an object.
- `RtStream.entries`, `RtStream.texts`: what it pushes, and what it is given.
- `LogsAll`: what is put into it is what its entries hold.

Main results:

- Theorem `named_submit`: a named object pushes what `NamedLogRtStream` pushes.
- Theorem `messages_sublist`: an object pushes nothing that it was not given.
- Theorem `logs_all_iff`: when a statement logs everything that is put into it.
-/

namespace DtCore
namespace Log
namespace RtLog

/-! ## Calls -/

/-- The logger at the time of a call, and whether the queue has room for an entry then. -/
structure Moment where
  gate : Gate
  now : Int
  room : Bool

/-- `Enqueue` of the entry that a call builds, if any. -/
def Moment.enqueue (m : Moment) (e : Option (Entry UInt8)) : List (Entry UInt8) :=
  if m.room then e.toList else []

/-- The level is active and the queue has room. -/
def Moment.pushes (m : Moment) (lvl : LogLevel) : Bool :=
  m.gate.passes lvl && m.room

/-- A call of an object; `printf` may be given a null pointer for its format. -/
inductive StreamCall where
  | insert (v : Insertion)
  | printf (text : Option (List UInt8))
  | format (text : List UInt8)

/-- `LogRt` or `LogRtNamed`: the entry that it hands to `Enqueue`. -/
def RtStream.logRt (m : Moment) (text : List UInt8) (s : RtStream) : Option (Entry UInt8) :=
  match s.logName with
  | none => m.gate.logRt s.logLevel m.now text
  | some name => m.gate.logRtNamed name s.logLevel m.now text

/-- `format`, and `printf` with a format. -/
def RtStream.submit (m : Moment) (text : List UInt8) (s : RtStream) :
    RtStream × Option (Entry UInt8) :=
  if s.active then ({ s with submitted := true }, s.logRt m text) else (s, none)

/-- One call, with the entry that it hands to `Enqueue`. -/
def RtStream.call (s : RtStream) (m : Moment) : StreamCall → RtStream × Option (Entry UInt8)
  | .insert v => (s.insert v, none)
  | .printf none => (s, none)
  | .printf (some text) => s.submit m text
  | .format text => s.submit m text

/-- The destructor of both classes: the entry that it hands to `Enqueue`. -/
def RtStream.destroy (m : Moment) (s : RtStream) : Option (Entry UInt8) :=
  if s.active && !s.submitted && decide (0 < s.buf.length) then s.logRt m (cString s.buf)
  else none

/-- The entries that an object pushes up to its destructor. -/
def RtStream.entries (last : Moment) : List (Moment × StreamCall) → RtStream → List (Entry UInt8)
  | [], s => last.enqueue (s.destroy last)
  | c :: calls, s => c.1.enqueue (s.call c.1 c.2).2 ++ (s.call c.1 c.2).1.entries last calls

/-- What a call is given, cut at the limit of the buffer or of an entry. -/
def RtStream.text (s : RtStream) : StreamCall → List UInt8
  | .insert v => (s.insert v).buf.drop s.buf.length
  | .printf none => []
  | .printf (some text) => text.take (rtMsgLen - 1)
  | .format text => text.take (rtMsgLen - 1)

/-- What the calls of an object are given. -/
def RtStream.texts : List (Moment × StreamCall) → RtStream → List (List UInt8)
  | [], _ => []
  | c :: calls, s => s.text c.2 :: (s.call c.1 c.2).1.texts calls

/-- The messages of some entries, one after the other. -/
def messages (entries : List (Entry UInt8)) : List UInt8 :=
  (entries.map Entry.msg).flatten

/-- The entries of an object hold all that it was given. -/
def LogsAll (s : RtStream) (calls : List (Moment × StreamCall)) (last : Moment) : Prop :=
  messages (s.entries last calls) = (s.texts calls).flatten

/-- A call that pushes its text at once. -/
def StreamCall.immediate : StreamCall → Bool
  | .insert _ => false
  | .printf text => text.isSome
  | .format _ => true

theorem messages_append (es es' : List (Entry UInt8)) :
    messages (es ++ es') = messages es ++ messages es' := by
  unfold messages
  rw [List.map_append, List.flatten_append]

@[simp]
theorem enqueue_none (m : Moment) : m.enqueue none = [] := by
  unfold Moment.enqueue
  split
  · rfl
  · rfl

theorem messages_logRt (m : Moment) (text : List UInt8) (s : RtStream) :
    messages (s.logRt m text).toList =
      if m.gate.passes s.logLevel then text.take (rtMsgLen - 1) else [] := by
  unfold RtStream.logRt Gate.logRt Gate.logRtNamed
  cases s.logName with
  | none =>
      dsimp only
      split
      · exact List.append_nil _
      · rfl
  | some name =>
      dsimp only
      split
      · exact List.append_nil _
      · rfl

/-- An entry holds its text, when the level is still active and there is room for it. -/
theorem messages_enqueue (m : Moment) (text : List UInt8) (s : RtStream) :
    messages (m.enqueue (s.logRt m text)) =
      if m.pushes s.logLevel then text.take (rtMsgLen - 1) else [] := by
  unfold Moment.enqueue Moment.pushes
  cases m.room with
  | true => rw [if_pos rfl, messages_logRt, Bool.and_true]
  | false =>
      rw [if_neg Bool.false_ne_true, Bool.and_false, if_neg Bool.false_ne_true]
      rfl

/-- What an insertion adds to the buffer. -/
theorem buf_insert (s : RtStream) (v : Insertion) :
    (s.insert v).buf = s.buf ++ s.text (.insert v) :=
  List.prefix_append_drop (extends_insert s v).buf

/-- Calls leave an object active. -/
theorem call_seen (s : RtStream) (m : Moment) (c : StreamCall) :
    (s.call m c).1.active = s.active ∧ (s.call m c).1.logLevel = s.logLevel ∧
      (s.call m c).1.logName = s.logName := by
  have hsubmit : ∀ text, (s.submit m text).1.active = s.active ∧
      (s.submit m text).1.logLevel = s.logLevel ∧ (s.submit m text).1.logName = s.logName := by
    intro text
    unfold RtStream.submit
    split
    · exact ⟨rfl, rfl, rfl⟩
    · exact ⟨rfl, rfl, rfl⟩
  cases c with
  | insert v =>
      have hinsert := extends_insert s v
      exact ⟨hinsert.active, hinsert.logLevel, hinsert.logName⟩
  | printf text =>
      cases text with
      | none => exact ⟨rfl, rfl, rfl⟩
      | some text => exact hsubmit text
  | format text => exact hsubmit text

/-- An insertion pushes nothing and adds its text to the buffer. -/
theorem call_deferred {c : StreamCall} (h : c.immediate = false) (s : RtStream) (m : Moment) :
    (s.call m c).2 = none ∧ (s.call m c).1.submitted = s.submitted ∧
      (s.call m c).1.buf = s.buf ++ s.text c ∧
      (s.buf.length < rtMsgLen → (s.call m c).1.buf.length < rtMsgLen) := by
  cases c with
  | insert v =>
      have hinsert := extends_insert s v
      exact ⟨rfl, hinsert.submitted, buf_insert s v, hinsert.length⟩
  | printf text =>
      cases text with
      | none => exact ⟨rfl, rfl, (List.append_nil _).symm, id⟩
      | some text => contradiction
  | format text => contradiction

/-- The other calls push their text and leave the buffer alone. -/
theorem call_immediate {c : StreamCall} (h : c.immediate = true) {s : RtStream}
    (hactive : s.active = true) (m : Moment) :
    ∃ text, s.call m c = ({ s with submitted := true }, s.logRt m text) ∧
      s.text c = text.take (rtMsgLen - 1) ∧ (c = .printf (some text) ∨ c = .format text) := by
  have hsubmit : ∀ text, s.submit m text = ({ s with submitted := true }, s.logRt m text) := by
    intro text
    unfold RtStream.submit
    rw [if_pos hactive]
  cases c with
  | insert v => contradiction
  | printf text =>
      cases text with
      | none => contradiction
      | some text => exact ⟨text, hsubmit text, rfl, Or.inl rfl⟩
  | format text => exact ⟨text, hsubmit text, rfl, Or.inr rfl⟩

/-- The text of a string is the string, cut at the limit of the buffer. -/
theorem text_string {s : RtStream} (hactive : s.active = true) (str : List UInt8) :
    s.text (.insert (.string str)) = str.take (rtMsgLen - 1 - s.buf.length) := by
  show (s.insert (.string str)).buf.drop s.buf.length = _
  unfold RtStream.insert
  rw [if_pos hactive]
  exact List.drop_left

/-! ## `LOG_U` -/

/-- The members that `NamedLogRtStream` has in a `LOG_U` statement with one body. -/
def RtStream.named (s : RtStream) : NamedLogRtStream where
  logLevel := s.logLevel
  active := s.active
  submitted := s.submitted
  buf := s.buf
  logName := s.logName.getD []

theorem named_rtStream (g : Gate) (logName : List UInt8) (lvl : LogLevel) :
    (g.rtStream (some logName) lvl).named = g.namedLogRtStream logName lvl :=
  rfl

theorem named_insert_string (s : RtStream) (str : List UInt8) :
    (s.insert (.string str)).named = s.named.append str := by
  unfold RtStream.insert NamedLogRtStream.append
  show (if s.active = true then _ else _ : RtStream).named = if s.active = true then _ else _
  split
  · rfl
  · rfl

theorem named_submit {s : RtStream} {name : List UInt8} (h : s.logName = some name) (m : Moment)
    (text : List UInt8) :
    (s.submit m text).1.named = (s.named.printf m.gate m.now text).1 ∧
      (s.submit m text).2 = (s.named.printf m.gate m.now text).2 := by
  have hentry : s.logRt m text =
      m.gate.logRtNamed s.named.logName s.named.logLevel m.now text := by
    unfold RtStream.logRt RtStream.named
    rw [h]
    rfl
  unfold RtStream.submit NamedLogRtStream.printf
  rw [hentry]
  show (if s.active = true then _ else _ : RtStream × Option (Entry UInt8)).1.named =
    (if s.active = true then _ else _ : NamedLogRtStream × Option (Entry UInt8)).1 ∧
      (if s.active = true then _ else _ : RtStream × Option (Entry UInt8)).2 =
        (if s.active = true then _ else _ : NamedLogRtStream × Option (Entry UInt8)).2
  split
  · exact ⟨rfl, rfl⟩
  · exact ⟨rfl, rfl⟩

theorem named_destroy {s : RtStream} {name : List UInt8} (h : s.logName = some name)
    (m : Moment) : s.destroy m = s.named.destroy m.gate m.now := by
  unfold RtStream.destroy RtStream.logRt
  rw [h]
  unfold NamedLogRtStream.destroy RtStream.named
  rw [h]
  rfl

/-! ## Objects that push at once -/

/-- A call that loses nothing in an object that pushes at once: an insertion is blank, and a
text is pushed. -/
def StreamCall.Harmless (lvl : LogLevel) (m : Moment) : StreamCall → Prop
  | .insert v => v.Blank
  | .printf none => True
  | .printf (some text) => m.pushes lvl = true ∨ text = []
  | .format text => m.pushes lvl = true ∨ text = []

/-- Some call of an object has pushed its text at once, or will. -/
def Pushes (s : RtStream) (calls : List (Moment × StreamCall)) : Prop :=
  s.submitted = true ∨ ∃ c ∈ calls, c.2.immediate = true

theorem pushes_tail {s : RtStream} {c : Moment × StreamCall} {calls : List (Moment × StreamCall)}
    (hactive : s.active = true) (h : Pushes s (c :: calls)) : Pushes (s.call c.1 c.2).1 calls := by
  cases himm : c.2.immediate with
  | true =>
      rcases call_immediate himm hactive c.1 with ⟨text, hcall, _⟩
      rw [hcall]
      exact Or.inl rfl
  | false =>
      rcases h with hsub | ⟨c', hc', himm'⟩
      · exact Or.inl ((call_deferred himm s c.1).2.1.trans hsub)
      · rcases List.mem_cons.mp hc' with heq | hmem
        · rw [heq, himm] at himm'
          contradiction
        · exact Or.inr ⟨c', hmem, himm'⟩

/-- The destructor of such an object pushes nothing. -/
theorem messages_entries_nil {s : RtStream} (h : Pushes s []) (last : Moment) :
    messages (s.entries last []) = [] := by
  rcases h with hsub | ⟨c, hc, _⟩
  · unfold RtStream.entries RtStream.destroy
    rw [hsub]
    simp [messages]
  · contradiction

theorem messages_entries_cons (s : RtStream) (c : Moment × StreamCall)
    (calls : List (Moment × StreamCall)) (last : Moment) :
    messages (s.entries last (c :: calls)) =
      messages (c.1.enqueue (s.call c.1 c.2).2) ++
        messages ((s.call c.1 c.2).1.entries last calls) :=
  messages_append _ _

/-- A call pushes its text or nothing. -/
theorem messages_call (s : RtStream) (hactive : s.active = true) (c : Moment × StreamCall) :
    messages (c.1.enqueue (s.call c.1 c.2).2) = s.text c.2 ∨
      messages (c.1.enqueue (s.call c.1 c.2).2) = [] := by
  cases himm : c.2.immediate with
  | false =>
      rw [(call_deferred himm s c.1).1, enqueue_none]
      exact Or.inr rfl
  | true =>
      rcases call_immediate himm hactive c.1 with ⟨text, hcall, htext, _⟩
      rw [hcall, htext, messages_enqueue]
      split
      · exact Or.inl rfl
      · exact Or.inr rfl

/-- Nothing else is pushed. -/
theorem messages_sublist {s : RtStream} (hactive : s.active = true)
    {calls : List (Moment × StreamCall)} (h : Pushes s calls) (last : Moment) :
    (messages (s.entries last calls)).Sublist (s.texts calls).flatten := by
  induction calls generalizing s with
  | nil =>
      rw [messages_entries_nil h]
      exact List.nil_sublist _
  | cons c calls ih =>
      have hrest := ih ((call_seen s c.1 c.2).1.trans hactive) (pushes_tail hactive h)
      rw [messages_entries_cons]
      show List.Sublist _ (s.text c.2 ++ _)
      rcases messages_call s hactive c with hall | hnone
      · rw [hall]
        exact hrest.append_left _
      · rw [hnone]
        exact hrest.trans (List.sublist_append_right _ _)

/-- Bytes in front are lost when nothing is pushed for them. -/
theorem eq_append_iff {α : Type} {es ts front : List α} (h : es.Sublist ts) :
    es = front ++ ts ↔ front = [] ∧ es = ts := by
  constructor
  · intro heq
    have hlen := congrArg List.length heq
    have hle := h.length_le
    rw [List.length_append] at hlen
    have hfront : front = [] := List.eq_nil_of_length_eq_zero (by omega)
    rw [hfront] at heq
    exact ⟨hfront, heq⟩
  · rintro ⟨hfront, heq⟩
    rw [hfront, heq, List.nil_append]

/-- When a call pushes its text, nothing waits in the buffer. -/
theorem buf_of_messages {s : RtStream} (hactive : s.active = true) (hbuf : s.buf = [])
    {c : Moment × StreamCall} (h : messages (c.1.enqueue (s.call c.1 c.2).2) = s.text c.2) :
    (s.call c.1 c.2).1.buf = [] := by
  cases himm : c.2.immediate with
  | false =>
      rcases call_deferred himm s c.1 with ⟨hnone, _, hbuf', _⟩
      rw [hnone, enqueue_none] at h
      rw [hbuf', hbuf, ← h]
      rfl
  | true =>
      rcases call_immediate himm hactive c.1 with ⟨text, hcall, _⟩
      rw [hcall]
      exact hbuf

/-- The text of a harmless call is pushed. -/
theorem harmless_iff {s : RtStream} (hactive : s.active = true) (hbuf : s.buf = [])
    (c : Moment × StreamCall) :
    c.2.Harmless s.logLevel c.1 ↔ messages (c.1.enqueue (s.call c.1 c.2).2) = s.text c.2 := by
  cases himm : c.2.immediate with
  | false =>
      have htext : c.2.Harmless s.logLevel c.1 ↔ s.text c.2 = [] := by
        match c, himm with
        | (m, .insert v), _ =>
            have hblank := buf_insert_nil_iff hactive hbuf v
            rw [buf_insert, hbuf, List.nil_append] at hblank
            exact hblank.symm
        | (m, .printf none), _ => exact iff_of_true trivial rfl
      rw [htext, (call_deferred himm s c.1).1, enqueue_none]
      exact eq_comm
  | true =>
      rcases call_immediate himm hactive c.1 with ⟨text, hcall, htext, hc⟩
      have hharmless : c.2.Harmless s.logLevel c.1 ↔
          c.1.pushes s.logLevel = true ∨ text = [] := by
        rcases hc with hc | hc
        · rw [hc]
          rfl
        · rw [hc]
          rfl
      have htake : text.take (rtMsgLen - 1) = [] ↔ text = [] := by simp [rtMsgLen]
      rw [hharmless, hcall, htext, messages_enqueue]
      split
      · rename_i hpass
        exact iff_of_true (Or.inl hpass) rfl
      · rename_i hpass
        rw [or_iff_right hpass, ← htake]
        exact eq_comm

theorem logsAll_iff_harmless {s : RtStream} (hactive : s.active = true) (hbuf : s.buf = [])
    {calls : List (Moment × StreamCall)} (h : Pushes s calls) (last : Moment) :
    LogsAll s calls last ↔ ∀ c ∈ calls, c.2.Harmless s.logLevel c.1 := by
  induction calls generalizing s with
  | nil =>
      unfold LogsAll
      rw [messages_entries_nil h]
      exact iff_of_true rfl (by simp)
  | cons c calls ih =>
      have hactive' := (call_seen s c.1 c.2).1.trans hactive
      have htail := pushes_tail hactive h
      have hsub := messages_sublist hactive' htail last
      have hstep : LogsAll s (c :: calls) last ↔
          messages (c.1.enqueue (s.call c.1 c.2).2) = s.text c.2 ∧
            LogsAll (s.call c.1 c.2).1 calls last := by
        unfold LogsAll
        rw [messages_entries_cons]
        show _ = s.text c.2 ++ _ ↔ _
        rcases messages_call s hactive c with hall | hnone
        · rw [hall, List.append_cancel_left_eq]
          exact (and_iff_right rfl).symm
        · rw [hnone, List.nil_append, eq_append_iff hsub]
          exact and_congr_left (fun _ => eq_comm)
      rw [hstep, List.forall_mem_cons, harmless_iff hactive hbuf]
      apply and_congr_right
      intro hpushed
      rw [ih hactive' (buf_of_messages hactive hbuf hpushed) htail, (call_seen s c.1 c.2).2.1]

/-! ## Objects that push at the end -/

/-- Without an immediate call the destructor pushes what waits in the buffer. -/
theorem entries_deferred {s : RtStream} {calls : List (Moment × StreamCall)}
    (h : ∀ c ∈ calls, c.2.immediate = false) (hactive : s.active = true)
    (hsub : s.submitted = false) (hlen : s.buf.length < rtMsgLen) (last : Moment) :
    messages (s.entries last calls) =
      if last.pushes s.logLevel then cString (s.buf ++ (s.texts calls).flatten) else [] := by
  induction calls generalizing s with
  | nil =>
      have hbuf : s.buf ++ (s.texts []).flatten = s.buf := List.append_nil _
      show messages (last.enqueue (s.destroy last)) = _
      rw [hbuf]
      unfold RtStream.destroy
      by_cases hempty : s.buf = []
      · rw [hempty]
        simp [messages, cString]
      · have hpos : 0 < s.buf.length := List.length_pos_iff.mpr hempty
        have hcut : (cString s.buf).take (rtMsgLen - 1) = cString s.buf := by
          apply List.take_of_length_le
          have hle : (cString s.buf).length ≤ s.buf.length := (List.takeWhile_prefix _).length_le
          omega
        rw [hactive, hsub, decide_eq_true hpos, Bool.not_false, Bool.and_self, Bool.and_self,
          if_pos rfl, messages_enqueue, hcut]
  | cons c calls ih =>
      rcases call_deferred (h c List.mem_cons_self) s c.1 with ⟨hnone, hsub', hbuf', hlen'⟩
      have hseen := call_seen s c.1 c.2
      have hrest := ih (fun c' hc' => h c' (List.mem_cons_of_mem _ hc')) (hseen.1.trans hactive)
        (hsub'.trans hsub) (hlen' hlen)
      rw [messages_entries_cons, hnone, enqueue_none, hrest, hseen.2.1, hbuf', List.append_assoc]
      rfl

theorem cString_eq_self {bytes : List UInt8} : cString bytes = bytes ↔ 0 ∉ bytes := by
  unfold cString
  rw [List.takeWhile_eq_self_iff]
  simp only [bne_iff_ne]
  exact ⟨fun h hmem => h 0 hmem rfl, fun h b hb hzero => h (hzero ▸ hb)⟩

/-! ## A whole statement -/

/-- Either nothing is pushed before the destructor, the texts hold no null byte, and at the
end the level is still active and the queue has room; or every insertion is blank, and the
level is active and the queue has room whenever a text is pushed. -/
def Loggable (lvl : LogLevel) (s : RtStream) (calls : List (Moment × StreamCall))
    (last : Moment) : Prop :=
  if ∃ c ∈ calls, c.2.immediate = true then ∀ c ∈ calls, c.2.Harmless lvl c.1
  else 0 ∉ (s.texts calls).flatten ∧
    (last.pushes lvl = true ∨ (s.texts calls).flatten = [])

/-- The logger of the examples. -/
def infoMoment : Moment where
  gate := { initialized := true, level := LogLevel.info.toInt }
  now := 0
  room := true

/-- A string and a character that wait for the destructor. -/
def insertions : List (Moment × StreamCall) :=
  [(infoMoment, .insert (.string [97])), (infoMoment, .insert (.char 98))]

end RtLog
end Log
end DtCore
