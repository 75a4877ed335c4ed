import DtCore.Log.RtLog.Drain

/-!
# Continuation lines

`LOG_CONT` text reaches the drain thread in pieces that pay no heed to lines.
The continuation buffer holds the unterminated rest of the text seen so far;
every entry moves its complete lines out.  This file says what comes out for
every sequence of entries, first with the truncating copy into the buffer taken
into account and then for sequences whose text always fits.

Main definitions:

- `script`: the runs of `LOG_CONT` text between the other entries.
- `clip`: the part of every payload that the buffer has room for.

Main results:

- Theorem `Drain.finish_emits`: the logger calls of a run, for all entries.
- Theorem `cont_lines_reassembled`: text that fits comes out as its lines.
-/

namespace DtCore
namespace Log
namespace RtLog

open Foundation

/-! ## Logger calls without their outcome -/

/-- What one try block tries to log. -/
inductive Piece (β : Type) where
  | line (text : List β)
  | entry (target : Target) (time : Int) (level : LogLevel) (text : List β)
deriving DecidableEq

/-- Forget the outcome of a try block and the level of a line. -/
def Event.piece {β : Type} : Event β → Piece β
  | .line _ text _ => .line text
  | .entry target time level text _ => .entry target time level text

/-- A logger call that is no continuation line. -/
def Piece.isEntry {β : Type} : Piece β → Bool
  | .line _ => false
  | .entry _ _ _ _ => true

/-- The number of continuation lines. -/
def lineCount {β : Type} (pieces : List (Piece β)) : Nat :=
  pieces.countP fun piece => !piece.isEntry

/-- Nothing throws in the try blocks of `n` continuation lines from number `i` on. -/
def Spdlog.QuietFrom (env : Spdlog) (i n : Nat) : Prop :=
  ∀ k < n, env.lineFault (i + k) = .none

instance decidableQuietFrom (env : Spdlog) (i n : Nat) : Decidable (env.QuietFrom i n) :=
  inferInstanceAs (Decidable (∀ k < n, _))

theorem Spdlog.QuietFrom.split {env : Spdlog} {i m n : Nat} (h : env.QuietFrom i (m + n)) :
    env.QuietFrom i m ∧ env.QuietFrom (i + m) n := by
  constructor
  · intro k hk
    exact h k (by omega)
  · intro k hk
    rw [Nat.add_assoc]
    exact h (m + k) (by omega)

theorem Spdlog.QuietFrom.head {env : Spdlog} {i n : Nat} (h : env.QuietFrom i (n + 1)) :
    env.lineFault i = .none :=
  h 0 (Nat.succ_pos n)

/-- No logger call for a continuation line throws. -/
def Spdlog.QuietLines (env : Spdlog) : Prop :=
  ∀ n, env.lineFault n = .none

/-- No logger call throws. -/
def Spdlog.Quiet (env : Spdlog) : Prop :=
  env.QuietLines ∧ ∀ n, env.entryThrows n = false

/-- From `s` to `s'` the drain thread ran one try block for each of the given
pieces, in order; the blocks that threw were counted. -/
structure Emits {β : Type} (env : Spdlog) (s s' : Drain β) (pieces : List (Piece β)) : Prop where
  logger : s'.logger.isSome = s.logger.isSome
  timebase : s'.timebase = s.timebase
  lineCalls : s'.lineCalls = s.lineCalls + lineCount pieces
  events : ∃ new, s'.events = s.events ++ new ∧ new.map Event.piece = pieces ∧
    s'.dropCount = s.dropCount + new.countP Event.counted ∧
    (env.QuietFrom s.lineCalls (lineCount pieces) →
      ∀ ev ∈ new, ev.isEntry = false → ev.handed = true ∧ ev.counted = false) ∧
    (env.Quiet → ∀ ev ∈ new, ev.handed = true)

section Emits

variable {β : Type} {env : Spdlog} {s s' s'' : Drain β} {ps ps' : List (Piece β)}

theorem lineCount_append (ps ps' : List (Piece β)) :
    lineCount (ps ++ ps') = lineCount ps + lineCount ps' :=
  List.countP_append

/-- A change that is no logger call. -/
theorem Emits.silent (hlogger : s'.logger.isSome = s.logger.isSome)
    (htime : s'.timebase = s.timebase) (hevents : s'.events = s.events)
    (hdrops : s'.dropCount = s.dropCount) (hlines : s'.lineCalls = s.lineCalls) :
    Emits env s s' [] where
  logger := hlogger
  timebase := htime
  lineCalls := hlines
  events := ⟨[], by simpa using hevents, rfl, by simpa using hdrops, by simp, by simp⟩

theorem Emits.trans (h : Emits env s s' ps) (h' : Emits env s' s'' ps') :
    Emits env s s'' (ps ++ ps') where
  logger := h'.logger.trans h.logger
  timebase := h'.timebase.trans h.timebase
  lineCalls := by
    rw [h'.lineCalls, h.lineCalls, lineCount_append, Nat.add_assoc]
  events := by
    rcases h.events with ⟨new, hev, hps, hdrop, hlines, hfault⟩
    rcases h'.events with ⟨new', hev', hps', hdrop', hlines', hfault'⟩
    refine ⟨new ++ new', ?_, ?_, ?_, ?_, ?_⟩
    · rw [hev', hev, List.append_assoc]
    · rw [List.map_append, hps, hps']
    · rw [hdrop', hdrop, List.countP_append, Nat.add_assoc]
    · intro hquiet ev hmem
      rw [lineCount_append] at hquiet
      rcases hquiet.split with ⟨hfirst, hsecond⟩
      rw [← h.lineCalls] at hsecond
      rcases List.mem_append.mp hmem with hmem | hmem
      · exact hlines hfirst ev hmem
      · exact hlines' hsecond ev hmem
    · intro hquiet ev hmem
      rcases List.mem_append.mp hmem with hmem | hmem
      · exact hfault hquiet ev hmem
      · exact hfault' hquiet ev hmem

/-- The try blocks that a run adds to a state. -/
def Drain.newEvents (s s' : Drain β) : List (Event β) :=
  s'.events.drop s.events.length

theorem Emits.newEvents (h : Emits env s s' ps) :
    (s.newEvents s').map Event.piece = ps ∧
      s'.dropCount = s.dropCount + (s.newEvents s').countP Event.counted ∧
      (env.Quiet → ∀ ev ∈ s.newEvents s', ev.handed = true) := by
  rcases h.events with ⟨new, hnew, hps, hdrop, -, hfault⟩
  have heq : s.newEvents s' = new := by
    unfold Drain.newEvents
    rw [hnew, List.drop_left]
  rw [heq]
  exact ⟨hps, hdrop, hfault⟩

end Emits

/-! ## Text of a sequence of entries -/

/-- A run of `LOG_CONT` text or an entry of another kind. -/
inductive Item (β : Type) where
  | text (text : List β)
  | entry (e : Entry β)
deriving DecidableEq

section Script

variable {β : Type}

/-- The `LOG_CONT` text between the other entries, `w` being text that is still
open. -/
def script : List β → List (Entry β) → List (Item β)
  | w, [] => [.text w]
  | w, e :: es =>
      if e.isCont then script (w ++ e.msg) es else .text w :: .entry e :: script [] es

/-- The part of a payload that a buffer holding `w` has room for. -/
def Entry.clipped (e : Entry β) (w : List β) : Entry β :=
  if e.isCont then { e with msg := e.msg.take (contBufSize - w.length) } else e

/-- The logger an entry goes to when there is a default logger. -/
def Entry.target (env : Spdlog) (e : Entry β) : Target :=
  if e.loggerName ≠ [] ∧ env.registered e.loggerName = true then .named e.loggerName
  else .default

@[simp]
theorem clipped_isCont (e : Entry β) (w : List β) : (e.clipped w).isCont = e.isCont := by
  unfold Entry.clipped
  split <;> rfl

/-- A payload that fits is not cut. -/
theorem clipped_of_fits {e : Entry β} {w : List β}
    (h : e.isCont = true → w.length + e.msg.length ≤ contBufSize) : e.clipped w = e := by
  unfold Entry.clipped
  split
  · rename_i hcont
    have hlen := h hcont
    rw [List.take_of_length_le (by omega)]
  · rfl

/-- The clipped payload fits. -/
theorem length_clipped {e : Entry β} {w : List β} (hw : w.length ≤ contBufSize)
    (hcont : e.isCont = true) : (w ++ (e.clipped w).msg).length ≤ contBufSize := by
  simp only [Entry.clipped, hcont, if_true, List.length_append, List.length_take]
  omega

end Script

section Text

variable {β : Type} [LogByte β]

/-- What the buffer holds after an entry. -/
def heldAfter (w : List β) (e : Entry β) : List β :=
  if e.isCont then (cutLines isNewline (w ++ (e.clipped w).msg)).2 else []

/-- The entries with every payload cut to the room it finds in the buffer. -/
def clip : List β → List (Entry β) → List (Entry β)
  | _, [] => []
  | w, e :: es => e.clipped w :: clip (heldAfter w e) es

/-- Every payload finds room in the buffer. -/
def TextFits : List β → List (Entry β) → Prop
  | _, [] => True
  | w, e :: es =>
      (e.isCont = true → w.length + e.msg.length ≤ contBufSize) ∧ TextFits (heldAfter w e) es

instance decidableTextFits : (w : List β) → (es : List (Entry β)) → Decidable (TextFits w es)
  | _, [] => inferInstanceAs (Decidable True)
  | w, e :: es =>
      have := decidableTextFits (heldAfter w e) es
      inferInstanceAs (Decidable (_ ∧ _))

/-- The logger calls for continuation lines: each with the indent. -/
def linePieces (lines : List (List β)) : List (Piece β) :=
  lines.map fun line => .line (List.replicate defaultContIndent space ++ line)

/-- The logger calls of an item: the lines of a text, or the entry itself. -/
def Item.pieces (env : Spdlog) (tb : TimeBase) : Item β → List (Piece β)
  | Item.text t => linePieces (textLines isNewline t)
  | Item.entry e => [.entry (e.target env) (tb.toWall_ns e.timeStamp_ns) e.level e.msg]

/-- The logger calls that a sequence of entries asks for. -/
def expected (env : Spdlog) (tb : TimeBase) (w : List β) (es : List (Entry β)) :
    List (Piece β) :=
  (script w es).flatMap (Item.pieces env tb)

theorem linePieces_append (ls ls' : List (List β)) :
    linePieces (ls ++ ls') = linePieces ls ++ linePieces ls' :=
  List.map_append

theorem clip_of_textFits {w : List β} {es : List (Entry β)} (h : TextFits w es) :
    clip w es = es := by
  induction es generalizing w with
  | nil => rfl
  | cons e es ih => rw [clip, clipped_of_fits h.1, ih h.2]

/-- The complete lines of the open text leave, the rest stays open. -/
theorem expected_cut (env : Spdlog) (tb : TimeBase) (u v : List β) (es : List (Entry β)) :
    expected env tb (u ++ v) es =
      linePieces (cutLines isNewline u).1 ++
        expected env tb ((cutLines isNewline u).2 ++ v) es := by
  induction es generalizing v with
  | nil =>
      simp only [expected, script, List.flatMap_singleton, Item.pieces]
      rw [textLines_append, linePieces_append]
  | cons e es ih =>
      unfold expected script
      split
      · simpa only [expected, List.append_assoc] using ih (v ++ e.msg)
      · simp only [List.flatMap_cons, Item.pieces]
        rw [textLines_append, linePieces_append, List.append_assoc]

end Text

/-! ## The line loop -/

/-- One line goes out. -/
theorem logLine_emits {β : Type} {env : Spdlog} (s : Drain β) (text : List β) :
    Emits env s (s.logLine env text) [.line text] := by
  unfold Drain.logLine
  cases hfault : env.lineFault s.lineCalls with
  | none =>
      exact
        { logger := Option.isSome_map
          timebase := rfl
          lineCalls := rfl
          events := ⟨[.line s.contLevel text .none], rfl, rfl, rfl,
            by simp [Event.handed, Event.counted], by simp [Event.handed]⟩ }
  | setPattern =>
      exact
        { logger := rfl
          timebase := rfl
          lineCalls := rfl
          events := ⟨[.line s.contLevel text .setPattern], rfl, rfl, rfl, fun hquiet => by
              rw [hquiet.head] at hfault
              contradiction,
            fun hquiet => by simp [hquiet.1 s.lineCalls] at hfault⟩ }
  | log =>
      exact
        { logger := Option.isSome_map
          timebase := rfl
          lineCalls := rfl
          events := ⟨[.line s.contLevel text .log], rfl, rfl, rfl, fun hquiet => by
              rw [hquiet.head] at hfault
              contradiction,
            fun hquiet => by simp [hquiet.1 s.lineCalls] at hfault⟩ }
  | restorePattern =>
      exact
        { logger := Option.isSome_map
          timebase := rfl
          lineCalls := rfl
          events := ⟨[.line s.contLevel text .restorePattern], rfl, rfl, rfl, fun hquiet => by
              rw [hquiet.head] at hfault
              contradiction,
            by simp [Event.handed]⟩ }

section Loop

variable {β : Type} [LogByte β]

theorem nextLine_of_newline (force : Bool) {line rest : List β} {b : β}
    (hline : ∀ x ∈ line, isNewline x = false) (hb : isNewline b = true) :
    nextLine force (line ++ b :: rest) = some (line, rest) := by
  have hfind : (line ++ b :: rest).findIdx? isNewline = some line.length := by
    rw [List.findIdx?_eq_some_iff_getElem]
    refine ⟨by simp, by simpa using hb, ?_⟩
    intro j hj
    rw [List.getElem_append_left hj]
    simpa using hline _ (List.getElem_mem hj)
  unfold nextLine
  rw [hfind]
  simp [List.drop_append]

theorem nextLine_of_no_newline (force : Bool) {rest : List β}
    (h : ∀ x ∈ rest, isNewline x = false) :
    nextLine force rest = if force then some (rest, []) else none := by
  have hfind : rest.findIdx? isNewline = none := by
    rw [List.findIdx?_eq_none_iff]
    exact h
  unfold nextLine
  rw [hfind]

/-- The lines the loop takes from a buffer. -/
def takenLines (force : Bool) (rest : List β) : List (List β) :=
  if force then textLines isNewline rest else (cutLines isNewline rest).1

/-- The bytes the loop leaves in the buffer. -/
def leftover (force : Bool) (rest : List β) : List β :=
  if force then [] else (cutLines isNewline rest).2

/-- The loop hands out the lines of the buffer in order and leaves the
unterminated rest, or with `force` nothing. -/
theorem flushLoop_spec (env : Spdlog) (force : Bool) (s : Drain β) (rest : List β) :
    (s.flushLoop env force rest).2 = leftover force rest ∧
      Emits env s (s.flushLoop env force rest).1
        ((takenLines force rest).map fun line => .line (indentLine line)) := by
  induction hn : rest.length using Nat.strongRecOn generalizing s rest with
  | ind n ih =>
      rw [Drain.flushLoop]
      by_cases hne : rest = []
      · subst hne
        have hsilent : Emits env s s [] := Emits.silent rfl rfl rfl rfl rfl
        cases force <;> simpa [leftover, takenLines] using hsilent
      · rw [dif_neg hne]
        rcases exists_newline_or_not isNewline rest with hno | ⟨line, b, rest', rfl, hline, hb⟩
        · have hnext := nextLine_of_no_newline force hno
          cases force with
          | false =>
              rw [if_neg Bool.false_ne_true] at hnext
              have hsilent : Emits env s s [] := Emits.silent rfl rfl rfl rfl rfl
              split
              · simpa [leftover, takenLines, cutLines_of_no_newline isNewline hno] using hsilent
              · rename_i heq
                rw [hnext] at heq
                contradiction
          | true =>
              rw [if_pos rfl] at hnext
              split
              · rename_i heq
                rw [hnext] at heq
                contradiction
              · rename_i l r heq
                rw [hnext] at heq
                obtain ⟨rfl, rfl⟩ := Prod.mk.inj (Option.some.inj heq)
                obtain ⟨hleft, hemit⟩ := ih 0 (by
                  rw [← hn]
                  exact List.length_pos_iff.mpr hne) (s.logLine env (indentLine rest)) [] rfl
                refine ⟨by simpa [leftover] using hleft, ?_⟩
                have := (logLine_emits s (indentLine rest)).trans hemit
                simpa [takenLines, textLines_of_no_newline isNewline hno hne] using this
        · have hnext : nextLine force (line ++ b :: rest') = some (line, rest') :=
            nextLine_of_newline force hline hb
          split
          · rename_i heq
            rw [hnext] at heq
            contradiction
          · rename_i l r heq
            rw [hnext] at heq
            obtain ⟨rfl, rfl⟩ := Prod.mk.inj (Option.some.inj heq)
            have hlt : rest'.length < n := by
              rw [← hn]
              simp
              omega
            obtain ⟨hleft, hemit⟩ :=
              ih rest'.length hlt (s.logLine env (indentLine line)) rest' rfl
            have hboth := (logLine_emits s (indentLine line)).trans hemit
            cases force with
            | false =>
                refine ⟨?_, ?_⟩
                · simpa [leftover, cutLines_of_newline isNewline hline hb] using hleft
                · simpa [takenLines, cutLines_of_newline isNewline hline hb] using hboth
            | true =>
                refine ⟨by simpa [leftover] using hleft, ?_⟩
                simpa [takenLines, textLines_of_newline isNewline hline hb] using hboth

/-- No line of a buffer is cut by the indenting copy. -/
theorem map_indentLine {force : Bool} {rest : List β} (hlen : rest.length ≤ contBufSize) :
    ((takenLines force rest).map fun line => Piece.line (indentLine line)) =
      linePieces (takenLines force rest) := by
  refine List.map_congr_left ?_
  intro line hmem
  have hline : line.length ≤ rest.length := by
    cases force with
    | false => exact (cutLines_length_le isNewline rest).1 line hmem
    | true => exact textLines_length_le isNewline rest line hmem
  unfold indentLine
  rw [List.take_of_length_le (hline.trans hlen)]

end Loop

/-! ## One entry -/

/-- With a default logger every entry that is no continuation finds a target. -/
theorem logEntry_emits {β : Type} (env : Spdlog) {s : Drain β} (hlogger : s.logger.isSome = true)
    (e : Entry β) :
    Emits env s (s.logEntry env e)
      [.entry (e.target env) (s.timebase.toWall_ns e.timeStamp_ns) e.level e.msg] := by
  obtain ⟨pattern, hsome⟩ := Option.isSome_iff_exists.mp hlogger
  have htarget : s.target env e = some (e.target env) := by
    unfold Drain.target Entry.target
    split
    · rfl
    · rw [hsome]
      rfl
  unfold Drain.logEntry
  rw [htarget]
  refine
    { logger := rfl
      timebase := rfl
      lineCalls := rfl
      events := ⟨[.entry (e.target env) (s.timebase.toWall_ns e.timeStamp_ns) e.level e.msg
        (env.entryThrows s.entryCalls)], rfl, rfl, ?_, by simp [Event.isEntry], ?_⟩ }
  · cases hthrown : env.entryThrows s.entryCalls <;> simp [Event.counted]
  · intro hquiet
    simp [Event.handed, hquiet.2]

section Entries

variable {β : Type} [LogByte β] (env : Spdlog) {s : Drain β}

/-- With a default logger `FlushContLines` hands out the lines of the buffer. -/
theorem flushContLines_spec (force : Bool) (hlogger : s.logger.isSome = true)
    (hlen : s.contBuf.length ≤ contBufSize) :
    (s.flushContLines env force).contBuf = leftover force s.contBuf ∧
      Emits env s (s.flushContLines env force) (linePieces (takenLines force s.contBuf)) := by
  obtain ⟨pattern, hsome⟩ := Option.isSome_iff_exists.mp hlogger
  obtain ⟨hleft, hemit⟩ := flushLoop_spec env force s s.contBuf
  unfold Drain.flushContLines
  rw [hsome]
  refine ⟨hleft, ?_⟩
  rw [← map_indentLine hlen]
  exact
    { logger := hemit.logger
      timebase := hemit.timebase
      lineCalls := hemit.lineCalls
      events := hemit.events }

/-- `FlushEntry` on continuation text: the complete lines of the buffer and the
clipped payload go out. -/
theorem flushEntry_cont (hlogger : s.logger.isSome = true)
    (hlen : s.contBuf.length ≤ contBufSize) {e : Entry β} (hcont : e.isCont = true) :
    (s.flushEntry env e).contBuf = heldAfter s.contBuf e ∧
      Emits env s (s.flushEntry env e)
        (linePieces (cutLines isNewline (s.contBuf ++ (e.clipped s.contBuf).msg)).1) := by
  have hmsg : (e.clipped s.contBuf).msg = e.msg.take (contBufSize - s.contBuf.length) := by
    simp [Entry.clipped, hcont]
  have hfull := length_clipped hlen hcont
  rw [hmsg] at hfull ⊢
  unfold Drain.flushEntry heldAfter
  rw [if_pos hcont, if_pos hcont, hmsg]
  obtain ⟨hbuf, hemit⟩ := flushContLines_spec env
    (s := { s with
      contBuf := s.contBuf ++ e.msg.take (contBufSize - s.contBuf.length)
      contLevel := e.level }) false hlogger hfull
  exact ⟨hbuf,
    { logger := hemit.logger
      timebase := hemit.timebase
      lineCalls := hemit.lineCalls
      events := hemit.events }⟩

/-- `FlushEntry` on another entry: the open text goes out first. -/
theorem flushEntry_regular (hlogger : s.logger.isSome = true)
    (hlen : s.contBuf.length ≤ contBufSize) {e : Entry β} (hreg : e.isCont ≠ true) :
    (s.flushEntry env e).contBuf = heldAfter s.contBuf e ∧
      Emits env s (s.flushEntry env e)
        (linePieces (textLines isNewline s.contBuf) ++
          [.entry (e.target env) (s.timebase.toWall_ns e.timeStamp_ns) e.level e.msg]) := by
  have hflush : ∃ t : Drain β, (if s.contBuf ≠ [] then s.flushContLines env true else s) = t ∧
      t.contBuf = [] ∧ Emits env s t (linePieces (textLines isNewline s.contBuf)) := by
    by_cases hbuf : s.contBuf = []
    · refine ⟨s, by simp [hbuf], hbuf, ?_⟩
      rw [hbuf, textLines_nil]
      exact Emits.silent rfl rfl rfl rfl rfl
    · obtain ⟨hempty, hemit⟩ := flushContLines_spec env true hlogger hlen
      exact ⟨_, if_pos hbuf, hempty, hemit⟩
  obtain ⟨t, ht, hempty, hemit⟩ := hflush
  have hlog : Emits env t (t.logEntry env e)
      [.entry (e.target env) (s.timebase.toWall_ns e.timeStamp_ns) e.level e.msg] := by
    rw [← hemit.timebase]
    exact logEntry_emits env (hemit.logger.trans hlogger) e
  have hkeep : (t.logEntry env e).contBuf = t.contBuf := by
    unfold Drain.logEntry
    split <;> rfl
  unfold Drain.flushEntry heldAfter
  rw [if_neg hreg, if_neg hreg, ht]
  exact ⟨hkeep.trans hempty, hemit.trans hlog⟩

/-- The text left in the buffer after an entry fits again. -/
theorem length_heldAfter {w : List β} (hw : w.length ≤ contBufSize) (e : Entry β) :
    (heldAfter w e).length ≤ contBufSize := by
  unfold heldAfter
  split
  · rename_i hcont
    exact (cutLines_length_le isNewline _).2.trans (length_clipped hw hcont)
  · exact Nat.zero_le _

/-- The buffer always holds the text that is still open. -/
theorem flushEntry_contBuf (hlogger : s.logger.isSome = true)
    (hlen : s.contBuf.length ≤ contBufSize) (e : Entry β) :
    (s.flushEntry env e).contBuf = heldAfter s.contBuf e := by
  by_cases hcont : e.isCont = true
  · exact (flushEntry_cont env hlogger hlen hcont).1
  · exact (flushEntry_regular env hlogger hlen hcont).1

/-! ## All entries -/

/-- The entries fed one by one, followed by `FlushContLines(true)`. -/
def Drain.finish (env : Spdlog) (s : Drain β) (es : List (Entry β)) : Drain β :=
  (s.flushAll env es).flushContLines env true

theorem finish_cons (e : Entry β) (es : List (Entry β)) :
    s.finish env (e :: es) = (s.flushEntry env e).finish env es :=
  rfl

/-- The logger calls of a whole run are those its clipped entries ask for. -/
theorem Drain.finish_emits (hlogger : s.logger.isSome = true)
    (hlen : s.contBuf.length ≤ contBufSize) (es : List (Entry β)) :
    Emits env s (s.finish env es)
      (expected env s.timebase s.contBuf (clip s.contBuf es)) := by
  induction es generalizing s with
  | nil =>
      have hflush := (flushContLines_spec env true hlogger hlen).2
      rw [takenLines, if_pos rfl] at hflush
      rw [expected, clip, script, List.flatMap_singleton, Item.pieces]
      exact hflush
  | cons e es ih =>
      rw [finish_cons]
      have hbuf := flushEntry_contBuf env hlogger hlen e
      have hheld := length_heldAfter hlen e
      by_cases hcont : e.isCont = true
      · have hemit := (flushEntry_cont env hlogger hlen hcont).2
        have hrest := ih (hemit.logger.trans hlogger) (by rw [hbuf]; exact hheld)
        rw [hemit.timebase, hbuf] at hrest
        have hsplit : expected env s.timebase s.contBuf (clip s.contBuf (e :: es)) =
            linePieces (cutLines isNewline (s.contBuf ++ (e.clipped s.contBuf).msg)).1 ++
              expected env s.timebase (heldAfter s.contBuf e)
                (clip (heldAfter s.contBuf e) es) := by
          have hcut := expected_cut env s.timebase (s.contBuf ++ (e.clipped s.contBuf).msg) []
            (clip (heldAfter s.contBuf e) es)
          rw [List.append_nil, List.append_nil] at hcut
          have hheld' : (cutLines isNewline (s.contBuf ++ (e.clipped s.contBuf).msg)).2 =
              heldAfter s.contBuf e := by
            rw [heldAfter, if_pos hcont]
          rw [hheld'] at hcut
          rw [← hcut]
          simp [expected, clip, script, hcont]
        rw [hsplit]
        exact hemit.trans hrest
      · have hemit := (flushEntry_regular env hlogger hlen hcont).2
        have hrest := ih (hemit.logger.trans hlogger) (by rw [hbuf]; exact hheld)
        rw [hemit.timebase, hbuf] at hrest
        have hempty : heldAfter s.contBuf e = [] := by
          rw [heldAfter, if_neg hcont]
        have hself : e.clipped s.contBuf = e := clipped_of_fits fun h => absurd h hcont
        have hsplit : expected env s.timebase s.contBuf (clip s.contBuf (e :: es)) =
            (linePieces (textLines isNewline s.contBuf) ++
              [.entry (e.target env) (s.timebase.toWall_ns e.timeStamp_ns) e.level e.msg]) ++
              expected env s.timebase [] (clip [] es) := by
          simp [expected, clip, script, hcont, hself, hempty, Item.pieces]
        rw [hempty] at hrest
        rw [hsplit]
        exact hemit.trans hrest

/-! ## Text that fits -/

/-- At each continuation entry the bytes pending in the buffer and the payload
fit. -/
def Drain.Fits (env : Spdlog) : Drain β → List (Entry β) → Prop
  | _, [] => True
  | s, e :: es =>
      (e.isCont = true → s.contBuf.length + e.msg.length ≤ contBufSize) ∧
        (s.flushEntry env e).Fits env es

/-- Whether the text fits can be read off the entries. -/
theorem Drain.fits_iff (hlogger : s.logger.isSome = true) (hlen : s.contBuf.length ≤ contBufSize)
    (es : List (Entry β)) : s.Fits env es ↔ TextFits s.contBuf es := by
  induction es generalizing s with
  | nil => exact Iff.rfl
  | cons e es ih =>
      have hbuf := flushEntry_contBuf env hlogger hlen e
      have hheld := length_heldAfter hlen e
      have hlogger' : (s.flushEntry env e).logger.isSome = true := by
        by_cases hcont : e.isCont = true
        · exact (flushEntry_cont env hlogger hlen hcont).2.logger.trans hlogger
        · exact (flushEntry_regular env hlogger hlen hcont).2.logger.trans hlogger
      unfold Drain.Fits TextFits
      rw [ih hlogger' (by rw [hbuf]; exact hheld), hbuf]

/-- `LOG_CONT` lines are reassembled exactly: the logger calls of a run are, in
queue order, the entries and between them the newline separated pieces of the
`LOG_CONT` text, each with its indent.  Every call is made inside a try block
that hands its text over unless it throws and is counted; and two runs whose
text was only cut differently make the same calls. -/
theorem cont_lines_reassembled (s : Drain β) (hlogger : s.logger.isSome = true)
    (hbuf : s.contBuf = []) (es : List (Entry β)) (hfits : s.Fits env es) :
    (s.newEvents (s.finish env es)).map Event.piece =
        (script [] es).flatMap (Item.pieces env s.timebase) ∧
      (s.finish env es).dropCount =
        s.dropCount + (s.newEvents (s.finish env es)).countP Event.counted ∧
      (env.Quiet → ∀ ev ∈ s.newEvents (s.finish env es), ev.handed = true) ∧
      ∀ es', s.Fits env es' → script [] es' = script [] es →
        (s.newEvents (s.finish env es')).map Event.piece =
          (s.newEvents (s.finish env es)).map Event.piece := by
  have hlen : s.contBuf.length ≤ contBufSize := by
    rw [hbuf]
    exact Nat.zero_le _
  have hrun : ∀ es : List (Entry β), s.Fits env es →
      Emits env s (s.finish env es) (expected env s.timebase [] es) := by
    intro es hfits
    have hemit := Drain.finish_emits env hlogger hlen es
    rwa [clip_of_textFits ((Drain.fits_iff env hlogger hlen es).mp hfits), hbuf] at hemit
  obtain ⟨hpieces, hdrop, hfault⟩ := (hrun es hfits).newEvents
  refine ⟨hpieces, hdrop, hfault, ?_⟩
  intro es' hfits' hscript
  rw [hpieces, (hrun es' hfits').newEvents.1, expected, hscript, expected]

end Entries

/-- A default logger, one registered name, and loggers that never throw. -/
def quietSpdlog : Spdlog where
  registered name := name == [65]
  lineFault _ := .none
  entryThrows _ := false

/-- The drain thread before its first entry. -/
def freshDrain : Drain UInt8 where
  logger := some "%v"
  timebase := { wall_ns := 1000, monotonic_ns := 10 }
  contBuf := []
  contLevel := .info
  patternStr := "%v"
  dropCount := 0
  lineCalls := 0
  entryCalls := 0
  events := []

/-- Text cut in the middle of lines, an empty line, a forced partial line. -/
def straddlingEntries : List (Entry UInt8) :=
  [{ timeStamp_ns := 11, level := .info, msg := [97, 10, 98], loggerName := [1] },
    { timeStamp_ns := 12, level := .warn, msg := [10, 10, 99], loggerName := [1] },
    { timeStamp_ns := 13, level := .err, msg := [120], loggerName := [] },
    { timeStamp_ns := 14, level := .debug, msg := [121], loggerName := [65] },
    { timeStamp_ns := 15, level := .info, msg := [100, 10], loggerName := [1] }]

theorem cont_lines_reassembled_straddling :
    (freshDrain.newEvents (freshDrain.finish quietSpdlog straddlingEntries)).map Event.piece =
      linePieces [[97], [98], [], [99]] ++
        [.entry .default 1003 .err [120], .entry (.named [65]) 1004 .debug [121]] ++
        linePieces [[100]] := by
  have hfits : freshDrain.Fits quietSpdlog straddlingEntries :=
    (Drain.fits_iff quietSpdlog rfl (by decide) straddlingEntries).mpr (by decide)
  have hpieces :=
    (cont_lines_reassembled quietSpdlog freshDrain rfl rfl straddlingEntries hfits).1
  exact hpieces.trans (by decide)

end RtLog
end Log
end DtCore
