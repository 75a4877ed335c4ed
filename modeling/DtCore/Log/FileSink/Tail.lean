import DtCore.Log.FileSink.Files

/-!
# The file sink keeps the end of the log

Without faults the files and the buffer of a sink hold the newest generations of
an archive: the base file followed by the buffer is the current generation and
backup `i` the `i`-th generation before it.  The archive depends on the messages
only, not on the flushes or on how `write` splits the data.

Main results:

- Structure `Keeps` and theorem `sinkIt_logged`: `sink_it_` logs its message to
  the archive behind the sink.
- Theorem `file_sink_keeps_tail`: after a final flush the files hold a suffix of
  the whole log, cut between messages.
-/

namespace DtCore
namespace Log
namespace FileSink

open Foundation

/-! ## The archive behind a sink -/

/-- A sink without faults holds the newest generations of an archive. -/
structure Keeps (a : Archive UInt8) (s : State) : Prop where
  fdOpen : s.fdOpen = true
  maxFiles_pos : 0 < s.maxFiles
  base : ∃ disk, s.files 0 = some disk ∧ disk ++ s.buffer = a.current.content ∧
    s.currentSize = disk.length
  backups : ∀ i, s.files (i + 1) =
    if i + 1 ≤ s.maxFiles then (a.older[i]?).map Generation.content else none
  faultless : Faultless s

/-- A part of a call that takes the sink to the archive `a` and lets at most `cost`
more bytes wait for a `write`. -/
structure Logged (a : Archive UInt8) (cost : Nat) (s t : State) : Prop where
  keeps : Keeps a t
  maxSize : t.maxSize = s.maxSize
  maxFiles : t.maxFiles = s.maxFiles
  supply_le : supply s.writes + t.buffer.length ≤ supply t.writes + s.buffer.length + cost

theorem Logged.trans {a b : Archive UInt8} {m n : Nat} {s t u : State} (h : Logged a m s t)
    (h' : Logged b n t u) : Logged b (m + n) s u where
  keeps := h'.keeps
  maxSize := h'.maxSize.trans h.maxSize
  maxFiles := h'.maxFiles.trans h.maxFiles
  supply_le := by
    have hle := h.supply_le
    have hle' := h'.supply_le
    omega

theorem Logged.refl {a : Archive UInt8} {s : State} (h : Keeps a s) : Logged a 0 s s where
  keeps := h
  maxSize := rfl
  maxFiles := rfl
  supply_le := Nat.le_refl _

/-- The size that the rotation check uses is that of the current generation. -/
theorem Keeps.size {a : Archive UInt8} {s : State} (h : Keeps a s) :
    s.currentSize + s.buffer.length = a.current.content.length := by
  rcases h.base with ⟨disk, _, hcontent, hsize⟩
  rw [hsize, ← hcontent, List.length_append]

/-! ## Parts of a call -/

theorem Flushed.logged {a : Archive UInt8} {s t : State} (h : Keeps a s) (hf : Flushed s t) :
    Logged a 0 s t := by
  rcases h.base with ⟨disk, hdisk, hcontent, hsize⟩
  exact {
    keeps := {
      fdOpen := hf.fdOpen.trans h.fdOpen
      maxFiles_pos := by
        rw [hf.maxFiles]
        exact h.maxFiles_pos
      base := by
        apply Exists.intro (disk ++ s.buffer)
        constructor
        · exact hf.base disk hdisk
        · constructor
          · rw [hf.buffer, List.append_nil, hcontent]
          · rw [hf.currentSize, hsize, List.length_append]
      backups := by
        intro i
        rw [hf.backups, hf.maxFiles, h.backups]
      faultless := hf.faultless }
    maxSize := hf.maxSize
    maxFiles := hf.maxFiles
    supply_le := by
      have hle := hf.supply_le
      simp only [hf.buffer, List.length_nil]
      omega }

theorem flushBuffer_logged {a : Archive UInt8} {s t : State} (h : Keeps a s)
    (ht : s.flushBuffer = some t) : Logged a 0 s t :=
  (flushBuffer_flushed h.faultless h.fdOpen ht).logged h

theorem rotateFiles_logged {a : Archive UInt8} {s t : State} (h : Keeps a s)
    (ht : s.rotateFiles = some t) : Logged a.rotate 0 s t := by
  rcases h.base with ⟨disk, hdisk, hcontent, hsize⟩
  have hr := rotateFiles_rotated h.faultless h.fdOpen h.maxFiles_pos ⟨disk, hdisk⟩ ht
  exact {
    keeps := {
      fdOpen := hr.fdOpen
      maxFiles_pos := by
        rw [hr.maxFiles]
        exact h.maxFiles_pos
      base := ⟨[], hr.base, by rw [hr.buffer]; rfl, hr.currentSize⟩
      backups := by
        intro i
        cases i with
        | zero =>
            have hle : 0 + 1 ≤ s.maxFiles := h.maxFiles_pos
            rw [hr.first disk hdisk, hr.maxFiles, if_pos hle, hcontent]
            rfl
        | succ i =>
            rw [hr.backups, hr.maxFiles, h.backups, h.backups]
            by_cases hle : i + 2 ≤ s.maxFiles
            · have hle' : i + 1 ≤ s.maxFiles := by omega
              rw [if_pos hle, if_pos hle', if_pos hle]
              rfl
            · rw [if_neg hle, if_neg hle, if_neg hle]
      faultless := hr.faultless }
    maxSize := hr.maxSize
    maxFiles := hr.maxFiles
    supply_le := by
      have hle := hr.supply_le
      simp only [hr.buffer, List.length_nil]
      omega }

theorem appendBuffer_logged {a : Archive UInt8} {s : State} (h : Keeps a s) (msg : Bytes) :
    Logged (a.append msg) msg.length s (s.appendBuffer msg) := by
  rcases h.base with ⟨disk, hdisk, hcontent, hsize⟩
  exact {
    keeps := {
      fdOpen := h.fdOpen
      maxFiles_pos := h.maxFiles_pos
      base := ⟨disk, hdisk, by
        rw [Archive.content_append, ← hcontent, List.append_assoc]
        rfl, hsize⟩
      backups := h.backups
      faultless := ⟨h.faultless.writes, h.faultless.opens, h.faultless.renames,
        h.faultless.unlinks⟩ }
    maxSize := rfl
    maxFiles := rfl
    supply_le := by
      simp only [State.appendBuffer, List.length_append]
      omega }

/-- A direct write, made when the buffer is empty, appends the message. -/
theorem writeDirect_logged {a : Archive UInt8} {s t : State} {msg : Bytes} (h : Keeps a s)
    (hbuffer : s.buffer = []) (ht : s.writeDirect msg = some t) :
    Logged (a.append msg) msg.length s t := by
  unfold State.writeDirect at ht
  rw [if_pos h.fdOpen, directLoop_eq_flushLoop _ _ h.faultless.writes,
    Option.map_eq_some_iff] at ht
  rcases ht with ⟨e, he, rfl⟩
  have hcomplete := flushLoop_complete h.faultless.writes he
  rcases hcomplete.used with ⟨used, hused, hsupply⟩
  rcases h.base with ⟨disk, hdisk, hcontent, hsize⟩
  rw [hbuffer, List.append_nil] at hcontent
  exact {
    keeps := {
      fdOpen := h.fdOpen
      maxFiles_pos := h.maxFiles_pos
      base := by
        apply Exists.intro (disk ++ msg)
        constructor
        · simp [State.wrote, State.appendBase, hdisk, hcomplete.written]
        · constructor
          · simp [State.wrote, State.appendBase, hbuffer, hcontent]
          · simp [State.wrote, hsize, hcomplete.written]
      backups := by
        intro i
        have hsame : (s.wrote e).files (i + 1) = s.files (i + 1) := by
          simp [State.wrote, State.appendBase]
        rw [hsame]
        exact h.backups i
      faultless := h.faultless.of_suffix ⟨used, hused⟩ (List.suffix_refl _)
        (List.suffix_refl _) (List.suffix_refl _) }
    maxSize := rfl
    maxFiles := rfl
    supply_le := by
      rw [hused, supply_append]
      simp only [State.wrote, State.appendBase]
      omega }

theorem store_logged {a : Archive UInt8} {s t : State} {msg : Bytes} (h : Keeps a s)
    (ht : s.store msg = some t) : Logged (a.append msg) msg.length s t := by
  unfold State.store at ht
  split at ht
  · -- longer than the buffer
    rw [Option.bind_eq_some_iff] at ht
    rcases ht with ⟨u, hu, ht⟩
    have hflush := flushBuffer_flushed h.faultless h.fdOpen hu
    have hlog := hflush.logged h
    have hdirect := writeDirect_logged hlog.keeps hflush.buffer ht
    simpa using hlog.trans hdirect
  · split at ht
    · rw [Option.map_eq_some_iff] at ht
      rcases ht with ⟨u, hu, rfl⟩
      have hlog := flushBuffer_logged h hu
      simpa using hlog.trans (appendBuffer_logged hlog.keeps msg)
    · rw [Option.some.injEq] at ht
      subst ht
      exact appendBuffer_logged h msg

/-- `sink_it_` logs its message to the archive: its rotation check, made before
the buffered bytes are on disk, is the check of the archive. -/
theorem sinkIt_logged {a : Archive UInt8} {s t : State} {msg : Bytes} (h : Keeps a s)
    (ht : s.sinkIt msg = some t) : Logged (a.log s.maxSize msg) msg.length s t := by
  have hopen : ¬ s.fdOpen = false := by simp [h.fdOpen]
  rw [State.sinkIt, if_neg hopen, Option.bind_eq_some_iff] at ht
  rcases ht with ⟨u, hu, ht⟩
  unfold State.rotateFor at hu
  unfold Archive.log
  rw [h.size] at hu
  split at hu
  · rename_i hfull
    have hrotate := rotateFiles_logged h hu
    rw [if_pos hfull]
    simpa using hrotate.trans (store_logged hrotate.keeps ht)
  · rename_i hfits
    rw [Option.some.injEq] at hu
    subst hu
    rw [if_neg hfits]
    exact store_logged h ht

/-! ## Every call returns -/

theorem store_returns {a : Archive UInt8} {s : State} (h : Keeps a s) (msg : Bytes)
    (hsupply : s.buffer.length + msg.length ≤ supply s.writes) : ∃ t, s.store msg = some t := by
  unfold State.store
  rcases flushBuffer_returns h.faultless (by omega) with ⟨u, hu⟩
  rw [hu]
  split
  · have hflush := flushBuffer_flushed h.faultless h.fdOpen hu
    have hle := hflush.supply_le
    rcases flushLoop_returns msg u.errno hflush.faultless.writes (by omega) with
      ⟨e, he⟩
    rw [Option.bind_some, State.writeDirect, if_pos (hflush.fdOpen.trans h.fdOpen),
      directLoop_eq_flushLoop _ _ hflush.faultless.writes, he]
    exact ⟨_, rfl⟩
  · split
    · exact ⟨_, rfl⟩
    · exact ⟨_, rfl⟩

theorem sinkIt_returns {a : Archive UInt8} {s : State} (h : Keeps a s) (msg : Bytes)
    (hsupply : s.buffer.length + msg.length ≤ supply s.writes) :
    ∃ t, s.sinkIt msg = some t := by
  have hopen : ¬ s.fdOpen = false := by simp [h.fdOpen]
  rw [State.sinkIt, if_neg hopen, State.rotateFor]
  split
  · rcases rotateFiles_returns h.faultless (by omega) with ⟨u, hu⟩
    have hrotate := rotateFiles_logged h hu
    have hle := hrotate.supply_le
    rcases store_returns hrotate.keeps msg (by omega) with ⟨t, ht⟩
    exact ⟨t, by rw [hu, Option.bind_some, ht]⟩
  · rcases store_returns h msg hsupply with ⟨t, ht⟩
    exact ⟨t, by rw [Option.bind_some, ht]⟩

/-! ## Sequences of calls -/

/-- The messages of a sequence of calls. -/
def messagesOf (cs : List Call) : List Bytes :=
  cs.filterMap Call.message

@[simp]
theorem messagesOf_sinkIt (msg : Bytes) (cs : List Call) :
    messagesOf (.sinkIt msg :: cs) = msg :: messagesOf cs :=
  rfl

@[simp]
theorem messagesOf_flush (cs : List Call) : messagesOf (.flush :: cs) = messagesOf cs :=
  rfl

theorem calls_logged {a : Archive UInt8} {s t : State} {cs : List Call} (h : Keeps a s)
    (ht : State.calls cs s = some t) :
    Logged ((messagesOf cs).foldl (Archive.log s.maxSize) a) (messagesOf cs).flatten.length
      s t := by
  induction cs generalizing a s with
  | nil =>
      simp only [State.calls, Option.some.injEq] at ht
      subst ht
      exact Logged.refl h
  | cons c cs ih =>
      simp only [State.calls, Option.bind_eq_some_iff] at ht
      rcases ht with ⟨u, hu, ht⟩
      cases c with
      | sinkIt msg =>
          have hlog := sinkIt_logged h hu
          have hrest := ih hlog.keeps ht
          rw [hlog.maxSize] at hrest
          simpa using hlog.trans hrest
      | flush =>
          have hlog := flushBuffer_logged h hu
          have hrest := ih hlog.keeps ht
          rw [hlog.maxSize] at hrest
          simpa using hlog.trans hrest

theorem calls_returns {a : Archive UInt8} {s : State} (cs : List Call) (h : Keeps a s)
    (hsupply : s.buffer.length + (messagesOf cs).flatten.length ≤ supply s.writes) :
    ∃ t, State.calls cs s = some t := by
  induction cs generalizing a s with
  | nil => exact ⟨s, rfl⟩
  | cons c cs ih =>
      cases c with
      | sinkIt msg =>
          rw [messagesOf_sinkIt, List.flatten_cons, List.length_append] at hsupply
          rcases sinkIt_returns h msg (by omega) with ⟨u, hu⟩
          have hlog := sinkIt_logged h hu
          have hle := hlog.supply_le
          rcases ih hlog.keeps (by omega) with ⟨t, ht⟩
          exact ⟨t, by simp only [State.calls, State.call, hu, Option.bind_some, ht]⟩
      | flush =>
          rw [messagesOf_flush] at hsupply
          rcases flushBuffer_returns h.faultless (by omega) with ⟨u, hu⟩
          have hlog := flushBuffer_logged h hu
          have hle := hlog.supply_le
          rcases ih hlog.keeps (by omega) with ⟨t, ht⟩
          exact ⟨t, by simp only [State.calls, State.call, hu, Option.bind_some, ht]⟩

/-! ## The end of the log -/

/-- Only the base file exists, if any. -/
def baseOnly (initial : Option Bytes) : Nat → Option Bytes
  | 0 => initial
  | _ + 1 => none

/-- What the constructor keeps of the base file. -/
def keptAtOpen (truncate : Bool) (initial : Option Bytes) : Bytes :=
  if truncate then [] else initial.getD []

/-- The archive that a limit and the messages determine. -/
def archiveOf (limit : Nat) (found : Bytes) (msgs : List Bytes) : Archive UInt8 :=
  msgs.foldl (Archive.log limit) (Archive.start found)

/-- What the files hold after a final flush: the newest generations of the
archive, which cuts the log between messages. -/
structure KeepsTail (backups limit : Nat) (found : Bytes) (msgs : List Bytes)
    (files : Nat → Option Bytes) : Prop where
  suffix : Archive.retained backups files <:+ found ++ msgs.flatten
  generations : Archive.Holds backups (archiveOf limit found msgs) files
  all_messages : (archiveOf limit found msgs).messages = msgs
  found_first : Archive.FoundAtStart found (archiveOf limit found msgs)
  backups_le : ∀ i, backups < i → files i = none
  bounded : 0 < limit → Archive.Bounded limit (archiveOf limit found msgs)

theorem construct_keeps {maxSize maxFiles : Nat} {truncate : Bool} {initial : Option Bytes}
    {writes : List WriteResult} {opens renames unlinks : List Bool}
    (hwrites : ∀ r ∈ writes, r.Progresses) (hopens : ∀ ok ∈ opens, ok = true)
    (hrenames : ∀ ok ∈ renames, ok = true) (hunlinks : ∀ ok ∈ unlinks, ok = true) :
    Keeps (Archive.start (keptAtOpen truncate initial))
      (State.construct maxSize maxFiles truncate (baseOnly initial) writes opens renames
        unlinks) := by
  simp only [State.construct, State.openFile, headD_true hopens, if_true]
  exact {
    fdOpen := rfl
    maxFiles_pos := by
      simp only
      split <;> omega
    base := ⟨keptAtOpen truncate initial, by simp [keptAtOpen, baseOnly],
      by simp [Archive.start, Generation.content], by simp [keptAtOpen, baseOnly]⟩
    backups := by
      intro i
      simp [baseOnly, Archive.start]
    faultless := ⟨hwrites, fun ok hok => hopens ok (List.mem_of_mem_tail hok), hrenames,
      hunlinks⟩ }

theorem construct_init (maxSize maxFiles : Nat) (truncate : Bool)
    (files : Nat → Option Bytes) (writes : List WriteResult)
    (opens renames unlinks : List Bool) :
    (State.construct maxSize maxFiles truncate files writes opens renames unlinks).maxSize =
        maxSize ∧
      (State.construct maxSize maxFiles truncate files writes opens renames unlinks).maxFiles =
        (if maxFiles = 0 then 1 else maxFiles) ∧
      (State.construct maxSize maxFiles truncate files writes opens renames unlinks).buffer =
        [] ∧
      (State.construct maxSize maxFiles truncate files writes opens renames unlinks).writes =
        writes := by
  simp only [State.construct, State.openFile]
  split <;> exact ⟨rfl, rfl, rfl, rfl⟩

theorem Keeps.keepsTail {limit : Nat} {found : Bytes} {msgs : List Bytes} {s : State}
    (h : Keeps (archiveOf limit found msgs) s) (hbuffer : s.buffer = []) :
    KeepsTail s.maxFiles limit found msgs s.files := by
  have hmsgs : (archiveOf limit found msgs).messages = msgs := by
    rw [archiveOf, Archive.messages_foldl]
    rfl
  have hfound : Archive.FoundAtStart found (archiveOf limit found msgs) :=
    Archive.foundAtStart_foldl (Archive.foundAtStart_start found) limit msgs
  have hholds : Archive.Holds s.maxFiles (archiveOf limit found msgs) s.files := by
    intro i
    cases i with
    | zero =>
        rcases h.base with ⟨disk, hdisk, hcontent, _⟩
        rw [hbuffer, List.append_nil] at hcontent
        simp [hdisk, hcontent, Archive.all]
    | succ i => exact h.backups i
  constructor
  · have hsuffix := Archive.retained_suffix hholds
    rwa [Archive.text_eq hfound, hmsgs] at hsuffix
  · exact hholds
  · exact hmsgs
  · exact hfound
  · intro i hi
    rw [hholds i, if_neg (by omega)]
  · intro hlimit
    exact Archive.bounded_foldl hlimit (Archive.bounded_start limit found) msgs

/-- Without faults the sink returns from every sequence of calls once `write` has
made progress often enough, and after a final flush the files are the end of the
log. -/
theorem file_sink_keeps_tail (maxSize maxFiles : Nat) (truncate : Bool)
    (initial : Option Bytes) (writes : List WriteResult) (opens renames unlinks : List Bool)
    (cs : List Call) (hwrites : ∀ r ∈ writes, r.Progresses)
    (hopens : ∀ ok ∈ opens, ok = true) (hrenames : ∀ ok ∈ renames, ok = true)
    (hunlinks : ∀ ok ∈ unlinks, ok = true) :
    ((messagesOf cs).flatten.length ≤ supply writes →
      ∃ s, State.callsAndFlush cs (State.construct maxSize maxFiles truncate
        (baseOnly initial) writes opens renames unlinks) = some s) ∧
    ∀ s, State.callsAndFlush cs (State.construct maxSize maxFiles truncate
        (baseOnly initial) writes opens renames unlinks) = some s →
      KeepsTail (if maxFiles = 0 then 1 else maxFiles) maxSize (keptAtOpen truncate initial)
        (messagesOf cs) s.files := by
  have hkeeps : Keeps (Archive.start (keptAtOpen truncate initial))
      (State.construct maxSize maxFiles truncate (baseOnly initial) writes opens renames
        unlinks) :=
    construct_keeps hwrites hopens hrenames hunlinks
  have hinit := construct_init maxSize maxFiles truncate (baseOnly initial) writes opens
    renames unlinks
  generalize State.construct maxSize maxFiles truncate (baseOnly initial) writes opens renames
    unlinks = s₀ at hkeeps hinit
  rcases hinit with ⟨hsize, hfiles, hbuffer, hwrites₀⟩
  constructor
  · intro hsupply
    rcases calls_returns cs hkeeps (by rw [hbuffer, hwrites₀]; simpa using hsupply)
      with ⟨t, ht⟩
    have hlog := calls_logged hkeeps ht
    have hle := hlog.supply_le
    rw [hbuffer, hwrites₀, List.length_nil] at hle
    rcases flushBuffer_returns hlog.keeps.faultless (by omega) with ⟨u, hu⟩
    exact ⟨u, by rw [State.callsAndFlush, ht, Option.bind_some, hu]⟩
  · intro u hu
    rw [State.callsAndFlush, Option.bind_eq_some_iff] at hu
    rcases hu with ⟨t, ht, hu⟩
    have hlog := calls_logged hkeeps ht
    have hflush := flushBuffer_flushed hlog.keeps.faultless hlog.keeps.fdOpen hu
    have hend := hflush.logged hlog.keeps
    have hkeepsEnd := hend.keeps
    rw [hsize] at hkeepsEnd
    rw [← hfiles, ← hlog.maxFiles, ← hend.maxFiles]
    exact hkeepsEnd.keepsTail hflush.buffer

/-- Short and interrupted writes, a message larger than the limit, and a third
rotation that drops the file found at the start. -/
def rotatingWrites : List WriteResult :=
  [.count 1, .fail .eintr, .count 5, .count 1, .count 1, .count 1, .count 4, .count 1]

def rotatingCalls : List Call :=
  [.sinkIt [1, 2], .sinkIt [3, 4], .flush, .sinkIt [5], .sinkIt [6, 7, 8, 9], .sinkIt [10]]

theorem file_sink_keeps_tail_rotating :
    ∃ s : State, (s.files 0, s.files 1, s.files 2, s.files 3) =
        (some [10], some [6, 7, 8, 9], some [3, 4, 5], none) ∧
      KeepsTail 2 3 [9] [[1, 2], [3, 4], [5], [6, 7, 8, 9], [10]] s.files := by
  have hrun : (State.callsAndFlush rotatingCalls (State.construct 3 2 false
      (baseOnly (some [9])) rotatingWrites [] [] [])).map
        (fun s => (s.files 0, s.files 1, s.files 2, s.files 3)) =
      some (some [10], some [6, 7, 8, 9], some [3, 4, 5], none) := by decide
  rcases Option.map_eq_some_iff.mp hrun with ⟨s, hs, hfiles⟩
  have hprog : ∀ r ∈ rotatingWrites, r.Progresses := by
    simp [rotatingWrites, WriteResult.Progresses]
  exact ⟨s, hfiles, (file_sink_keeps_tail 3 2 false (some [9]) rotatingWrites [] [] []
    rotatingCalls hprog (by simp) (by simp) (by simp)).2 s hs⟩

end FileSink
end Log
end DtCore
