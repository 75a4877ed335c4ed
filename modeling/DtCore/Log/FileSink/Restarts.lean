import DtCore.Log.FileSink.Tail

/-!
# The log survives restarts

A program that is started again opens its sink on the files that the sinks before
it left.  The destructor flushes the buffer, and the constructor takes the size of
the base file from `stat`, so a session continues the archive where the session
before it stopped: the limit counts the bytes of both, and a rotation finds the
older backups in their slots.

A session that truncates gives up the text of the base file and nothing else.

Main definitions:

- `State.destruct`: the destructor.
- `Session.run` and `runSessions`: sinks that follow each other on the same files.
- `Session.archive`: what a session does to the archive.
- `Leaves`: the files between two sessions.

Main results:

- Theorem `session_leaves`: the files of a session hold the archive it continued.
- Theorem `log_survives_restarts`: without faults the files after all sessions
  hold the end of the log of all of them.
-/

namespace DtCore
namespace Log
namespace FileSink

open Foundation

/-! ## Sessions -/

/-- The destructor; a sink that is not open has nothing to flush. -/
def State.destruct (s : State) : Option State :=
  if s.fdOpen then s.flushBuffer.map State.close else some s

/-- One sink from its constructor to its destructor: the arguments of the
constructor, the calls and the results of the system calls. -/
structure Session where
  maxSize : Nat
  truncate : Bool
  calls : List Call
  writes : List WriteResult
  opens : List Bool
  renames : List Bool
  unlinks : List Bool

/-- The sink of a session at its start. -/
def Session.construct (x : Session) (maxFiles : Nat) (files : Nat → Option Bytes) : State :=
  State.construct x.maxSize maxFiles x.truncate files x.writes x.opens x.renames x.unlinks

/-- The files after a session, when all of its calls return. -/
def Session.run (maxFiles : Nat) (x : Session) (files : Nat → Option Bytes) :
    Option (Nat → Option Bytes) :=
  ((State.calls x.calls (x.construct maxFiles files)).bind State.destruct).map State.files

/-- The files after sessions that follow each other. -/
def runSessions (maxFiles : Nat) : List Session → (Nat → Option Bytes) →
    Option (Nat → Option Bytes)
  | [], files => some files
  | x :: xs, files => (x.run maxFiles files).bind (runSessions maxFiles xs)

/-- No `open`, `rename` or `unlink` of the session fails, and every `write` makes
progress or is interrupted. -/
structure Session.Faultless (x : Session) : Prop where
  writes : ∀ r ∈ x.writes, r.Progresses
  opens : ∀ ok ∈ x.opens, ok = true
  renames : ∀ ok ∈ x.renames, ok = true
  unlinks : ∀ ok ∈ x.unlinks, ok = true

/-- `write` makes progress often enough for all bytes of the session. -/
def Session.Supplied (x : Session) : Prop :=
  (messagesOf x.calls).flatten.length ≤ supply x.writes

/-! ## What a session does to the archive -/

/-- Without its current text. -/
def truncated (a : Archive UInt8) : Archive UInt8 :=
  { a with current := { found := [], msgs := [] } }

/-- The archive that the constructor finds. -/
def Session.opened (x : Session) (a : Archive UInt8) : Archive UInt8 :=
  if x.truncate then truncated a else a

/-- The archive after a session. -/
def Session.archive (a : Archive UInt8) (x : Session) : Archive UInt8 :=
  (messagesOf x.calls).foldl (Archive.log x.maxSize) (x.opened a)

/-- The files between two sessions hold an archive; a base file that is missing
counts as empty. -/
structure Leaves (backups : Nat) (a : Archive UInt8) (files : Nat → Option Bytes) : Prop where
  base : (files 0).getD [] = a.current.content
  older : ∀ i, files (i + 1) =
    if i + 1 ≤ backups then (a.older[i]?).map Generation.content else none

/-- Before the first session there may be a base file. -/
theorem leaves_baseOnly (backups : Nat) (found : Option Bytes) :
    Leaves backups (Archive.start (found.getD [])) (baseOnly found) where
  base := by simp [baseOnly, Archive.start, Generation.content]
  older := by
    intro i
    simp [baseOnly, Archive.start]

theorem Leaves.holds {backups : Nat} {a : Archive UInt8} {files : Nat → Option Bytes}
    (h : Leaves backups a files) (hbase : (files 0).isSome) : Archive.Holds backups a files := by
  intro i
  cases i with
  | zero =>
      rcases Option.isSome_iff_exists.mp hbase with ⟨disk, hdisk⟩
      have hcontent := h.base
      rw [hdisk, Option.getD_some] at hcontent
      simp [hdisk, hcontent, Archive.all]
  | succ i => exact h.older i

/-- A missing base file reads like an empty one. -/
theorem Leaves.retained_suffix {backups : Nat} {a : Archive UInt8}
    {files : Nat → Option Bytes} (h : Leaves backups a files) :
    Archive.retained backups files <:+ a.text := by
  have hholds : Archive.Holds backups a
      (Function.update files 0 (some ((files 0).getD []))) := by
    intro i
    cases i with
    | zero => simp [h.base, Archive.all]
    | succ i => simpa [Archive.all] using h.older i
  have hsame : Archive.retained backups (Function.update files 0 (some ((files 0).getD []))) =
      Archive.retained backups files := by
    unfold Archive.retained
    apply List.flatMap_congr
    intro i _
    cases i with
    | zero => simp
    | succ i => simp
  rw [← hsame]
  exact Archive.retained_suffix hholds

/-! ## One session -/

/-- The backups that the constructor settles on. -/
def backupsOf (maxFiles : Nat) : Nat :=
  if maxFiles = 0 then 1 else maxFiles

theorem construct_leaves {maxFiles : Nat} {x : Session} {a : Archive UInt8}
    {files : Nat → Option Bytes} (hx : x.Faultless) (h : Leaves (backupsOf maxFiles) a files) :
    Keeps (x.opened a) (x.construct maxFiles files) := by
  have hbase : (if x.truncate then [] else (files 0).getD []) = (x.opened a).current.content := by
    unfold Session.opened
    cases x.truncate with
    | true => simp [truncated, Generation.content]
    | false => simpa using h.base
  have holder : (x.opened a).older = a.older := by
    unfold Session.opened
    split <;> rfl
  simp only [Session.construct, State.construct, State.openFile, headD_true hx.opens, if_true]
  exact {
    fdOpen := rfl
    maxFiles_pos := by
      simp only
      split <;> omega
    base := ⟨if x.truncate then [] else (files 0).getD [], by simp, by simpa using hbase, by simp⟩
    backups := by
      intro i
      have hslot := h.older i
      rw [← holder] at hslot
      simp only [Function.update_of_ne (Nat.succ_ne_zero i)]
      exact hslot
    faultless := ⟨hx.writes, fun ok hok => hx.opens ok (List.mem_of_mem_tail hok), hx.renames,
      hx.unlinks⟩ }

/-- The destructor leaves the whole archive on disk. -/
theorem destruct_leaves {a : Archive UInt8} {s t : State} (h : Keeps a s)
    (ht : s.destruct = some t) : Leaves s.maxFiles a t.files := by
  rw [State.destruct, if_pos h.fdOpen, Option.map_eq_some_iff] at ht
  rcases ht with ⟨u, hu, rfl⟩
  have hflush := flushBuffer_flushed h.faultless h.fdOpen hu
  have hkeeps := (hflush.logged h).keeps
  rcases hkeeps.base with ⟨disk, hdisk, hcontent, _⟩
  rw [hflush.buffer, List.append_nil] at hcontent
  constructor
  · simp [State.close, hdisk, hcontent]
  · intro i
    rw [← hflush.maxFiles]
    exact hkeeps.backups i

theorem destruct_returns {s : State} {a : Archive UInt8} (h : Keeps a s)
    (hsupply : s.buffer.length ≤ supply s.writes) : ∃ t, s.destruct = some t := by
  rcases flushBuffer_returns h.faultless hsupply with ⟨u, hu⟩
  exact ⟨u.close, by rw [State.destruct, if_pos h.fdOpen, hu, Option.map_some]⟩

/-- The files of a session hold the archive that it continued. -/
theorem session_leaves {maxFiles : Nat} {x : Session} {a : Archive UInt8}
    {files files' : Nat → Option Bytes} (hx : x.Faultless)
    (h : Leaves (backupsOf maxFiles) a files) (hrun : x.run maxFiles files = some files') :
    Leaves (backupsOf maxFiles) (x.archive a) files' := by
  have hkeeps := construct_leaves hx h
  rcases construct_init x.maxSize maxFiles x.truncate files x.writes x.opens x.renames x.unlinks
    with ⟨hsize, hfiles, _, _⟩
  unfold Session.run at hrun
  rw [Option.map_eq_some_iff] at hrun
  rcases hrun with ⟨t, ht, rfl⟩
  rw [Option.bind_eq_some_iff] at ht
  rcases ht with ⟨s, hs, ht⟩
  have hlog := calls_logged hkeeps hs
  have hleaves := destruct_leaves hlog.keeps ht
  have hbackups : s.maxFiles = backupsOf maxFiles := hlog.maxFiles.trans hfiles
  have harchive : (messagesOf x.calls).foldl
      (Archive.log (x.construct maxFiles files).maxSize) (x.opened a) = x.archive a := by
    rw [Session.archive, ← hsize]
    rfl
  rwa [hbackups, harchive] at hleaves

theorem session_returns {maxFiles : Nat} {x : Session} {a : Archive UInt8}
    {files : Nat → Option Bytes} (hx : x.Faultless) (h : Leaves (backupsOf maxFiles) a files)
    (hsupply : x.Supplied) : ∃ files', x.run maxFiles files = some files' := by
  have hkeeps := construct_leaves hx h
  rcases construct_init x.maxSize maxFiles x.truncate files x.writes x.opens x.renames x.unlinks
    with ⟨_, _, hbuffer, hwrites⟩
  have hbuffer' : (x.construct maxFiles files).buffer = [] := hbuffer
  have hwrites' : (x.construct maxFiles files).writes = x.writes := hwrites
  unfold Session.Supplied at hsupply
  rcases calls_returns x.calls hkeeps (by rw [hbuffer', hwrites']; simpa using hsupply)
    with ⟨s, hs⟩
  have hlog := calls_logged hkeeps hs
  have hle := hlog.supply_le
  rw [hbuffer', hwrites', List.length_nil] at hle
  rcases destruct_returns hlog.keeps (by omega) with ⟨t, ht⟩
  exact ⟨t.files, by rw [Session.run, hs, Option.bind_some, ht, Option.map_some]⟩

/-! ## All sessions -/

theorem sessions_leave {maxFiles : Nat} {xs : List Session} {a : Archive UInt8}
    {files files' : Nat → Option Bytes} (hxs : ∀ x ∈ xs, x.Faultless)
    (h : Leaves (backupsOf maxFiles) a files) (hrun : runSessions maxFiles xs files = some files') :
    Leaves (backupsOf maxFiles) (xs.foldl Session.archive a) files' := by
  induction xs generalizing a files with
  | nil =>
      simp only [runSessions, Option.some.injEq] at hrun
      subst hrun
      exact h
  | cons x xs ih =>
      simp only [runSessions, Option.bind_eq_some_iff] at hrun
      rcases hrun with ⟨mid, hmid, hrun⟩
      rw [List.forall_mem_cons] at hxs
      exact ih hxs.2 (session_leaves hxs.1 h hmid) hrun

theorem sessions_return {maxFiles : Nat} {xs : List Session} {a : Archive UInt8}
    {files : Nat → Option Bytes} (hxs : ∀ x ∈ xs, x.Faultless)
    (h : Leaves (backupsOf maxFiles) a files) (hsupply : ∀ x ∈ xs, x.Supplied) :
    ∃ files', runSessions maxFiles xs files = some files' := by
  induction xs generalizing a files with
  | nil => exact ⟨files, rfl⟩
  | cons x xs ih =>
      rw [List.forall_mem_cons] at hxs hsupply
      rcases session_returns hxs.1 h hsupply.1 with ⟨mid, hmid⟩
      rcases ih hxs.2 (session_leaves hxs.1 h hmid) hsupply.2 with ⟨files', hrun⟩
      exact ⟨files', by rw [runSessions, hmid, Option.bind_some, hrun]⟩

/-- What all sessions logged. -/
def loggedBy (xs : List Session) : Bytes :=
  xs.flatMap (fun x => (messagesOf x.calls).flatten)

/-- Sessions that append lose nothing of the text. -/
theorem text_sessions {xs : List Session} (a : Archive UInt8)
    (happend : ∀ x ∈ xs, x.truncate = false) :
    (xs.foldl Session.archive a).text = a.text ++ loggedBy xs := by
  induction xs generalizing a with
  | nil => simp [loggedBy]
  | cons x xs ih =>
      rw [List.forall_mem_cons] at happend
      have hopened : x.opened a = a := by simp [Session.opened, happend.1]
      rw [List.foldl_cons, ih _ happend.2, Session.archive, Archive.text_foldl, hopened,
        List.append_assoc]
      rfl

theorem bounded_truncated {limit : Nat} {a : Archive UInt8} (h : Archive.Bounded limit a) :
    Archive.Bounded limit (truncated a) := by
  intro g hg
  rcases List.mem_cons.mp hg with rfl | hg
  · exact Or.inr (Or.inl rfl)
  · exact h g (List.mem_cons_of_mem _ hg)

/-- The limit holds across sessions, also for a file that several of them wrote. -/
theorem bounded_sessions {limit : Nat} {xs : List Session} {a : Archive UInt8}
    (hlimit : 0 < limit) (hsize : ∀ x ∈ xs, x.maxSize = limit) (h : Archive.Bounded limit a) :
    Archive.Bounded limit (xs.foldl Session.archive a) := by
  induction xs generalizing a with
  | nil => exact h
  | cons x xs ih =>
      rw [List.forall_mem_cons] at hsize
      apply ih hsize.2
      rw [Session.archive, hsize.1]
      apply Archive.bounded_foldl hlimit
      unfold Session.opened
      split
      · exact bounded_truncated h
      · exact h

/-- Without faults every sequence of sinks on the same files returns once `write`
has made progress often enough.  The files then hold the newest generations of the
archive that the sessions continued; if none of them truncated, this is the end of
everything that was ever logged, and one limit for all sessions bounds every file. -/
theorem log_survives_restarts (maxFiles : Nat) (xs : List Session) (a : Archive UInt8)
    (files : Nat → Option Bytes) (hxs : ∀ x ∈ xs, x.Faultless)
    (h : Leaves (backupsOf maxFiles) a files) :
    ((∀ x ∈ xs, x.Supplied) → ∃ files', runSessions maxFiles xs files = some files') ∧
    ∀ files', runSessions maxFiles xs files = some files' →
      Leaves (backupsOf maxFiles) (xs.foldl Session.archive a) files' ∧
      ((∀ x ∈ xs, x.truncate = false) →
        Archive.retained (backupsOf maxFiles) files' <:+ a.text ++ loggedBy xs) ∧
      ∀ limit, 0 < limit → (∀ x ∈ xs, x.maxSize = limit) → Archive.Bounded limit a →
        Archive.Bounded limit (xs.foldl Session.archive a) := by
  constructor
  · exact sessions_return hxs h
  · intro files' hrun
    have hleaves := sessions_leave hxs h hrun
    constructor
    · exact hleaves
    · constructor
      · intro happend
        rw [← text_sessions a happend]
        exact hleaves.retained_suffix
      · intro limit hlimit hsize hbounded
        exact bounded_sessions hlimit hsize hbounded

/-- The second session fills the base file that the first one began and rotates;
the third one drops what the second one left in the base file. -/
def threeSessions : List Session :=
  [{ maxSize := 4, truncate := false, calls := [.sinkIt [1, 2], .flush, .sinkIt [3]],
     writes := [.count 1, .count 4, .fail .eintr, .count 1], opens := [], renames := [],
     unlinks := [] },
   { maxSize := 4, truncate := false, calls := [.sinkIt [4], .sinkIt [5, 6]],
     writes := [.count 1, .count 2], opens := [], renames := [], unlinks := [] },
   { maxSize := 4, truncate := true, calls := [.sinkIt [7]],
     writes := [.count 1], opens := [], renames := [], unlinks := [] }]

theorem log_survives_restarts_thrice :
    ∃ files : Nat → Option Bytes, (files 0, files 1, files 2) =
        (some [7], some [1, 2, 3, 4], none) ∧
      Leaves 2 (threeSessions.foldl Session.archive (Archive.start [])) files := by
  have hrun : (runSessions 2 threeSessions (baseOnly none)).map
      (fun files => (files 0, files 1, files 2)) =
        some (some [7], some [1, 2, 3, 4], none) := by decide
  rcases Option.map_eq_some_iff.mp hrun with ⟨files, hfiles, hcontent⟩
  have hfaultless : ∀ x ∈ threeSessions, x.Faultless := by
    intro x hx
    simp only [threeSessions, List.mem_cons, List.not_mem_nil, or_false] at hx
    rcases hx with rfl | rfl | rfl <;>
      exact ⟨by simp [WriteResult.Progresses], by simp, by simp, by simp⟩
  exact ⟨files, hcontent, ((log_survives_restarts 2 threeSessions (Archive.start [])
    (baseOnly none) hfaultless (leaves_baseOnly 2 none)).2 files hfiles).1⟩

end FileSink
end Log
end DtCore
