import DtCore.Log.FileSink.Model

/-!
# What the parts of the file sink do without faults

When `open`, `rename` and `unlink` succeed and every `write` makes progress or is
interrupted, a write loop that ends has written all of its data, and a rotation
moves every file one slot up.  The loops end as soon as the results hold one
positive count for every byte.

Main results:

- Theorem `flushBuffer_flushed`: `FlushBuffer` moves the buffer to the file.
- Theorem `rotateFiles_rotated`: `RotateFiles` moves the slots and opens an empty
  base file.
-/

namespace DtCore
namespace Log
namespace FileSink

open Foundation

/-! ## Results of `write` -/

/-- A positive count, or a call that was interrupted. -/
def WriteResult.Progresses : WriteResult → Prop
  | .count n => 0 < n
  | .fail errno => errno = .eintr

/-- The number of results that are counts. -/
def supply : List WriteResult → Nat
  | [] => 0
  | .count _ :: rs => supply rs + 1
  | .fail _ :: rs => supply rs

theorem supply_append (rs rs' : List WriteResult) :
    supply (rs ++ rs') = supply rs + supply rs' := by
  induction rs with
  | nil => simp [supply]
  | cons r rs ih =>
      cases r with
      | count n =>
          simp only [List.cons_append, supply, ih]
          omega
      | fail errno => simp only [List.cons_append, supply, ih]

/-- A write loop wrote all of its data and used at most one count for each
byte. -/
structure Complete (rs : List WriteResult) (data : Bytes) (e : WriteEnd) : Prop where
  written : e.written = data
  used : ∃ used, rs = used ++ e.writes ∧ supply used ≤ data.length

theorem Complete.count {rs : List WriteResult} {data : Bytes} {n : Nat} {e : WriteEnd}
    (hdata : data ≠ []) (h : Complete rs (data.drop (n + 1)) e) :
    Complete (.count (n + 1) :: rs) data (e.after (data.take (n + 1))) := by
  rcases h.used with ⟨used, hrs, hsupply⟩
  have hpos : 0 < data.length := List.length_pos_iff.mpr hdata
  constructor
  · simp [WriteEnd.after, h.written]
  · apply Exists.intro (.count (n + 1) :: used)
    constructor
    · simp [WriteEnd.after, hrs]
    · rw [List.length_drop] at hsupply
      simp only [supply]
      omega

theorem Complete.interrupted {rs : List WriteResult} {data : Bytes} {e : WriteEnd}
    (h : Complete rs data e) : Complete (.fail .eintr :: rs) data e := by
  rcases h.used with ⟨used, hrs, hsupply⟩
  exact ⟨h.written, .fail .eintr :: used, by simp [hrs], hsupply⟩

theorem complete_nil (rs : List WriteResult) (errno : Errno) :
    Complete rs [] { written := [], errno := errno, stderr := [], writes := rs } :=
  ⟨rfl, [], rfl, Nat.le_refl _⟩

section FlushLoop

variable (rs : List WriteResult) (b : UInt8) (data : Bytes) (errno : Errno)

theorem flushLoop_nil :
    flushLoop rs [] errno =
      some { written := [], errno := errno, stderr := [], writes := rs } := by
  unfold flushLoop
  rfl

theorem flushLoop_count (n : Nat) :
    flushLoop (.count (n + 1) :: rs) (b :: data) errno =
      (flushLoop rs ((b :: data).drop (n + 1)) errno).map
        (WriteEnd.after ((b :: data).take (n + 1))) := by
  simp only [flushLoop]

theorem flushLoop_interrupted :
    flushLoop (.fail .eintr :: rs) (b :: data) errno = flushLoop rs (b :: data) .eintr := by
  simp only [flushLoop]

end FlushLoop

/-- `FlushBuffer`'s loop loses nothing while every call makes progress. -/
theorem flushLoop_complete {rs : List WriteResult} {data : Bytes} {errno : Errno}
    {e : WriteEnd} (hprog : ∀ r ∈ rs, r.Progresses)
    (he : flushLoop rs data errno = some e) : Complete rs data e := by
  induction rs generalizing data errno e with
  | nil =>
      cases data with
      | nil =>
          rw [flushLoop_nil, Option.some.injEq] at he
          exact he ▸ complete_nil [] errno
      | cons b data => simp [flushLoop] at he
  | cons r rs ih =>
      rw [List.forall_mem_cons] at hprog
      cases data with
      | nil =>
          rw [flushLoop_nil, Option.some.injEq] at he
          exact he ▸ complete_nil _ errno
      | cons b data =>
          match r, hprog.1 with
          | .count (n + 1), _ =>
              rw [flushLoop_count, Option.map_eq_some_iff] at he
              rcases he with ⟨e', he', rfl⟩
              exact (ih hprog.2 he').count (List.cons_ne_nil _ _)
          | .fail .eintr, _ =>
              rw [flushLoop_interrupted] at he
              exact (ih hprog.2 he).interrupted

theorem flushLoop_returns {rs : List WriteResult} (data : Bytes) (errno : Errno)
    (hprog : ∀ r ∈ rs, r.Progresses) (hsupply : data.length ≤ supply rs) :
    ∃ e, flushLoop rs data errno = some e := by
  induction rs generalizing data errno with
  | nil =>
      cases data with
      | nil => exact ⟨_, flushLoop_nil _ _⟩
      | cons b data => simp [supply] at hsupply
  | cons r rs ih =>
      rw [List.forall_mem_cons] at hprog
      cases data with
      | nil => exact ⟨_, flushLoop_nil _ _⟩
      | cons b data =>
          match r, hprog.1 with
          | .count (n + 1), _ =>
              have hrest : ((b :: data).drop (n + 1)).length ≤ supply rs := by
                simp only [supply, List.length_cons] at hsupply
                rw [List.length_drop, List.length_cons]
                omega
              rcases ih _ errno hprog.2 hrest with ⟨e, he⟩
              exact ⟨_, by rw [flushLoop_count, he, Option.map_some]⟩
          | .fail .eintr, _ =>
              rcases ih _ .eintr hprog.2 hsupply with ⟨e, he⟩
              exact ⟨e, by rw [flushLoop_interrupted, he]⟩

/-- While every call makes progress the two loops agree: they only differ on what
they give up on. -/
theorem directLoop_eq_flushLoop {rs : List WriteResult} (data : Bytes) (errno : Errno)
    (hprog : ∀ r ∈ rs, r.Progresses) : directLoop rs data errno = flushLoop rs data errno := by
  induction rs generalizing data errno with
  | nil => cases data <;> simp [directLoop, flushLoop]
  | cons r rs ih =>
      rw [List.forall_mem_cons] at hprog
      cases data with
      | nil => simp [directLoop, flushLoop]
      | cons b data =>
          match r, hprog.1 with
          | .count (n + 1), _ =>
              rw [flushLoop_count, ← ih _ _ hprog.2]
              simp only [directLoop]
          | .fail .eintr, _ =>
              rw [flushLoop_interrupted, ← ih _ _ hprog.2]
              simp only [directLoop]

/-! ## Renaming -/

/-- No call to `open`, `rename` or `unlink` fails and every `write` makes progress
or is interrupted. -/
structure Faultless (s : State) : Prop where
  writes : ∀ r ∈ s.writes, r.Progresses
  opens : ∀ ok ∈ s.opens, ok = true
  renames : ∀ ok ∈ s.renames, ok = true
  unlinks : ∀ ok ∈ s.unlinks, ok = true

/-- What renaming and unlinking leave alone. -/
structure SameSink (s t : State) : Prop where
  fdOpen : t.fdOpen = s.fdOpen
  buffer : t.buffer = s.buffer
  currentSize : t.currentSize = s.currentSize
  maxSize : t.maxSize = s.maxSize
  maxFiles : t.maxFiles = s.maxFiles
  writes : t.writes = s.writes
  opens : t.opens = s.opens
  renames : t.renames <:+ s.renames
  unlinks : t.unlinks <:+ s.unlinks

theorem SameSink.refl (s : State) : SameSink s s :=
  ⟨rfl, rfl, rfl, rfl, rfl, rfl, rfl, List.suffix_refl _, List.suffix_refl _⟩

theorem SameSink.trans {s t u : State} (h : SameSink s t) (h' : SameSink t u) :
    SameSink s u where
  fdOpen := h'.fdOpen.trans h.fdOpen
  buffer := h'.buffer.trans h.buffer
  currentSize := h'.currentSize.trans h.currentSize
  maxSize := h'.maxSize.trans h.maxSize
  maxFiles := h'.maxFiles.trans h.maxFiles
  writes := h'.writes.trans h.writes
  opens := h'.opens.trans h.opens
  renames := h'.renames.trans h.renames
  unlinks := h'.unlinks.trans h.unlinks

theorem rename_same (s : State) (src dst : Nat) : SameSink s (s.rename src dst) := by
  unfold State.rename
  split <;>
    exact ⟨rfl, rfl, rfl, rfl, rfl, rfl, rfl, List.tail_suffix _, List.suffix_refl _⟩

theorem unlink_same (s : State) (i : Nat) : SameSink s (s.unlink i) := by
  unfold State.unlink
  split <;>
    exact ⟨rfl, rfl, rfl, rfl, rfl, rfl, rfl, List.suffix_refl _, List.tail_suffix _⟩

theorem renameBackups_same (n : Nat) (s : State) : SameSink s (State.renameBackups n s) := by
  induction n generalizing s with
  | zero => exact SameSink.refl s
  | succ n ih =>
      simp only [State.renameBackups]
      split
      · exact ((unlink_same s _).trans (rename_same _ _ _)).trans (ih _)
      · exact (rename_same s _ _).trans (ih _)

theorem headD_true {l : List Bool} (h : ∀ ok ∈ l, ok = true) : l.headD true = true := by
  cases l with
  | nil => rfl
  | cons ok l => exact h ok List.mem_cons_self

theorem rename_files {s : State} (h : ∀ ok ∈ s.renames, ok = true) (src dst : Nat) :
    (s.rename src dst).files = renameSlot s.files src dst := by
  unfold State.rename
  rw [headD_true h]
  cases hsrc : s.files src <;> simp [renameSlot, hsrc]

theorem unlink_files {s : State} (h : ∀ ok ∈ s.unlinks, ok = true) (i : Nat) :
    (s.unlink i).files = Function.update s.files i none := by
  unfold State.unlink
  rw [headD_true h]
  cases hi : s.files i with
  | none =>
      have heq : Function.update s.files i none = s.files := by
        rw [← hi, Function.update_eq_self]
      simp [heq]
  | some c => simp

/-- Below the last backup nothing is unlinked. -/
theorem renameBackups_files_below {n : Nat} {s : State} (hn : n < s.maxFiles - 1)
    (h : ∀ ok ∈ s.renames, ok = true) :
    (State.renameBackups n s).files = renameSlots n s.files := by
  induction n generalizing s with
  | zero => rfl
  | succ n ih =>
      have hne : n + 1 ≠ s.maxFiles - 1 := by omega
      have hsame := rename_same s (n + 1) (n + 2)
      simp only [State.renameBackups, if_neg hne]
      rw [ih (by rw [hsame.maxFiles]; omega) (fun ok hok => h ok (hsame.renames.subset hok)),
        rename_files h]
      rfl

/-- The renames of a rotation, together with the one of the base file. -/
theorem renameAll_files {s : State} (hpos : 0 < s.maxFiles)
    (hren : ∀ ok ∈ s.renames, ok = true) (hunl : ∀ ok ∈ s.unlinks, ok = true) :
    s.renameAll.files = rotateSlots s.maxFiles s.files := by
  unfold State.renameAll
  have hrename : ∀ t, SameSink s t →
      (t.rename 0 1).files = renameSlot t.files 0 1 := by
    intro t ht
    exact rename_files (fun ok hok => hren ok (ht.renames.subset hok)) 0 1
  rw [hrename _ (renameBackups_same _ s)]
  unfold rotateSlots
  by_cases hone : s.maxFiles ≤ 1
  · have hzero : s.maxFiles - 1 = 0 := by omega
    rw [if_pos hone, hzero]
    rfl
  · rw [if_neg hone]
    rcases Nat.exists_eq_add_of_le' (show 1 ≤ s.maxFiles - 1 by omega) with ⟨n, hn⟩
    have hunlink := unlink_same s (n + 2)
    have hsame := hunlink.trans (rename_same (s.unlink (n + 2)) (n + 1) (n + 2))
    have hlast : n + 2 = s.maxFiles := by omega
    have hfirst : n + 1 = s.maxFiles - 1 := hn.symm
    rw [hn]
    simp only [State.renameBackups, if_pos hfirst]
    rw [renameBackups_files_below (by rw [hsame.maxFiles]; omega)
        (fun ok hok => hren ok (hsame.renames.subset hok)),
      rename_files (fun ok hok => hren ok (hunlink.renames.subset hok)), unlink_files hunl,
      ← hlast]
    rfl

/-! ## Flushing and rotating -/

/-- What `FlushBuffer` achieves without faults. -/
structure Flushed (s t : State) : Prop where
  fdOpen : t.fdOpen = s.fdOpen
  buffer : t.buffer = []
  currentSize : t.currentSize = s.currentSize + s.buffer.length
  maxSize : t.maxSize = s.maxSize
  maxFiles : t.maxFiles = s.maxFiles
  base : ∀ disk, s.files 0 = some disk → t.files 0 = some (disk ++ s.buffer)
  backups : ∀ i, t.files (i + 1) = s.files (i + 1)
  faultless : Faultless t
  supply_le : supply s.writes ≤ supply t.writes + s.buffer.length

theorem Faultless.of_suffix {s t : State} (h : Faultless s)
    (hwrites : ∃ used, s.writes = used ++ t.writes) (hopens : t.opens <:+ s.opens)
    (hrenames : t.renames <:+ s.renames) (hunlinks : t.unlinks <:+ s.unlinks) :
    Faultless t where
  writes := by
    rcases hwrites with ⟨used, hused⟩
    intro r hr
    exact h.writes r (by rw [hused]; exact List.mem_append_right used hr)
  opens := fun ok hok => h.opens ok (hopens.subset hok)
  renames := fun ok hok => h.renames ok (hrenames.subset hok)
  unlinks := fun ok hok => h.unlinks ok (hunlinks.subset hok)

theorem flushBuffer_flushed {s t : State} (h : Faultless s) (hopen : s.fdOpen = true)
    (ht : s.flushBuffer = some t) : Flushed s t := by
  unfold State.flushBuffer at ht
  split at ht
  · rename_i hnothing
    have hbuffer : s.buffer = [] := by
      rcases hnothing with hclosed | hbuffer
      · simp [hopen] at hclosed
      · exact hbuffer
    simp only [Option.some.injEq] at ht
    subst ht
    exact {
      fdOpen := rfl
      buffer := hbuffer
      currentSize := by simp [hbuffer]
      maxSize := rfl
      maxFiles := rfl
      base := by simp [hbuffer]
      backups := fun _ => rfl
      faultless := h
      supply_le := Nat.le_add_right _ _ }
  · simp only [Option.map_eq_some_iff] at ht
    rcases ht with ⟨e, he, rfl⟩
    have hcomplete := flushLoop_complete h.writes he
    rcases hcomplete.used with ⟨used, hused, hsupply⟩
    exact {
      fdOpen := rfl
      buffer := rfl
      currentSize := by simp [State.wrote, hcomplete.written]
      maxSize := rfl
      maxFiles := rfl
      base := by
        intro disk hdisk
        simp [State.wrote, State.appendBase, hdisk, hcomplete.written]
      backups := by
        intro i
        simp [State.wrote, State.appendBase]
      faultless := h.of_suffix ⟨used, hused⟩ (List.suffix_refl _) (List.suffix_refl _)
        (List.suffix_refl _)
      supply_le := by
        rw [hused, supply_append]
        simp only [State.wrote]
        omega }

theorem flushBuffer_returns {s : State} (h : Faultless s)
    (hsupply : s.buffer.length ≤ supply s.writes) : ∃ t, s.flushBuffer = some t := by
  unfold State.flushBuffer
  split
  · exact ⟨s, rfl⟩
  · rcases flushLoop_returns s.buffer s.errno h.writes hsupply with ⟨e, he⟩
    exact ⟨_, by rw [he, Option.map_some]⟩

/-- What `RotateFiles` achieves without faults. -/
structure Rotated (s t : State) : Prop where
  fdOpen : t.fdOpen = true
  buffer : t.buffer = []
  currentSize : t.currentSize = 0
  maxSize : t.maxSize = s.maxSize
  maxFiles : t.maxFiles = s.maxFiles
  base : t.files 0 = some []
  first : ∀ disk, s.files 0 = some disk → t.files 1 = some (disk ++ s.buffer)
  backups : ∀ i, t.files (i + 2) =
    if i + 2 ≤ s.maxFiles then s.files (i + 1) else s.files (i + 2)
  faultless : Faultless t
  supply_le : supply s.writes ≤ supply t.writes + s.buffer.length

theorem rotateFiles_rotated {s t : State} (h : Faultless s) (hopen : s.fdOpen = true)
    (hpos : 0 < s.maxFiles) (hbase : ∃ disk, s.files 0 = some disk)
    (ht : s.rotateFiles = some t) : Rotated s t := by
  unfold State.rotateFiles at ht
  simp only [Option.map_eq_some_iff] at ht
  rcases ht with ⟨u, hu, rfl⟩
  have hflush := flushBuffer_flushed h hopen hu
  rcases hbase with ⟨disk, hdisk⟩
  have hpos' : 0 < u.maxFiles := by
    rw [hflush.maxFiles]
    exact hpos
  have hsame : SameSink u.close u.close.renameAll :=
    (renameBackups_same _ _).trans (rename_same _ _ _)
  have hfiles : u.close.renameAll.files = rotateSlots u.maxFiles u.files :=
    renameAll_files (s := u.close) hpos' hflush.faultless.renames hflush.faultless.unlinks
  have hslot := rotateSlots_apply hpos' (hflush.base disk hdisk)
  have hopens : ∀ ok ∈ u.close.renameAll.opens, ok = true := by
    rw [hsame.opens]
    exact hflush.faultless.opens
  simp only [State.openFile, headD_true hopens, if_true]
  exact {
    fdOpen := rfl
    buffer := hsame.buffer.trans hflush.buffer
    currentSize := rfl
    maxSize := hsame.maxSize.trans hflush.maxSize
    maxFiles := hsame.maxFiles.trans hflush.maxFiles
    base := by simp
    first := by
      intro disk' hdisk'
      rw [hdisk] at hdisk'
      cases hdisk'
      have hle : 1 ≤ u.maxFiles := hpos'
      simp [hfiles, hslot, hle, hflush.base disk hdisk]
    backups := by
      intro i
      rw [hflush.maxFiles] at hfiles hslot
      simp [hfiles, hslot, hflush.backups]
    faultless := hflush.faultless.of_suffix ⟨[], hsame.writes.symm⟩
      ((List.tail_suffix _).trans (by rw [hsame.opens]; exact List.suffix_refl _))
      hsame.renames hsame.unlinks
    supply_le := by
      have hle := hflush.supply_le
      rw [← show u.close.renameAll.writes = u.writes from hsame.writes] at hle
      exact hle }

theorem rotateFiles_returns {s : State} (h : Faultless s)
    (hsupply : s.buffer.length ≤ supply s.writes) : ∃ t, s.rotateFiles = some t := by
  rcases flushBuffer_returns h hsupply with ⟨u, hu⟩
  exact ⟨_, by rw [State.rotateFiles, hu, Option.map_some]⟩

end FileSink
end Log
end DtCore
