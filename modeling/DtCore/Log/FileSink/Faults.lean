import DtCore.Log.FileSink.Files

/-!
# The file sink under faults

Whatever the system calls answer, the buffer stays inside its 64 KB, and the size counter is
the length of the file while the file is open.  The writes count what has reached the file,
also when they stop early; a rotation flushes the buffer before it closes the file, so that a
reopening that fails leaves an empty buffer for the message that caused the rotation.

Main definitions:

- `Sound`: the buffer and the size counter are right.
- `State.atCopy`: the sink where it copies a message to the buffer.

Main results:

- Theorem `sinkIt_eq_copy`: what `sink_it_` does to the buffer.
- Theorem `call_sound`: every call keeps the buffer and the counter right.
- Theorem `buffer_and_size_right`: the same for every run from the constructor.
-/

namespace DtCore
namespace Log
namespace FileSink

open Foundation

/-- The buffer has not overflown, and an open file has the size that was counted. -/
structure Sound (s : State) : Prop where
  fits : s.buffer.length ≤ internalBufSize
  counted : s.fdOpen = true → ∃ data, s.files 0 = some data ∧ s.currentSize = data.length

/-- The sink in front of the `memcpy` of `store`, when it comes to it. -/
def State.storeCopy (s : State) (msg : Bytes) : Option State :=
  if msg.length > internalBufSize then none
  else if s.buffer.length + msg.length > internalBufSize then s.flushBuffer
  else some s

/-- The sink in front of the `memcpy` of `sink_it_`, when it comes to it. -/
def State.atCopy (s : State) (msg : Bytes) : Option State :=
  if s.fdOpen = false then none else (s.rotateFor msg).bind (fun s => s.storeCopy msg)

variable {s t : State}

/-- Where `sink_it_` comes to the `memcpy`, it ends with it. -/
theorem sinkIt_eq_copy {msg : Bytes} (hopen : s.fdOpen = true)
    (hshort : msg.length ≤ internalBufSize) :
    s.sinkIt msg = (s.atCopy msg).map (fun t => t.appendBuffer msg) := by
  have hfd : ¬ s.fdOpen = false := by
    rw [hopen]
    exact Bool.noConfusion
  have hlong : ¬ msg.length > internalBufSize := Nat.not_lt.mpr hshort
  unfold State.sinkIt State.atCopy
  rw [if_neg hfd, if_neg hfd, Option.map_bind]
  congr 1
  funext u
  unfold State.store State.storeCopy
  rw [if_neg hlong]
  by_cases hfull : u.buffer.length + msg.length > internalBufSize
  · rw [if_pos hfull]
    simp [hlong, hfull]
  · rw [if_neg hfull]
    simp [hlong, hfull]

/-! ## The steps of a call -/

theorem Sound.congr (h : Sound s) (hbuffer : t.buffer = s.buffer) (hfd : t.fdOpen = s.fdOpen)
    (hsize : t.currentSize = s.currentSize) (hfiles : t.files = s.files) : Sound t where
  fits := hbuffer ▸ h.fits
  counted hopen := by
    rw [hsize, hfiles]
    exact h.counted (hfd ▸ hopen)

/-- A write loop counts what it has written, however it ended. -/
theorem wrote_sound (h : Sound s) (hopen : s.fdOpen = true) (e : WriteEnd) :
    Sound (s.wrote e) where
  fits := h.fits
  counted _ := by
    rcases h.counted hopen with ⟨data, hdata, hsize⟩
    refine ⟨data ++ e.written, ?_, ?_⟩
    · show Function.update s.files 0 (some ((s.files 0).getD [] ++ e.written)) 0 = _
      rw [Function.update_self, hdata]
      rfl
    · show s.currentSize + e.written.length = _
      rw [hsize, List.length_append]

theorem flushBuffer_sound (h : Sound s) (ht : s.flushBuffer = some t) :
    Sound t ∧ t.fdOpen = s.fdOpen ∧ (s.fdOpen = true → t.buffer = []) := by
  unfold State.flushBuffer at ht
  split at ht
  · rename_i hskip
    cases ht
    refine ⟨h, rfl, ?_⟩
    intro hopen
    rcases hskip with hclosed | hempty
    · rw [hopen] at hclosed
      cases hclosed
    · exact hempty
  · rename_i hgo
    have hopen : s.fdOpen = true := by
      by_contra hclosed
      exact hgo (.inl (eq_false_of_ne_true hclosed))
    rw [Option.map_eq_some_iff] at ht
    rcases ht with ⟨e, -, rfl⟩
    have hwrote := wrote_sound h hopen e
    exact ⟨⟨Nat.zero_le _, hwrote.counted⟩, rfl, fun _ => rfl⟩

/-- However the reopening ends, a file that is open is new. -/
theorem openFile_sound (truncate : Bool) (h : s.buffer.length ≤ internalBufSize) :
    Sound (s.openFile truncate) := by
  unfold State.openFile
  dsimp only
  split
  · refine ⟨h, fun _ => ⟨if truncate then [] else (s.files 0).getD [], ?_, rfl⟩⟩
    exact Function.update_self 0 _ s.files
  · exact ⟨h, fun hopen => absurd hopen Bool.false_ne_true⟩

theorem openFile_buffer (truncate : Bool) (s : State) :
    (s.openFile truncate).buffer = s.buffer := by
  unfold State.openFile
  dsimp only
  split <;> rfl

/-- A rotation from an open file leaves the buffer empty. -/
theorem rotateFiles_sound (h : Sound s) (hopen : s.fdOpen = true)
    (ht : s.rotateFiles = some t) : Sound t ∧ t.buffer = [] := by
  unfold State.rotateFiles at ht
  rw [Option.map_eq_some_iff] at ht
  rcases ht with ⟨u, hflush, rfl⟩
  rcases flushBuffer_sound h hflush with ⟨-, -, hempty⟩
  have hsame : SameSink u.close u.close.renameAll :=
    (renameBackups_same (u.close.maxFiles - 1) u.close).trans (rename_same _ 0 1)
  have hbuffer : u.close.renameAll.buffer = [] := hsame.buffer.trans (hempty hopen)
  refine ⟨openFile_sound true ?_, ?_⟩
  · rw [hbuffer]
    exact Nat.zero_le _
  · rw [openFile_buffer, hbuffer]

/-- Behind the rotation check the file is open, or the buffer is empty. -/
theorem rotateFor_sound {msg : Bytes} (h : Sound s) (hopen : s.fdOpen = true)
    (ht : s.rotateFor msg = some t) : Sound t ∧ (t.fdOpen = true ∨ t.buffer = []) := by
  unfold State.rotateFor at ht
  split at ht
  · rcases rotateFiles_sound h hopen ht with ⟨hsound, hempty⟩
    exact ⟨hsound, .inr hempty⟩
  · cases ht
    exact ⟨h, .inl hopen⟩

theorem writeDirect_sound {msg : Bytes} (h : Sound s) (ht : s.writeDirect msg = some t) :
    Sound t := by
  unfold State.writeDirect at ht
  split at ht
  · rename_i hopen
    rw [Option.map_eq_some_iff] at ht
    rcases ht with ⟨e, -, rfl⟩
    exact wrote_sound h hopen e
  · cases ht
    exact h.congr rfl rfl rfl rfl

/-- The `memcpy` of `store` has room for the message. -/
theorem storeCopy_sound {msg : Bytes} (h : Sound s)
    (hready : s.fdOpen = true ∨ s.buffer = []) (ht : s.storeCopy msg = some t) :
    Sound t ∧ t.buffer.length + msg.length ≤ internalBufSize := by
  unfold State.storeCopy at ht
  split at ht
  · cases ht
  · rename_i hshort
    split at ht
    · rename_i hfull
      rcases flushBuffer_sound h ht with ⟨hsound, -, hempty⟩
      rcases hready with hopen | hnil
      · refine ⟨hsound, ?_⟩
        rw [hempty hopen, List.length_nil, Nat.zero_add]
        exact Nat.le_of_not_lt hshort
      · rw [hnil, List.length_nil, Nat.zero_add] at hfull
        exact absurd hfull hshort
    · rename_i hroom
      cases ht
      exact ⟨h, Nat.le_of_not_lt hroom⟩

/-- Every `memcpy` of `sink_it_` has room for the message. -/
theorem atCopy_sound {msg : Bytes} (h : Sound s) (ht : s.atCopy msg = some t) :
    Sound t ∧ t.buffer.length + msg.length ≤ internalBufSize := by
  unfold State.atCopy at ht
  split at ht
  · cases ht
  · rename_i hfd
    rw [Option.bind_eq_some_iff] at ht
    rcases ht with ⟨u, hrotate, hcopy⟩
    rcases rotateFor_sound h (eq_true_of_ne_false hfd) hrotate with ⟨hsound, hready⟩
    exact storeCopy_sound hsound hready hcopy

theorem appendBuffer_sound {msg : Bytes} (h : Sound s)
    (hroom : s.buffer.length + msg.length ≤ internalBufSize) : Sound (s.appendBuffer msg) where
  fits := by
    show (s.buffer ++ msg).length ≤ _
    rw [List.length_append]
    exact hroom
  counted := h.counted

theorem sinkIt_sound {msg : Bytes} (h : Sound s) (ht : s.sinkIt msg = some t) : Sound t := by
  by_cases hopen : s.fdOpen = true
  · by_cases hshort : msg.length ≤ internalBufSize
    · rw [sinkIt_eq_copy hopen hshort, Option.map_eq_some_iff] at ht
      rcases ht with ⟨u, hcopy, rfl⟩
      rcases atCopy_sound h hcopy with ⟨hsound, hroom⟩
      exact appendBuffer_sound hsound hroom
    · have hfd : ¬ s.fdOpen = false := by
        rw [hopen]
        exact Bool.noConfusion
      unfold State.sinkIt at ht
      rw [if_neg hfd, Option.bind_eq_some_iff] at ht
      rcases ht with ⟨u, hrotate, hstore⟩
      unfold State.store at hstore
      rw [if_pos (Nat.lt_of_not_le hshort), Option.bind_eq_some_iff] at hstore
      rcases hstore with ⟨v, hflush, hdirect⟩
      have hrotated := (rotateFor_sound h hopen hrotate).1
      exact writeDirect_sound (flushBuffer_sound hrotated hflush).1 hdirect
  · unfold State.sinkIt at ht
    rw [if_pos (eq_false_of_ne_true hopen)] at ht
    cases ht
    exact h

/-! ## Runs -/

theorem call_sound {c : Call} (h : Sound s) (ht : s.call c = some t) : Sound t := by
  cases c with
  | sinkIt msg => exact sinkIt_sound h ht
  | flush => exact (flushBuffer_sound h ht).1

theorem calls_sound {cs : List Call} (h : Sound s) (ht : State.calls cs s = some t) :
    Sound t := by
  induction cs generalizing s with
  | nil =>
      cases ht
      exact h
  | cons c cs ih =>
      unfold State.calls at ht
      rw [Option.bind_eq_some_iff] at ht
      rcases ht with ⟨u, hcall, hrest⟩
      exact ih (call_sound h hcall) hrest

/-- In every run the buffer does not overflow, the counter is the length of an open file, and
so it is at the next `memcpy`, which has room. -/
theorem buffer_and_size_right (maxSize maxFiles : Nat) (truncate : Bool)
    (files : Nat → Option Bytes) (writes : List WriteResult) (opens renames unlinks : List Bool)
    (cs : List Call)
    (h : State.calls cs
      (State.construct maxSize maxFiles truncate files writes opens renames unlinks) = some s) :
    Sound s ∧ ∀ msg t, s.atCopy msg = some t →
      Sound t ∧ t.buffer.length + msg.length ≤ internalBufSize := by
  have hstart : Sound
      (State.construct maxSize maxFiles truncate files writes opens renames unlinks) :=
    openFile_sound truncate (Nat.zero_le _)
  have hsound := calls_sound hstart h
  exact ⟨hsound, fun msg t ht => atCopy_sound hsound ht⟩

/-- A short write, and a reopening that fails. -/
theorem buffer_and_size_right_reopen :
    ∃ s, State.calls [.sinkIt [3], .sinkIt [4, 5], .flush, .sinkIt [6]]
        (State.construct 3 2 false (fun i => if i = 0 then some [1, 2] else none)
          [.count 0, .count 1] [true, false] [] []) = some s ∧
      s.fdOpen = false ∧ s.buffer = [4, 5] ∧ Sound s :=
  ⟨_, rfl, rfl, rfl, (buffer_and_size_right 3 2 false
    (fun i => if i = 0 then some [1, 2] else none) [.count 0, .count 1] [true, false] [] []
    [.sinkIt [3], .sinkIt [4, 5], .flush, .sinkIt [6]] rfl).1⟩

end FileSink
end Log
end DtCore
