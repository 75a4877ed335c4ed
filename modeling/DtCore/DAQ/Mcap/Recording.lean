import DtCore.DAQ.Mcap.Rotator

/-!
# The segments on disk

When every rename and every open succeeds, the base file and the rotated files are
the newest segments of the recording, one slot for each index, and no other file
changes.

Main results:

- Theorem `rotate_shifts`: `Rotate` moves every file one index up.
- Theorem `store_records`: `Publish` and `Write` record one message.
- Theorem `keeps_recent_segments`: the files after a run.
-/

namespace DtCore
namespace DAQ
namespace Mcap
namespace Rotator

open Foundation Utils

/-! ## Files by their indices -/

/-- The files by their indices, which are 32 bits wide. -/
def slotsOf (fileName : Name) (files : Files) (i : Nat) : Option File :=
  if i < 2 ^ 32 then files (slotName fileName i) else none

theorem slotName_inj {fileName : Name} {i j : Nat} (hi : i < 2 ^ 32) (hj : j < 2 ^ 32)
    (h : slotName fileName i = slotName fileName j) : i = j :=
  cStr_annotateFilenameIndex_inj hi hj h

theorem slotsOf_of_lt {fileName : Name} {files : Files} {i : Nat} (hi : i < 2 ^ 32) :
    slotsOf fileName files i = files (slotName fileName i) :=
  if_pos hi

theorem slotsOf_zero (fileName : Name) (files : Files) :
    slotsOf fileName files 0 = files (cStr fileName) :=
  if_pos (by decide)

/-- An update of an indexed file is an update of its slot. -/
theorem slotsOf_update {fileName : Name} {i : Nat} (hi : i < 2 ^ 32) (files : Files)
    (file : Option File) :
    slotsOf fileName (Function.update files (slotName fileName i) file) =
      Function.update (slotsOf fileName files) i file := by
  funext j
  by_cases hj : j < 2 ^ 32
  · rw [slotsOf_of_lt hj]
    by_cases hji : j = i
    · rw [hji, Function.update_self, Function.update_self]
    · have hname : slotName fileName j ≠ slotName fileName i :=
        fun heq => hji (slotName_inj hj hi heq)
      rw [Function.update_of_ne hname, Function.update_of_ne hji, slotsOf_of_lt hj]
  · have hji : j ≠ i := by omega
    rw [Function.update_of_ne hji, slotsOf, slotsOf, if_neg hj, if_neg hj]

/-- An update of the base file is an update of slot `0`. -/
theorem slotsOf_update_base (fileName : Name) (files : Files) (file : Option File) :
    slotsOf fileName (Function.update files (cStr fileName) file) =
      Function.update (slotsOf fileName files) 0 file := by
  have hzero : 0 < 2 ^ 32 := by decide
  exact slotsOf_update hzero files file

/-- A file that no index up to `n` names. -/
def Foreign (fileName : Name) (n : Nat) (name : Name) : Prop :=
  ∀ i ≤ n, name ≠ slotName fileName i

theorem Foreign.of_succ {fileName name : Name} {n : Nat} (h : Foreign fileName (n + 1) name) :
    Foreign fileName n name :=
  fun i hi => h i (Nat.le_succ_of_le hi)

/-! ## Rotate -/

/-- A rename that succeeds moves one slot up. -/
theorem slotsOf_rename {fileName : Name} {files : Files} {i : Nat} (hi : i + 1 < 2 ^ 32)
    {file : File} (hfile : files (slotName fileName i) = some file) :
    ∃ files', renameFile true (slotName fileName i) (slotName fileName (i + 1)) files =
        (true, files') ∧
      slotsOf fileName files' = renameSlot (slotsOf fileName files) i (i + 1) ∧
      ∀ name, Foreign fileName (i + 1) name → files' name = files name := by
  have hi' : i < 2 ^ 32 := Nat.lt_of_succ_lt hi
  have hne : slotName fileName i ≠ slotName fileName (i + 1) := by
    intro heq
    exact absurd (slotName_inj hi' hi heq) (Nat.ne_of_lt (Nat.lt_succ_self i))
  have hsrc : Function.update files (slotName fileName (i + 1)) none (slotName fileName i) =
      some file := by
    rw [Function.update_of_ne hne, hfile]
  have hslot : slotsOf fileName files i = some file := by rw [slotsOf_of_lt hi', hfile]
  apply Exists.intro
    (Function.update (Function.update files (slotName fileName (i + 1)) (some file))
      (slotName fileName i) none)
  constructor
  · simp only [renameFile, rename, hsrc, Option.isSome_some, and_self, if_true,
      Function.update_idem]
  · constructor
    · rw [renameSlot_of_some hslot, slotsOf_update hi', slotsOf_update hi]
    · intro name hname
      rw [Function.update_of_ne (hname i (Nat.le_succ i)),
        Function.update_of_ne (hname (i + 1) (Nat.le_refl _))]

/-- The loop shifts the slots when no rename fails. -/
theorem rotateLoop_shifts {n : Nat} (hn : n < 2 ^ 32) {renames : List Bool}
    (hok : ∀ b ∈ renames, b = true) (s : State) :
    ∃ files, State.rotateLoop n renames s = ({ s with files := files }, true) ∧
      slotsOf s.fileName files = shiftSlots n (slotsOf s.fileName s.files) ∧
      ∀ name, Foreign s.fileName n name → files name = s.files name := by
  induction n generalizing renames s with
  | zero => exact ⟨s.files, rfl, rfl, fun _ _ => rfl⟩
  | succ n ih =>
      have hn' : n < 2 ^ 32 := Nat.lt_of_succ_lt hn
      unfold State.rotateLoop
      simp only
      cases hfile : s.files (slotName s.fileName n) with
      | none =>
          rcases ih hn' hok s with ⟨files, hloop, hslots, hforeign⟩
          have hskip : renameSlot (slotsOf s.fileName s.files) n (n + 1) =
              slotsOf s.fileName s.files := by
            have hslot : slotsOf s.fileName s.files n = none := by
              rw [slotsOf_of_lt hn', hfile]
            unfold renameSlot
            rw [hslot]
          apply Exists.intro files
          constructor
          · exact hloop
          · constructor
            · rw [shiftSlots, hskip, hslots]
            · exact fun name hname => hforeign name hname.of_succ
      | some file =>
          have hhead : renames.headD true = true := by
            cases renames with
            | nil => rfl
            | cons b renames => exact hok b List.mem_cons_self
          have htail : ∀ b ∈ renames.tail, b = true :=
            fun b hb => hok b (List.mem_of_mem_tail hb)
          rcases slotsOf_rename hn hfile with ⟨files, hrename, hslots, hother⟩
          rcases ih hn' htail { s with files := files } with ⟨files', hloop, hslots', hforeign⟩
          simp only [Option.isNone_some, Bool.false_eq_true, if_false, hhead, hrename, if_true]
          apply Exists.intro files'
          constructor
          · exact hloop
          · constructor
            · rw [shiftSlots, ← hslots]
              exact hslots'
            · intro name hname
              rw [← hother name hname]
              exact hforeign name hname.of_succ

/-- The members that no call changes. -/
structure SameSetup (s t : State) : Prop where
  fileName : t.fileName = s.fileName
  maxFileSize : t.maxFileSize = s.maxFileSize
  maxFileCount : t.maxFileCount = s.maxFileCount

/-- `Rotate` moves every file one index up and opens an empty base file. -/
theorem rotate_shifts {s : State} (hM : s.maxFileCount < 2 ^ 32) {renames : List Bool}
    (hok : ∀ b ∈ renames, b = true) :
    ∃ files, s.rotate renames true = ({ s with files := files, mcap := some true }, false) ∧
      slotsOf s.fileName files =
        Function.update (shiftSlots s.maxFileCount (slotsOf s.fileName s.files)) 0 (some []) ∧
      ∀ name, Foreign s.fileName s.maxFileCount name → files name = s.files name := by
  rcases rotateLoop_shifts hM hok { s with mcap := none } with ⟨files, hloop, hslots, hforeign⟩
  apply Exists.intro (Function.update files (cStr s.fileName) (some []))
  constructor
  · unfold State.rotate
    rw [hloop]
    rfl
  · constructor
    · rw [slotsOf_update_base]
      rw [hslots]
    · intro name hname
      have hbase : name ≠ cStr s.fileName := hname 0 (Nat.zero_le _)
      rw [Function.update_of_ne hbase]
      exact hforeign name hname

/-! ## Publish and Write -/

/-- The rotator has recorded the segments of `a` to the files that it keeps. -/
structure Recorded (s : State) (a : Segments Bytes) : Prop where
  mcap : s.mcap = some true
  size : s.currentFileSize = Segments.total List.length a.current
  slots : Segments.Shows s.maxFileCount a (slotsOf s.fileName s.files)

/-- An open sink appends to the base file. -/
theorem Recorded.record {s : State} {a : Segments Bytes} (h : Recorded s a) (payload : Bytes) :
    Recorded { s.record payload with currentFileSize := s.currentFileSize + payload.length }
      (a.append payload) := by
  have hbase : s.files (cStr s.fileName) = some a.current := by
    rw [← slotsOf_zero s.fileName s.files, h.slots 0 (Nat.zero_le _)]
    rfl
  have hrecord : s.record payload =
      { s with files := Function.update s.files (cStr s.fileName)
                (some (a.current ++ [payload])) } := by
    rw [State.record, if_pos h.mcap, hbase, Option.map_some]
  rw [hrecord]
  constructor
  · exact h.mcap
  · rw [Segments.append, Segments.total_append_singleton, ← h.size]
  · show Segments.Shows s.maxFileCount (a.append payload)
      (slotsOf s.fileName (Function.update s.files (cStr s.fileName)
        (some (a.current ++ [payload]))))
    rw [slotsOf_update_base]
    exact Segments.shows_append h.slots payload

/-- What recording leaves alone. -/
theorem record_foreign {s : State} {name : Name} {n : Nat} (h : Foreign s.fileName n name)
    (payload : Bytes) : (s.record payload).files name = s.files name := by
  unfold State.record
  split
  · exact Function.update_of_ne (h 0 (Nat.zero_le _)) _ _
  · rfl

/-- A call in which every rename and the open succeed records its message. -/
theorem store_records {s : State} {a : Segments Bytes} (hpos : 0 < s.maxFileCount)
    (hM : s.maxFileCount < 2 ^ 32) (h : Recorded s a) (payload : Bytes) {renames : List Bool}
    (hok : ∀ b ∈ renames, b = true) :
    ∃ t, s.store payload renames true = (t, false) ∧ SameSetup s t ∧
      Recorded t (a.record List.length s.maxFileSize payload) ∧
      ∀ name, Foreign s.fileName s.maxFileCount name → t.files name = s.files name := by
  have hopen : s.mcap ≠ none := by
    rw [h.mcap]
    exact Option.some_ne_none true
  unfold State.store
  rw [if_neg hopen]
  simp only
  by_cases hfull : s.maxFileSize < s.currentFileSize + payload.length
  · rcases rotate_shifts hM hok with ⟨files, hrotate, hslots, hforeign⟩
    have hfresh : Recorded { s with files := files, mcap := some true, currentFileSize := 0 }
        a.rotate := by
      constructor
      · rfl
      · rfl
      · show Segments.Shows s.maxFileCount a.rotate (slotsOf s.fileName files)
        rw [hslots]
        exact Segments.shift_shows hpos h.slots
    have hrecorded := hfresh.record payload
    rw [Nat.zero_add] at hrecorded
    rw [if_pos hfull, hrotate, Segments.record_of_lt (h.size ▸ hfull)]
    apply Exists.intro { State.record payload { s with files := files, mcap := some true } with
      currentFileSize := payload.length }
    constructor
    · rfl
    · constructor
      · exact ⟨rfl, rfl, rfl⟩
      · constructor
        · exact hrecorded
        · intro name hname
          rw [← hforeign name hname]
          exact record_foreign (s := { s with files := files, mcap := some true }) hname payload
  · have hfits := Nat.not_lt.mp hfull
    rw [if_neg hfull, Segments.record_of_le (h.size ▸ hfits)]
    apply Exists.intro { s.record payload with
      currentFileSize := s.currentFileSize + payload.length }
    constructor
    · rfl
    · constructor
      · unfold State.record
        split
        · exact ⟨rfl, rfl, rfl⟩
        · exact ⟨rfl, rfl, rfl⟩
      · exact ⟨h.record payload, fun name hname => record_foreign hname payload⟩

/-! ## Runs -/

/-- Every rename and the open of a call succeed. -/
def Call.Succeeds (c : Call) : Prop :=
  (∀ b ∈ c.renames, b = true) ∧ c.opens = true

/-- The payloads of a sequence of calls. -/
def payloads (cs : List Call) : List Bytes :=
  cs.map (fun c => c.request.payload)

/-- A run in which everything succeeds records all its messages. -/
theorem calls_record {cs : List Call} (hok : ∀ c ∈ cs, c.Succeeds) {s : State}
    {a : Segments Bytes} (hpos : 0 < s.maxFileCount) (hM : s.maxFileCount < 2 ^ 32)
    (h : Recorded s a) :
    SameSetup s (State.calls cs s) ∧
      Recorded (State.calls cs s)
        ((payloads cs).foldl (Segments.record List.length s.maxFileSize) a) ∧
      ∀ name, Foreign s.fileName s.maxFileCount name →
        (State.calls cs s).files name = s.files name := by
  induction cs generalizing s a with
  | nil => exact ⟨⟨rfl, rfl, rfl⟩, h, fun _ _ => rfl⟩
  | cons c cs ih =>
      rw [List.forall_mem_cons] at hok
      rcases hok.1 with ⟨hrenames, hopens⟩
      rcases store_records hpos hM h c.request.payload hrenames with
        ⟨t, hstore, hsetup, hrecorded, hforeign⟩
      have hcall : s.call c = (t, false) := by rw [call_eq_store, hopens, hstore]
      have hnext : State.calls (c :: cs) s = State.calls cs t := by
        rw [State.calls, hcall]
      have hrest := ih hok.2 (hsetup.maxFileCount ▸ hpos) (hsetup.maxFileCount ▸ hM) hrecorded
      rw [hsetup.maxFileSize, hsetup.fileName, hsetup.maxFileCount] at hrest
      rw [hnext]
      constructor
      · exact {
          fileName := hrest.1.fileName.trans hsetup.fileName
          maxFileSize := hrest.1.maxFileSize.trans hsetup.maxFileSize
          maxFileCount := hrest.1.maxFileCount.trans hsetup.maxFileCount }
      · constructor
        · exact hrest.2.1
        · exact fun name hname => (hrest.2.2 name hname).trans (hforeign name hname)

/-- The constructor starts an empty recording when no rotated file is present. -/
theorem construct_recorded {fileName : Name} {maxFileCount : Nat} {files : Files}
    (hM : maxFileCount < 2 ^ 32)
    (habsent : ∀ i, 0 < i → i ≤ maxFileCount → files (slotName fileName i) = none)
    (maxFileSize : Nat) :
    Recorded (State.construct fileName maxFileSize maxFileCount files true) Segments.start := by
  constructor
  · rfl
  · rfl
  · show Segments.Shows maxFileCount Segments.start
      (slotsOf fileName (Function.update files (cStr fileName) (some [])))
    rw [slotsOf_update_base]
    intro i hi
    cases i with
    | zero => exact Function.update_self _ _ _
    | succ i =>
        rw [Function.update_of_ne (Nat.succ_ne_zero i), slotsOf_of_lt (by omega),
          habsent (i + 1) (Nat.succ_pos i) hi]
        rfl

/-- For every limit, every number of rotated files, every base name and every run in
which the renames and the opens succeed, starting without rotated files: the file with
index `i` is the segment `i` rotations old, the segments are all messages in order,
what is on disk from the highest index down to the base file is the end of them, a
segment over the limit is a single message, and no other file changes. -/
theorem keeps_recent_segments (fileName : Name) (maxFileSize maxFileCount : Nat) (files : Files)
    (hpos : 0 < maxFileCount) (hM : maxFileCount < 2 ^ 32)
    (habsent : ∀ i, 0 < i → i ≤ maxFileCount → files (slotName fileName i) = none)
    (cs : List Call) (hok : ∀ c ∈ cs, c.Succeeds) :
    let s := State.calls cs (State.construct fileName maxFileSize maxFileCount files true)
    let a := (payloads cs).foldl (Segments.record List.length maxFileSize) Segments.start
    (∀ i ≤ maxFileCount, s.files (slotName fileName i) = a.all[i]?) ∧
      a.messages = payloads cs ∧
      Segments.retained maxFileCount (fun i => s.files (slotName fileName i)) <:+ payloads cs ∧
      (∀ segment ∈ a.all, (segment.map List.length).sum ≤ maxFileSize ∨
        ∃ payload, segment = [payload]) ∧
      ∀ name, Foreign fileName maxFileCount name → s.files name = files name := by
  intro s a
  have hstart := construct_recorded hM habsent maxFileSize
  rcases calls_record hok hpos hM hstart with ⟨hsetup, hrecorded, hforeign⟩
  have hmessages : a.messages = payloads cs :=
    Segments.messages_foldl List.length maxFileSize Segments.start (payloads cs)
  have hshows : Segments.Shows maxFileCount a (fun i => s.files (slotName fileName i)) := by
    intro i hi
    have hslot := hrecorded.slots i (hsetup.maxFileCount ▸ hi)
    rw [slotsOf_of_lt (by omega), hsetup.fileName] at hslot
    exact hslot
  constructor
  · exact hshows
  · constructor
    · exact hmessages
    · constructor
      · rw [← hmessages]
        exact Segments.retained_suffix hshows
      · constructor
        · exact Segments.bounded_foldl (Segments.bounded_start _ _) _
        · intro name hname
          rw [hforeign name hname]
          exact Function.update_of_ne (hname 0 (Nat.zero_le _)) _ _

/-- Two rotated files of at most four bytes; the third rotation loses the first file. -/
theorem keeps_recent_segments_rotating :
    let s := State.calls
      (([[1, 2], [3, 4], [5, 6, 7, 8, 9], [10, 11], [12, 13, 14]] : List Bytes).map
        (fun payload => { request := .publish payload, renames := [], opens := true }))
      (State.construct "rec.mcap".toList 4 2 (fun _ => none) true)
    s.files (slotName "rec.mcap".toList 0) = some [[12, 13, 14]] ∧
      s.files (slotName "rec.mcap".toList 2) = some [[5, 6, 7, 8, 9]] := by
  have hrun := keeps_recent_segments "rec.mcap".toList 4 2 (fun _ => none) (by decide)
    (by decide) (fun _ _ _ => rfl)
    (([[1, 2], [3, 4], [5, 6, 7, 8, 9], [10, 11], [12, 13, 14]] : List Bytes).map
      (fun payload => { request := .publish payload, renames := [], opens := true }))
    (by
      intro c hc
      rcases List.mem_map.mp hc with ⟨payload, _, rfl⟩
      exact ⟨fun _ hb => absurd hb List.not_mem_nil, rfl⟩)
  constructor
  · exact hrun.1 0 (by decide)
  · exact hrun.1 2 (by decide)

end Rotator
end Mcap
end DAQ
end DtCore
