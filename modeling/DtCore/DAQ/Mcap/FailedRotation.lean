import DtCore.DAQ.Mcap.Recording

/-!
# Rotations that fail

When a rename fails, `Rotate` opens a fresh file and throws before `Publish` or
`Write` can reset `_current_file_size`.  The counter keeps the size of the file that
was closed, unless that was zero.

Main results:

- Theorem `rotateLoop_ok_iff`: the loop succeeds when its renames do.
- Theorem `call_counts_iff`: the calls that keep the counter exact.
- Theorem `counts_iff`: the runs that do.
- Theorem `count_of_closed_file`: a run that does not.
-/

namespace DtCore
namespace DAQ
namespace Mcap
namespace Rotator

open Foundation Utils

/-! ## Which renames are made -/

/-- The renames that the loop of `Rotate` makes, one for each source that exists. -/
def sources (fileName : Name) (files : Files) : Nat → Nat
  | 0 => 0
  | n + 1 => sources fileName files n + if (files (slotName fileName n)).isSome then 1 else 0

theorem sources_congr {fileName : Name} {files files' : Files} {n : Nat}
    (h : ∀ i < n, files' (slotName fileName i) = files (slotName fileName i)) :
    sources fileName files' n = sources fileName files n := by
  induction n with
  | zero => rfl
  | succ n ih =>
      rw [sources, sources, ih (fun i hi => h i (Nat.lt_succ_of_lt hi)), h n (Nat.lt_succ_self n)]

/-- The loop only changes files. -/
theorem rotateLoop_files (n : Nat) (renames : List Bool) (s : State) :
    ∃ files, (State.rotateLoop n renames s).1 = { s with files := files } := by
  induction n generalizing renames s with
  | zero => exact ⟨s.files, rfl⟩
  | succ n ih =>
      unfold State.rotateLoop
      simp only
      split
      · exact ih renames s
      · split
        · exact ih renames.tail _
        · exact ⟨_, rfl⟩

/-- A failing rename of a file that exists. -/
theorem renameFile_false (src dst : Name) (files : Files) :
    (renameFile false src dst files).1 = false := by
  simp [renameFile]

/-- The loop ends without an exception when none of its renames fails. -/
theorem rotateLoop_ok_iff {n : Nat} (hn : n < 2 ^ 32) (renames : List Bool) (s : State) :
    (State.rotateLoop n renames s).2 = true ↔
      false ∉ renames.take (sources s.fileName s.files n) := by
  induction n generalizing renames s with
  | zero => simp [State.rotateLoop, sources]
  | succ n ih =>
      have hn' : n < 2 ^ 32 := Nat.lt_of_succ_lt hn
      unfold State.rotateLoop sources
      simp only
      cases hfile : s.files (slotName s.fileName n) with
      | none => simpa using ih hn' renames s
      | some file =>
          rcases slotsOf_rename hn hfile with ⟨files, hrename, hslots, _⟩
          have hsame : sources s.fileName files n = sources s.fileName s.files n := by
            apply sources_congr
            intro i hi
            have hi' : i < 2 ^ 32 := Nat.lt_trans hi hn'
            have hin : i ≠ n := Nat.ne_of_lt hi
            have hin1 : i ≠ n + 1 := Nat.ne_of_lt (Nat.lt_succ_of_lt hi)
            have hslot := congrFun hslots i
            rw [renameSlot_succ_apply, if_neg hin, if_neg hin1, slotsOf_of_lt hi',
              slotsOf_of_lt hi'] at hslot
            exact hslot
          cases renames with
          | nil =>
              have hrest := ih hn' [] { s with files := files }
              simpa [hrename] using hrest
          | cons b renames =>
              cases b with
              | false => simp [renameFile_false]
              | true =>
                  have hrest := ih hn' renames { s with files := files }
                  rw [hsame] at hrest
                  simpa [hrename] using hrest

/-- `Rotate` opens a fresh file and throws when one of its renames fails. -/
theorem rotate_eq {s : State} (hM : s.maxFileCount < 2 ^ 32) (renames : List Bool) (ok : Bool) :
    ∃ files, s.rotate renames ok =
      (State.openMcap ok { s with files := files, mcap := none },
        decide (false ∈ renames.take (sources s.fileName s.files s.maxFileCount))) := by
  have hloop := rotateLoop_ok_iff hM renames { s with mcap := none }
  rcases rotateLoop_files s.maxFileCount renames { s with mcap := none } with ⟨files, hfiles⟩
  apply Exists.intro files
  have hthrows : (!(State.rotateLoop s.maxFileCount renames { s with mcap := none }).2) =
      decide (false ∈ renames.take (sources s.fileName s.files s.maxFileCount)) := by
    rw [Bool.eq_iff_iff, Bool.not_eq_true', decide_eq_true_iff, ← Bool.not_eq_true, hloop,
      not_not]
  unfold State.rotate
  simp only [hfiles, hthrows]

/-! ## The counter -/

/-- `_current_file_size` is the payload size of the file that is open. -/
def Counts (s : State) : Prop :=
  s.mcap = some true →
    (s.files (cStr s.fileName)).map (fun file => (file.map List.length).sum) =
      some s.currentFileSize

/-- A call that rotates and whose renames do not all succeed. -/
def RenameFails (s : State) (c : Call) : Prop :=
  s.currentFileSize + c.request.payload.length > s.maxFileSize ∧
    false ∈ c.renames.take (sources s.fileName s.files s.maxFileCount)

/-- A rename fails while the file that is closed has messages, and a fresh one opens. -/
def Forgets (s : State) (c : Call) : Prop :=
  RenameFails s c ∧ c.opens = true ∧ s.currentFileSize ≠ 0

/-- The three ways of a call: the message fits, it goes to a fresh file, or the call
throws. -/
theorem call_cases {s : State} (hM : s.maxFileCount < 2 ^ 32) (hmcap : s.mcap ≠ none)
    (c : Call) :
    (s.currentFileSize + c.request.payload.length ≤ s.maxFileSize ∧
      (s.call c).1 = { s.record c.request.payload with
        currentFileSize := s.currentFileSize + c.request.payload.length }) ∨
    (s.currentFileSize + c.request.payload.length > s.maxFileSize ∧ ¬ RenameFails s c ∧
      ∃ files, (s.call c).1 =
        { (State.openMcap c.opens { s with files := files, mcap := none }).record
            c.request.payload with
          currentFileSize := c.request.payload.length }) ∨
    (RenameFails s c ∧ ∃ files, (s.call c).1 =
      State.openMcap c.opens { s with files := files, mcap := none }) := by
  rw [call_eq_store, State.store, if_neg hmcap]
  simp only
  by_cases hfull : s.currentFileSize + c.request.payload.length > s.maxFileSize
  · rw [if_pos hfull]
    rcases rotate_eq hM c.renames c.opens with ⟨files, hrotate⟩
    rw [hrotate]
    right
    by_cases hfails : false ∈ c.renames.take (sources s.fileName s.files s.maxFileCount)
    · right
      constructor
      · exact ⟨hfull, hfails⟩
      · apply Exists.intro files
        rw [if_pos (decide_eq_true hfails)]
    · left
      constructor
      · exact hfull
      · constructor
        · exact fun hrename => hfails hrename.2
        · apply Exists.intro files
          rw [if_neg (by simpa using hfails)]
  · rw [if_neg hfull]
    exact Or.inl ⟨Nat.not_lt.mp hfull, rfl⟩

/-- A file that could not be opened has no size to count. -/
theorem Counts.of_closed {s : State} (h : s.mcap = some false) : Counts s := by
  intro hopen
  rw [h] at hopen
  contradiction

/-- Recording a message adds its size. -/
theorem record_counts {s : State} (h : Counts s) (payload : Bytes) :
    Counts { s.record payload with currentFileSize := s.currentFileSize + payload.length } := by
  unfold State.record
  split
  · rename_i hopen
    intro _
    have hsum := h hopen
    show (Function.update s.files (cStr s.fileName)
      ((s.files (cStr s.fileName)).map (fun file => file ++ [payload])) (cStr s.fileName)).map
        (fun file => (file.map List.length).sum) = some (s.currentFileSize + payload.length)
    rw [Function.update_self, Option.map_map]
    rw [Option.map_eq_some_iff] at hsum
    rcases hsum with ⟨file, hfile, hsize⟩
    rw [hfile]
    simp [hsize]
  · rename_i hclosed
    intro hopen
    exact absurd hopen hclosed

/-- A fresh file is empty. -/
theorem openMcap_counts_iff (ok : Bool) (s : State) :
    Counts (s.openMcap ok) ↔ (ok = true → s.currentFileSize = 0) := by
  cases ok with
  | true =>
      have hfile : (s.openMcap true).files (cStr (s.openMcap true).fileName) = some [] :=
        Function.update_self _ _ _
      rw [Counts, hfile]
      constructor
      · intro h _
        exact (Option.some.inj (h rfl)).symm
      · intro h _
        exact congrArg some (h rfl).symm
  | false =>
      constructor
      · intro _ h
        contradiction
      · intro _
        exact Counts.of_closed rfl

theorem openMcap_mcap (ok : Bool) (s : State) : (s.openMcap ok).mcap = some ok := by
  cases ok <;> rfl

theorem record_mcap (payload : Bytes) (s : State) : (s.record payload).mcap = s.mcap := by
  unfold State.record
  split <;> rfl

/-- What every call leaves alone. -/
theorem call_setup {s : State} (hM : s.maxFileCount < 2 ^ 32) (hmcap : s.mcap ≠ none)
    (c : Call) : (s.call c).1.maxFileCount = s.maxFileCount ∧ (s.call c).1.mcap ≠ none := by
  have hrecord : ∀ (payload : Bytes) (t : State),
      (t.record payload).maxFileCount = t.maxFileCount := by
    intro payload t
    unfold State.record
    split <;> rfl
  have hopenMcap : ∀ (ok : Bool) (t : State),
      (t.openMcap ok).maxFileCount = t.maxFileCount := by
    intro ok t
    cases ok <;> rfl
  rcases call_cases hM hmcap c with ⟨_, hcall⟩ | ⟨_, _, files, hcall⟩ | ⟨_, files, hcall⟩
  · rw [hcall]
    exact ⟨hrecord _ _, (record_mcap _ _).symm ▸ hmcap⟩
  · rw [hcall]
    simp only [hrecord, record_mcap, hopenMcap, openMcap_mcap]
    exact ⟨trivial, Option.some_ne_none _⟩
  · rw [hcall, hopenMcap, openMcap_mcap]
    exact ⟨rfl, Option.some_ne_none _⟩

/-- A call keeps the counter exact unless it forgets to reset it. -/
theorem call_counts_iff {s : State} (hM : s.maxFileCount < 2 ^ 32) (hmcap : s.mcap ≠ none)
    (h : Counts s) (c : Call) : Counts (s.call c).1 ↔ ¬ Forgets s c := by
  unfold Forgets
  rcases call_cases hM hmcap c with
    ⟨hfits, hcall⟩ | ⟨_, hrenames, files, hcall⟩ | ⟨hfails, files, hcall⟩
  · rw [hcall]
    constructor
    · intro _ hforgets
      exact absurd hforgets.1.1 (Nat.not_lt.mpr hfits)
    · exact fun _ => record_counts h _
  · rw [hcall]
    constructor
    · exact fun _ hforgets => hrenames hforgets.1
    · intro _
      have hempty : Counts (State.openMcap c.opens
          { s with files := files, mcap := none, currentFileSize := 0 }) :=
        (openMcap_counts_iff _ _).mpr (fun _ => rfl)
      have hrecorded := record_counts hempty c.request.payload
      cases hopens : c.opens with
      | true =>
          rw [hopens] at hrecorded
          simpa [State.openMcap, State.record] using hrecorded
      | false => exact Counts.of_closed rfl
  · rw [hcall, openMcap_counts_iff]
    constructor
    · intro hzero hforgets
      exact hforgets.2.2 (hzero hforgets.2.1)
    · intro hkeeps hopens
      by_contra hsize
      exact hkeeps ⟨hfails, hopens, hsize⟩

/-! ## Runs -/

/-- A run from a state with an exact counter. -/
theorem counts_run_iff {s : State} (hM : s.maxFileCount < 2 ^ 32) (hmcap : s.mcap ≠ none)
    (h : Counts s) (cs : List Call) :
    (∀ p q, cs = p ++ q → Counts (State.calls p s)) ↔
      ∀ p c q, cs = p ++ c :: q → ¬ Forgets (State.calls p s) c := by
  induction cs generalizing s with
  | nil =>
      constructor
      · intro _ p c q hsplit
        simp at hsplit
      · intro _ p q hsplit
        rcases List.append_eq_nil_iff.mp hsplit.symm with ⟨rfl, _⟩
        exact h
  | cons c cs ih =>
      have hcall := call_counts_iff hM hmcap h c
      have hsetup := call_setup hM hmcap c
      have hrest := ih (hsetup.1.symm ▸ hM) hsetup.2
      constructor
      · intro hall p c' q hsplit
        have hfirst : Counts (s.call c).1 := hall [c] cs rfl
        cases p with
        | nil =>
            rcases List.cons.inj hsplit with ⟨rfl, _⟩
            exact hcall.mp hfirst
        | cons d p =>
            rcases List.cons.inj hsplit with ⟨rfl, htail⟩
            apply (hrest hfirst).mp _ p c' q htail
            intro p' q' hp'
            exact hall (c :: p') q' (congrArg (List.cons c) hp')
      · intro hall p q hsplit
        have hfirst : Counts (s.call c).1 := hcall.mpr (hall [] c cs rfl)
        cases p with
        | nil => exact h
        | cons d p =>
            rcases List.cons.inj hsplit with ⟨rfl, htail⟩
            apply (hrest hfirst).mpr _ p q htail
            intro p' c' q' hp'
            exact hall (c :: p') c' q' (congrArg (List.cons c) hp')

/-- For every run of a rotator, with any outcomes of its renames and opens: the counter
is the payload size of the open file in every state of the run if and only if no call
whose rename fails closes a file with messages and opens a fresh one. -/
theorem counts_iff (fileName : Name) (maxFileSize maxFileCount : Nat) (files : Files) (ok : Bool)
    (hM : maxFileCount < 2 ^ 32) (cs : List Call) :
    (∀ p q, cs = p ++ q →
      Counts (State.calls p (State.construct fileName maxFileSize maxFileCount files ok))) ↔
    ∀ p c q, cs = p ++ c :: q →
      ¬ Forgets (State.calls p (State.construct fileName maxFileSize maxFileCount files ok)) c := by
  apply counts_run_iff
  · unfold State.construct State.openMcap
    split
    · exact hM
    · exact hM
  · rw [State.construct, openMcap_mcap]
    exact Option.some_ne_none ok
  · exact (openMcap_counts_iff _ _).mpr (fun _ => rfl)

/-! ## A failing rename -/

/-- Three bytes fill most of the first file; the rename for the next message fails. -/
def fullThenFailing : List Call :=
  [{ request := .publish [1, 2, 3], renames := [], opens := true },
    { request := .publish [4, 5], renames := [false], opens := true }]

/-- The rotator of the run. -/
def smallRotator : State :=
  State.construct ['r', '.', 'm'] 4 1 (fun _ => none) true

/-- The fresh file is empty and the counter says three, so that the next message of two
bytes, which fits, rotates again. -/
theorem count_of_closed_file :
    let s := State.calls fullThenFailing smallRotator
    (s.mcap = some true ∧ s.files ['r', '.', 'm'] = some [] ∧ s.currentFileSize = 3 ∧
      ¬ Counts s) ∧
    (s.call { request := .publish [6, 7], renames := [], opens := true }).1.files
      ['r', '.', '1', '.', 'm'] = some [] := by
  unfold Counts
  decide

/-- A message that is larger than a file. -/
def oversized : Call where
  request := .publish [1, 2, 3, 4, 5]
  renames := [false]
  opens := true

/-- A failing rename of an empty file does no harm. -/
theorem counts_iff_oversized : Counts (State.calls [oversized] smallRotator) := by
  have hrun := (counts_iff ['r', '.', 'm'] 4 1 (fun _ => none) true (by decide) [oversized]).mpr
  apply hrun _ [oversized] [] rfl
  intro p c q hsplit hforgets
  cases p with
  | nil =>
      have hc : oversized = c := (List.cons.inj hsplit).1
      rw [← hc] at hforgets
      exact hforgets.2.2 rfl
  | cons d p =>
      have htail := (List.cons.inj hsplit).2
      simp at htail

end Rotator
end Mcap
end DAQ
end DtCore
