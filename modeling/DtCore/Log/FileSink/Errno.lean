import DtCore.Log.FileSink.Files

/-!
# `errno` after a rotation

`RotateFiles` ignores whether its calls succeed, but a call that fails sets `errno`.

Main results:

- Theorem `renameAll_errno`: a rotation leaves `errno` alone when none of its calls fails.
-/

namespace DtCore
namespace Log
namespace FileSink

open Foundation

/-- No `unlink` or `rename` of a rotation fails; a flush leaves a base file to rename. -/
def RotationClean (s : State) : Prop :=
  (1 < s.maxFiles → s.unlinks.headD true = true ∧ (s.files s.maxFiles).isSome = true) ∧
    (∀ i < s.maxFiles, 0 < i → (s.files i).isSome = true) ∧
    (s.buffer = [] → (s.files 0).isSome = true) ∧
    ∀ ok ∈ s.renames.take (s.maxFiles - 1 + 1), ok = true

instance decidableRotationClean (s : State) : Decidable (RotationClean s) :=
  inferInstanceAs (Decidable (_ ∧ _))

theorem rotationClean_congr {s t : State} (hmax : t.maxFiles = s.maxFiles)
    (hunlinks : t.unlinks = s.unlinks) (hrenames : t.renames = s.renames)
    (hfiles : ∀ i, 0 < i → t.files i = s.files i)
    (hbase : (t.buffer = [] → (t.files 0).isSome = true) ↔
      (s.buffer = [] → (s.files 0).isSome = true)) :
    RotationClean t ↔ RotationClean s := by
  rw [RotationClean, RotationClean, hmax, hunlinks, hrenames, hbase]
  apply and_congr
  · apply imp_congr_right
    intro hmany
    rw [hfiles s.maxFiles (by omega)]
  · apply and_congr_left
    intro _
    apply forall₂_congr
    intro i _
    apply imp_congr_right
    intro hi
    rw [hfiles i hi]

/-- A flush of something leaves a base file and the same backups. -/
theorem rotationClean_wrote {s : State} (e : WriteEnd) (hbuffer : s.buffer ≠ []) :
    RotationClean { s.wrote e with buffer := [] } ↔ RotationClean s := by
  apply rotationClean_congr (s := s) (t := { s.wrote e with buffer := [] }) rfl rfl rfl
  · intro i hi
    exact Function.update_of_ne (Nat.ne_of_gt hi) _ _
  · have hbase : ((s.wrote e).files 0).isSome = true := by
      simp [State.wrote, State.appendBase]
    exact iff_of_true (fun _ => hbase) (fun hnil => absurd hnil hbuffer)

/-! ## Rotation -/

theorem rename_errno (s : State) (src dst : Nat) :
    (s.rename src dst).errno =
      if s.renames.headD true = true ∧ (s.files src).isSome = true then s.errno else .other := by
  rw [State.rename]
  split <;> rfl

theorem rename_renames (s : State) (src dst : Nat) :
    (s.rename src dst).renames = s.renames.tail := by
  rw [State.rename]
  split <;> rfl

theorem rename_files_of_ne (s : State) {src dst i : Nat} (hsrc : i ≠ src) (hdst : i ≠ dst) :
    (s.rename src dst).files i = s.files i := by
  rw [State.rename]
  split
  · change renameSlot s.files src dst i = s.files i
    rw [renameSlot]
    cases s.files src with
    | none => rfl
    | some c => exact (Function.update_of_ne hsrc _ _).trans (Function.update_of_ne hdst _ _)
  · rfl

theorem forall_mem_take_succ {l : List Bool} {n : Nat} :
    (∀ ok ∈ l.take (n + 1), ok = true) ↔
      l.headD true = true ∧ ∀ ok ∈ l.tail.take n, ok = true := by
  cases l with
  | nil => simp
  | cons ok l => simp

/-- What the renames of the backups below `n + 1` need. -/
def BackupsClean (n : Nat) (s : State) : Prop :=
  (∀ i < n + 1, 0 < i → (s.files i).isSome = true) ∧ ∀ ok ∈ s.renames.take n, ok = true

instance decidableBackupsClean (n : Nat) (s : State) : Decidable (BackupsClean n s) :=
  inferInstanceAs (Decidable (_ ∧ _))

theorem backupsClean_succ (n : Nat) (s : State) :
    BackupsClean (n + 1) s ↔
      (s.renames.headD true = true ∧ (s.files (n + 1)).isSome = true) ∧
        BackupsClean n (s.rename (n + 1) (n + 2)) := by
  have hfiles : ∀ i < n + 1, (s.rename (n + 1) (n + 2)).files i = s.files i :=
    fun i hi => rename_files_of_ne s (by omega) (by omega)
  have hbelow : (∀ i < n + 1 + 1, 0 < i → (s.files i).isSome = true) ↔
      (s.files (n + 1)).isSome = true ∧
        ∀ i < n + 1, 0 < i → ((s.rename (n + 1) (n + 2)).files i).isSome = true := by
    constructor
    · intro h
      apply And.intro (h (n + 1) (by omega) (by omega))
      intro i hi hpos
      rw [hfiles i hi]
      exact h i (by omega) hpos
    · rintro ⟨hlast, h⟩ i hi hpos
      rcases Nat.lt_succ_iff_lt_or_eq.1 hi with hi | rfl
      · rw [← hfiles i hi]
        exact h i hi hpos
      · exact hlast
  rw [BackupsClean, BackupsClean, hbelow, forall_mem_take_succ, rename_renames]
  tauto

/-- The renames of the backups set `errno` when one of them fails. -/
theorem renameBackups_below {n : Nat} {s : State} (hn : n < s.maxFiles - 1) :
    (State.renameBackups n s).errno = (if BackupsClean n s then s.errno else .other) ∧
      (State.renameBackups n s).renames = s.renames.drop n ∧
        (State.renameBackups n s).files 0 = s.files 0 := by
  induction n generalizing s with
  | zero => simp [State.renameBackups, BackupsClean]
  | succ n ih =>
      have hne : n + 1 ≠ s.maxFiles - 1 := by omega
      have hsame := rename_same s (n + 1) (n + 2)
      rcases ih (s := s.rename (n + 1) (n + 2)) (by rw [hsame.maxFiles]; omega) with
        ⟨herrno, hrenames, hbase⟩
      simp only [State.renameBackups, if_neg hne]
      rw [herrno, hrenames, hbase, rename_renames, rename_errno,
        rename_files_of_ne s (by omega) (by omega)]
      refine ⟨?_, by rw [List.drop_tail], rfl⟩
      by_cases hclean : BackupsClean n (s.rename (n + 1) (n + 2))
      · simp [backupsClean_succ, hclean]
      · simp [backupsClean_succ, hclean]

theorem unlink_errno (s : State) (i : Nat) :
    (s.unlink i).errno =
      if s.unlinks.headD true = true ∧ (s.files i).isSome = true then s.errno else .other := by
  rw [State.unlink]
  split <;> rfl

theorem unlink_renames (s : State) (i : Nat) : (s.unlink i).renames = s.renames := by
  rw [State.unlink]
  split <;> rfl

theorem unlink_files_of_ne (s : State) {i j : Nat} (h : j ≠ i) :
    (s.unlink i).files j = s.files j := by
  rw [State.unlink]
  split
  · exact Function.update_of_ne h _ _
  · rfl

/-- The last backup is unlinked first. -/
theorem renameBackups_top {k : Nat} {s : State} (hk : s.maxFiles = k + 2) :
    (State.renameBackups (k + 1) s).errno =
        (if BackupsClean (k + 1) (s.unlink (k + 2)) then (s.unlink (k + 2)).errno else .other) ∧
      (State.renameBackups (k + 1) s).renames = s.renames.drop (k + 1) ∧
        (State.renameBackups (k + 1) s).files 0 = s.files 0 := by
  have heq : k + 1 = s.maxFiles - 1 := by omega
  have hunlink := unlink_same s (k + 2)
  have hsame := rename_same (s.unlink (k + 2)) (k + 1) (k + 2)
  have hbelow : k < ((s.unlink (k + 2)).rename (k + 1) (k + 2)).maxFiles - 1 := by
    rw [hsame.maxFiles, hunlink.maxFiles]
    omega
  rcases renameBackups_below hbelow with ⟨herrno, hrenames, hbase⟩
  simp only [State.renameBackups, if_pos heq]
  rw [herrno, hrenames, hbase, rename_renames, unlink_renames, rename_errno, unlink_renames,
    rename_files_of_ne _ (by omega) (by omega), unlink_files_of_ne _ (by omega),
    unlink_files_of_ne _ (by omega)]
  refine ⟨?_, by rw [List.drop_tail], rfl⟩
  have hlast : (s.unlink (k + 2)).files (k + 1) = s.files (k + 1) :=
    unlink_files_of_ne s (by omega)
  simp only [backupsClean_succ, unlink_renames, hlast]
  by_cases hclean : BackupsClean k ((s.unlink (k + 2)).rename (k + 1) (k + 2))
  · simp [hclean]
  · simp [hclean]

theorem forall_mem_take_append {l : List Bool} {n : Nat} :
    (∀ ok ∈ l.take (n + 1), ok = true) ↔
      (∀ ok ∈ l.take n, ok = true) ∧ (l.drop n).headD true = true := by
  induction n generalizing l with
  | zero => cases l <;> simp
  | succ n ih =>
      rw [forall_mem_take_succ, ih, forall_mem_take_succ, and_assoc, List.drop_tail]

/-- What a rotation of several files needs. -/
theorem rotationClean_of_many {k : Nat} {s : State} (hk : s.maxFiles = k + 2)
    (hbuffer : s.buffer = []) :
    RotationClean s ↔
      (s.unlinks.headD true = true ∧ (s.files (k + 2)).isSome = true) ∧
        BackupsClean (k + 1) (s.unlink (k + 2)) ∧
          (s.renames.drop (k + 1)).headD true = true ∧ (s.files 0).isSome = true := by
  have hbackups : (∀ i < k + 1 + 1, 0 < i → ((s.unlink (k + 2)).files i).isSome = true) ↔
      ∀ i < k + 2, 0 < i → (s.files i).isSome = true := by
    apply forall₂_congr
    intro i hi
    rw [unlink_files_of_ne s (by omega)]
  rw [RotationClean, BackupsClean, hbackups, unlink_renames, hk,
    show k + 2 - 1 + 1 = k + 1 + 1 by omega, forall_mem_take_append]
  simp only [hbuffer, true_imp_iff]
  have hmany : 1 < k + 2 := by omega
  simp only [hmany, true_imp_iff]
  tauto

/-- A rotation after a flush leaves `errno` alone when none of its calls fails. -/
theorem renameAll_errno {s : State} (hbuffer : s.buffer = []) :
    s.renameAll.errno = if RotationClean s then s.errno else .other := by
  rw [State.renameAll, rename_errno]
  cases hm : s.maxFiles - 1 with
  | zero =>
      have hone : ∀ i < s.maxFiles, ¬ 0 < i := by omega
      have hclean : RotationClean s ↔
          s.renames.headD true = true ∧ (s.files 0).isSome = true := by
        rw [RotationClean, hm, forall_mem_take_succ]
        have hfew : ¬ 1 < s.maxFiles := by omega
        simp only [hbuffer, hfew, true_imp_iff, false_imp_iff, true_and, List.take_zero]
        constructor
        · rintro ⟨_, hbase, hhead, _⟩
          exact ⟨hhead, hbase⟩
        · rintro ⟨hhead, hbase⟩
          exact ⟨fun i hi hpos => absurd hpos (hone i hi), hbase, hhead, by simp⟩
      rw [State.renameBackups]
      simp only [hclean]
  | succ k =>
      have hk : s.maxFiles = k + 2 := by omega
      rcases renameBackups_top hk with ⟨herrno, hrenames, hbase⟩
      rw [herrno, hrenames, hbase, unlink_errno]
      simp only [rotationClean_of_many hk hbuffer]
      by_cases hbackups : BackupsClean (k + 1) (s.unlink (k + 2))
      · by_cases hlast : (s.renames.drop (k + 1)).headD true = true ∧ (s.files 0).isSome = true
        · simp only [hbackups, hlast]
          simp
        · simp only [hbackups, hlast]
          simp
      · simp [hbackups]

end FileSink
end Log
end DtCore
