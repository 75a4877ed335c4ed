import DtCore.DAQ.Mcap.Sink
import DtCore.Foundation.Results

/-!
# When `handleWrite` returns

`handleWrite` calls `write` until all bytes are out or `write` fails for another reason
than a signal.  A `write` that writes nothing is no failure, and nothing makes the loop
give up after one.

Main definitions:

- `handleWriteLoop`: the loop of `handleWrite`.
- `HandleWriteReturns`: the loop ends on an infinite sequence of results.
- `WritesNothing`: from some result on `write` writes nothing, before the bytes are out.

Main results:

- Theorem `foldl_writeReturned`, `foldl_writeReturned_none`: the loop is what the sink
  does with the results of `write`.
- Theorem `handleWriteLoop_eq_none_iff`: on which results the loop goes on.
- Theorem `handleWrite_returns_iff`: with finitely many interrupted calls, `handleWrite`
  returns unless `write` goes on writing nothing.
-/

namespace DtCore
namespace DAQ
namespace Mcap

open Foundation

/-! ## The loop -/

/-- How `handleWrite` ends, and the results that it has left. -/
structure HandleWriteEnd where
  written : Bytes
  log : List String
  rest : List WriteResult

/-- The loop of `handleWrite`; `none` when it needs more results. -/
def handleWriteLoop : List WriteResult → Bytes → Option HandleWriteEnd
  | rs, [] => some { written := [], log := [], rest := rs }
  | [], _ :: _ => none
  | .count n :: rs, remaining =>
      (handleWriteLoop rs (remaining.drop n)).map
        (fun e => { e with written := remaining.take n ++ e.written })
  | .fail .eintr :: rs, remaining => handleWriteLoop rs remaining
  | .fail (.hard strerror) :: rs, _ :: _ =>
      some { written := [], log := ["[MCAP] write() failed: " ++ strerror], rest := rs }

/-- The loop ends on an infinite sequence of results. -/
def HandleWriteReturns (results : Nat → WriteResult) (data : Bytes) : Prop :=
  ∃ k, (handleWriteLoop (firstResults results k) data).isSome = true

/-- How many bytes a `write` of enough bytes writes. -/
def WriteResult.size : WriteResult → Nat
  | .count n => n
  | .fail _ => 0

/-- The failures that end the loop. -/
def WriteResult.Hard (r : WriteResult) : Prop :=
  ∃ strerror, r = .fail (.hard strerror)

/-- Before all of `size` bytes are out and without a hard failure, `write` comes to write
nothing, now and forever. -/
def WritesNothing (results : Nat → WriteResult) (size : Nat) : Prop :=
  ∃ N, (∀ i < N, ¬ (results i).Hard) ∧ firstSum WriteResult.size results N < size ∧
    ∀ i ≥ N, results i = .count 0

/-! ## The loop in the sink -/

variable {W : Type}

section Equations

variable (rs : List WriteResult) (b : UInt8) (data : Bytes)

@[simp]
theorem handleWriteLoop_nil :
    handleWriteLoop rs [] = some { written := [], log := [], rest := rs } := by
  rw [handleWriteLoop]

@[simp]
theorem handleWriteLoop_count (n : Nat) : handleWriteLoop (.count n :: rs) (b :: data) =
    (handleWriteLoop rs ((b :: data).drop n)).map
      (fun e => { e with written := (b :: data).take n ++ e.written }) := by
  rw [handleWriteLoop]
  simp

@[simp]
theorem handleWriteLoop_eintr : handleWriteLoop (.fail .eintr :: rs) (b :: data) =
    handleWriteLoop rs (b :: data) := by
  rw [handleWriteLoop]
  simp

end Equations

theorem handleWriteLoop_eq_none_iff (rs : List WriteResult) (data : Bytes) :
    handleWriteLoop rs data = none ↔
      (∀ r ∈ rs, ¬ r.Hard) ∧ (rs.map WriteResult.size).sum < data.length := by
  induction rs generalizing data with
  | nil => cases data <;> simp [handleWriteLoop]
  | cons r rs ih =>
      cases data with
      | nil => simp
      | cons b data =>
          rw [List.forall_mem_cons]
          cases r with
          | count n =>
              have hsoft : ¬ (WriteResult.count n).Hard := by simp [WriteResult.Hard]
              rw [handleWriteLoop_count, Option.map_eq_none_iff, ih, List.length_drop,
                List.map_cons, List.sum_cons, WriteResult.size]
              constructor
              · rintro ⟨hrs, hsum⟩
                exact ⟨⟨hsoft, hrs⟩, by omega⟩
              · rintro ⟨⟨_, hrs⟩, hsum⟩
                exact ⟨hrs, by omega⟩
          | fail errno =>
              cases errno with
              | eintr =>
                  have hsoft : ¬ (WriteResult.fail .eintr).Hard := by simp [WriteResult.Hard]
                  rw [handleWriteLoop_eintr, ih, and_iff_right hsoft, List.map_cons,
                    List.sum_cons, WriteResult.size, Nat.zero_add]
              | hard strerror => simp [handleWriteLoop, WriteResult.Hard]

theorem writeReturned_more {s : State W} {n : Nat} (h : s.remaining.drop n ≠ []) :
    s.writeReturned (.count n) =
      { s with
        appended := s.appended ++ s.remaining.take n
        size := s.size + (s.remaining.take n).length
        remaining := s.remaining.drop n } := by
  rw [State.writeReturned]
  exact if_neg h

theorem writeReturned_done {s : State W} {n : Nat} (h : s.remaining.drop n = []) :
    s.writeReturned (.count n) =
      State.handleWrites s.queue
        { s with
          appended := s.appended ++ s.remaining.take n
          size := s.size + (s.remaining.take n).length
          remaining := [] } := by
  rw [State.writeReturned]
  simp only [h, if_true]

/-- When the loop ends, the sink has used the results up to there and goes on to the next
call of `handleWrite`. -/
theorem foldl_writeReturned {rs : List WriteResult} {s : State W} {e : HandleWriteEnd}
    (hs : s.remaining ≠ []) (h : handleWriteLoop rs s.remaining = some e) :
    ∃ used, rs = used ++ e.rest ∧ used.foldl (fun s r => s.writeReturned r) s =
      State.handleWrites s.queue
        { s with
          appended := s.appended ++ e.written
          size := s.size + e.written.length
          remaining := []
          log := s.log ++ e.log } := by
  induction rs generalizing s e with
  | nil =>
      cases hremaining : s.remaining with
      | nil => exact absurd hremaining hs
      | cons b data =>
          rw [hremaining] at h
          contradiction
  | cons r rs ih =>
      cases hremaining : s.remaining with
      | nil => exact absurd hremaining hs
      | cons b data =>
          rw [hremaining] at h
          cases r with
          | count n =>
              rw [handleWriteLoop_count, ← hremaining] at h
              rcases Option.map_eq_some_iff.1 h with ⟨e', he', rfl⟩
              by_cases hdone : s.remaining.drop n = []
              · rw [hdone, handleWriteLoop_nil, Option.some.injEq] at he'
                subst he'
                exact ⟨[.count n], rfl, by simp [writeReturned_done hdone]⟩
              · have hmore := writeReturned_more hdone
                rcases ih (s := s.writeReturned (.count n)) (e := e') (by rw [hmore]; exact hdone)
                    (by rw [hmore]; exact he') with ⟨used, hrs, hfold⟩
                apply Exists.intro (.count n :: used)
                constructor
                · rw [hrs, List.cons_append]
                · rw [List.foldl_cons, hfold, hmore]
                  simp [Nat.add_assoc]
          | fail errno =>
              cases errno with
              | eintr =>
                  rw [handleWriteLoop_eintr, ← hremaining] at h
                  rcases ih hs h with ⟨used, hrs, hfold⟩
                  exact ⟨.fail .eintr :: used, by rw [hrs, List.cons_append], hfold⟩
              | hard strerror =>
                  rw [handleWriteLoop, Option.some.injEq] at h
                  subst h
                  exact ⟨[.fail (.hard strerror)], rfl,
                    by simp [State.writeReturned, State.logLine]⟩

/-- Until the loop ends, the sink stays in the same call of `handleWrite`. -/
theorem foldl_writeReturned_none {rs : List WriteResult} {s : State W}
    (h : handleWriteLoop rs s.remaining = none) :
    (rs.foldl (fun s r => s.writeReturned r) s).remaining ≠ [] ∧
      (rs.foldl (fun s r => s.writeReturned r) s).queue = s.queue := by
  induction rs generalizing s with
  | nil =>
      rw [handleWriteLoop_eq_none_iff] at h
      exact ⟨List.length_pos_iff.1 h.2, rfl⟩
  | cons r rs ih =>
      cases hremaining : s.remaining with
      | nil =>
          rw [hremaining, handleWriteLoop_nil] at h
          contradiction
      | cons b data =>
          rw [hremaining] at h
          cases r with
          | count n =>
              rw [handleWriteLoop_count, Option.map_eq_none_iff, ← hremaining] at h
              have hmore : s.remaining.drop n ≠ [] := by
                intro hdone
                rw [hdone, handleWriteLoop_nil] at h
                contradiction
              have hstep := writeReturned_more hmore
              have hnext := ih (s := s.writeReturned (.count n)) (by rw [hstep]; exact h)
              rw [hstep] at hnext
              rw [List.foldl_cons, hstep]
              exact hnext
          | fail errno =>
              cases errno with
              | eintr =>
                  rw [handleWriteLoop_eintr, ← hremaining] at h
                  exact ih h
              | hard strerror => contradiction

/-! ## Infinite sequences -/

theorem not_returns_iff (results : Nat → WriteResult) (data : Bytes) :
    ¬ HandleWriteReturns results data ↔
      ∀ k, (∀ i < k, ¬ (results i).Hard) ∧ firstSum WriteResult.size results k < data.length := by
  rw [HandleWriteReturns, not_exists]
  apply forall_congr'
  intro k
  rw [Bool.not_eq_true, Option.isSome_eq_false_iff, Option.isNone_iff_eq_none,
    handleWriteLoop_eq_none_iff]
  apply and_congr_left
  intro _
  simp only [mem_firstResults]
  constructor
  · intro h i hi
    exact h _ ⟨i, hi, rfl⟩
  · rintro h r ⟨i, hi, rfl⟩
    exact h i hi

/-- A result that writes nothing and does not end the loop. -/
theorem eq_zero_of_soft {r : WriteResult} (hsoft : ¬ r.Hard) (hsize : r.size = 0)
    (hne : r ≠ .fail .eintr) : r = .count 0 := by
  cases r with
  | count n => rw [show n = 0 from hsize]
  | fail errno =>
      cases errno with
      | eintr => exact absurd rfl hne
      | hard strerror => exact absurd ⟨strerror, rfl⟩ hsoft

/-- When signals interrupt finitely many calls, `handleWrite` returns unless `write` comes
to write nothing, forever, before all bytes are out. -/
theorem handleWrite_returns_iff {results : Nat → WriteResult}
    (hfin : {i | results i = .fail .eintr}.Finite) (data : Bytes) :
    HandleWriteReturns results data ↔ ¬ WritesNothing results data.length := by
  rw [iff_not_comm, not_returns_iff]
  constructor
  · rintro ⟨N, hsoft, hsum, hzero⟩ k
    constructor
    · intro i _
      rcases Nat.lt_or_ge i N with hi | hi
      · exact hsoft i hi
      · simp [hzero i hi, WriteResult.Hard]
    · have hle : firstSum WriteResult.size results k ≤ firstSum WriteResult.size results N :=
        firstSum_le_of_zero (fun i hi => by rw [hzero i hi, WriteResult.size]) k
      omega
  · intro h
    rcases eventually_zero (fun k => (h k).2) with ⟨N, hN⟩
    rcases eventually_ne hfin with ⟨M, hM⟩
    apply Exists.intro (max N M)
    refine ⟨fun i _ => (h (i + 1)).1 i (Nat.lt_succ_self i), (h _).2, ?_⟩
    intro i hi
    exact eq_zero_of_soft ((h (i + 1)).1 i (Nat.lt_succ_self i))
      (hN i (le_of_max_le_left hi)) (hM i (le_of_max_le_right hi))

/-- After an interrupted call and a part of the data the disk is full: a failing `write` ends
the loop, one that writes nothing does not. -/
theorem handleWrite_returns_iff_full_disk :
    HandleWriteReturns
        (fun i => if i = 0 then .fail .eintr else if i = 1 then .count 1 else .fail (.hard "full"))
        [1, 2] ∧
      ¬ HandleWriteReturns
        (fun i => if i = 0 then .fail .eintr else if i = 1 then .count 1 else .count 0)
        [1, 2] := by
  have hfin : ∀ {results : Nat → WriteResult}, (∀ i ≠ 0, results i ≠ .fail .eintr) →
      {i | results i = .fail .eintr}.Finite := by
    intro results hlater
    apply (Set.finite_singleton 0).subset
    intro i hi
    by_contra hne
    exact hlater i hne hi
  constructor
  · rw [handleWrite_returns_iff (hfin _)]
    · rintro ⟨n, -, -, hzeros⟩
      have hfull := hzeros (n + 2) (by omega)
      simp at hfull
    · intro i hi
      rw [if_neg hi]
      split <;> simp
  · rw [handleWrite_returns_iff (hfin _), not_not]
    · refine ⟨2, ?_, by decide, ?_⟩
      · intro i _
        dsimp only
        split
        · simp [WriteResult.Hard]
        · split <;> simp [WriteResult.Hard]
      · intro i hi
        dsimp only
        rw [if_neg (by omega), if_neg (by omega)]
    · intro i hi
      rw [if_neg hi]
      split <;> simp

/-- A `write` that always writes nothing keeps the loop going. -/
theorem handleWrite_loops :
    {i | (fun _ : Nat => WriteResult.count 0) i = .fail .eintr}.Finite ∧
      ¬ HandleWriteReturns (fun _ => .count 0) [1] := by
  constructor
  · simp
  · rw [not_returns_iff]
    intro k
    have hzero : ∀ i ≥ 0, WriteResult.size ((fun _ : Nat => WriteResult.count 0) i) = 0 :=
      fun _ _ => rfl
    have hle := firstSum_le_of_zero hzero k
    rw [firstSum_zero] at hle
    exact ⟨by simp [WriteResult.Hard], Nat.lt_of_le_of_lt hle Nat.one_pos⟩

end Mcap
end DAQ
end DtCore
