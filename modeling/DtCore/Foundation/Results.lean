import Mathlib.Tactic
import Mathlib.Data.Set.Finite.Lattice

/-!
# Results of system calls

A loop that calls the operating system is run on the results of its calls, an infinite
sequence.  It has ended when it has ended on the first results of the sequence.

Main results:

- Theorem `firstResults_add`: the first results, and those that follow them.
- Theorem `eventually_zero`: when the first results never add up to some bound, only
  finitely many of them count.
-/

namespace DtCore
namespace Foundation

variable {ρ : Type}

/-- The first results of a sequence. -/
def firstResults (results : Nat → ρ) (k : Nat) : List ρ :=
  (List.range k).map results

variable {results : Nat → ρ}

@[simp]
theorem length_firstResults (k : Nat) : (firstResults results k).length = k := by
  rw [firstResults, List.length_map, List.length_range]

theorem firstResults_succ (k : Nat) :
    firstResults results (k + 1) = firstResults results k ++ [results k] := by
  rw [firstResults, List.range_succ, List.map_append, List.map_singleton, firstResults]

theorem firstResults_add (j k : Nat) :
    firstResults results (j + k) =
      firstResults results j ++ firstResults (fun i => results (j + i)) k := by
  rw [firstResults, List.range_add, List.map_append, List.map_map, firstResults, firstResults]
  rfl

theorem firstResults_cons (k : Nat) :
    firstResults results (k + 1) = results 0 :: firstResults (fun i => results (i + 1)) k := by
  rw [firstResults, List.range_succ_eq_map, List.map_cons, List.map_map, firstResults]
  rfl

theorem mem_firstResults {r : ρ} {k : Nat} :
    r ∈ firstResults results k ↔ ∃ i < k, results i = r := by
  simp [firstResults]

/-- What the first results add up to. -/
def firstSum (size : ρ → Nat) (results : Nat → ρ) (k : Nat) : Nat :=
  ((firstResults results k).map size).sum

variable {size : ρ → Nat}

@[simp]
theorem firstSum_zero : firstSum size results 0 = 0 :=
  rfl

theorem firstSum_succ (k : Nat) :
    firstSum size results (k + 1) = firstSum size results k + size (results k) := by
  rw [firstSum, firstResults_succ, List.map_append, List.sum_append, List.map_singleton,
    List.sum_singleton, firstSum]

theorem firstSum_mono {j k : Nat} (h : j ≤ k) :
    firstSum size results j ≤ firstSum size results k := by
  induction h with
  | refl => exact Nat.le_refl _
  | step _ ih =>
      rw [Nat.succ_eq_add_one, firstSum_succ]
      omega

/-- Results that do not count make no difference. -/
theorem firstSum_le_of_zero {N : Nat} (h : ∀ i ≥ N, size (results i) = 0) (k : Nat) :
    firstSum size results k ≤ firstSum size results N := by
  rcases Nat.le_total k N with hk | hk
  · exact firstSum_mono hk
  · induction hk with
    | refl => exact Nat.le_refl _
    | step hk ih =>
        rw [Nat.succ_eq_add_one, firstSum_succ, h _ hk]
        exact ih

/-- Results of which infinitely many count add up to anything. -/
theorem exists_le_firstSum (h : ∀ N, ∃ i ≥ N, size (results i) ≠ 0) (bound : Nat) :
    ∃ k, bound ≤ firstSum size results k := by
  induction bound with
  | zero => exact ⟨0, Nat.zero_le _⟩
  | succ bound ih =>
      rcases ih with ⟨k, hk⟩
      rcases h k with ⟨i, hi, hsize⟩
      have hmono : firstSum size results k ≤ firstSum size results i := firstSum_mono hi
      apply Exists.intro (i + 1)
      rw [firstSum_succ]
      omega

theorem eventually_zero {bound : Nat} (h : ∀ k, firstSum size results k < bound) :
    ∃ N, ∀ i ≥ N, size (results i) = 0 := by
  by_contra hnot
  push Not at hnot
  rcases exists_le_firstSum hnot bound with ⟨k, hk⟩
  exact absurd (h k) (Nat.not_lt.2 hk)

theorem eventually_ne {r : ρ} (h : {i | results i = r}.Finite) : ∃ N, ∀ i ≥ N, results i ≠ r := by
  rcases h.bddAbove with ⟨N, hN⟩
  apply Exists.intro (N + 1)
  intro i hi heq
  have hle : i ≤ N := hN heq
  omega

end Foundation
end DtCore
