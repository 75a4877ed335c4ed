import Mathlib.Algebra.BigOperators.Group.Finset.Piecewise
import Mathlib.Algebra.BigOperators.Group.Finset.Basic
import Mathlib.Data.Finset.Card
import Mathlib.Data.Finset.Range
import Mathlib.Logic.Function.Basic

/-!
# Tallies

A table gives some of the numbers below a bound a value.  Its tally counts how
often each value occurs, so that the tally changes by one when an entry is
filled or cleared.  The load of a table of weights is their sum.

Main results:

- Theorem `tally_fill`, `tally_clear`: filling and clearing one entry.
- Theorem `tally_succ`: an empty entry at the end.
- Theorem `load_update`: changing one weight.
-/

namespace DtCore
namespace Foundation

universe u

variable {α : Type u} [DecidableEq α]

/-- How many entries below `n` have the value `a`. -/
def tally (f : Nat → Option α) (n : Nat) (a : α) : Nat :=
  ((Finset.range n).filter (fun i => f i = some a)).card

theorem tally_empty (n : Nat) (a : α) : tally (fun _ => none) n a = 0 := by
  simp [tally]

theorem tally_fill {f : Nat → Option α} {n i : Nat} (hi : i < n) (hnone : f i = none) (b a : α) :
    tally (Function.update f i (some b)) n a = tally f n a + if b = a then 1 else 0 := by
  unfold tally
  by_cases heq : b = a
  · subst heq
    have hinsert : (Finset.range n).filter (fun j => Function.update f i (some b) j = some b) =
        insert i ((Finset.range n).filter (fun j => f j = some b)) := by
      ext j
      by_cases hj : j = i
      · subst hj
        simp [hi]
      · simp [hj]
    rw [hinsert, Finset.card_insert_of_notMem (by simp [hnone]), if_pos rfl]
  · have hsame : (Finset.range n).filter (fun j => Function.update f i (some b) j = some a) =
        (Finset.range n).filter (fun j => f j = some a) := by
      ext j
      by_cases hj : j = i
      · subst hj
        simp [hnone, heq]
      · simp [hj]
    rw [hsame, if_neg heq, Nat.add_zero]

theorem tally_clear {f : Nat → Option α} {n i : Nat} {b : α} (hi : i < n) (hsome : f i = some b)
    (a : α) : tally (Function.update f i none) n a + (if b = a then 1 else 0) = tally f n a := by
  rw [← tally_fill hi (Function.update_self ..), Function.update_idem,
    Function.update_eq_self_iff.mpr hsome.symm]

theorem tally_succ {f : Nat → Option α} {n : Nat} (hnone : f n = none) (a : α) :
    tally f (n + 1) a = tally f n a := by
  rw [tally, Finset.range_add_one, Finset.filter_insert, if_neg (by simp [hnone]), tally]

/-- The sum of the weights below `n`. -/
def load (f : Nat → Nat) (n : Nat) : Nat :=
  (Finset.range n).sum f

theorem load_update (f : Nat → Nat) {n i : Nat} (hi : i < n) (v : Nat) :
    load (Function.update f i v) n + f i = load f n + v := by
  have hmem : i ∈ Finset.range n := Finset.mem_range.mpr hi
  rw [load, load, Finset.sum_update_of_mem hmem, Finset.sum_eq_sum_sdiff_singleton_add hmem f]
  omega

theorem load_succ (f : Nat → Nat) (n : Nat) : load f (n + 1) = load f n + f n :=
  Finset.sum_range_succ f n

end Foundation
end DtCore
