import Mathlib.Logic.Function.Basic
import Mathlib.Data.List.Basic

/-!
# Overwriting rings

An array of `capacity` cells that keeps the latest items: the item `i` places behind
the head is the `i`-th oldest one, and a full ring overwrites its oldest item.

Main results:

- Theorem `Ring.toList_push`: a push appends to the items and drops the oldest one
  of a full ring.
- Theorem `Ring.toList_pushAll`: after any pushes the ring holds the latest items.
-/

namespace DtCore
namespace Foundation

universe u

variable {α : Type u} {capacity : Nat}

/-- The last `n` items of a list. -/
def lastN (n : Nat) (l : List α) : List α :=
  l.drop (l.length - n)

theorem length_lastN (n : Nat) (l : List α) : (lastN n l).length = min n l.length := by
  rw [lastN, List.length_drop]
  omega

/-- The end of a list does not depend on what is far in front of it. -/
theorem lastN_append_of_le {n : Nat} {l' : List α} (h : n ≤ l'.length) (l : List α) :
    lastN n (l ++ l') = lastN n l' := by
  rw [lastN, List.length_append, Nat.add_sub_assoc h, ← List.drop_drop, List.drop_left, lastN]

/-- Dropping items in front of a list does not matter to its end. -/
theorem lastN_lastN_append (n : Nat) (l l' : List α) :
    lastN n (lastN n l ++ l') = lastN n (l ++ l') := by
  rcases Nat.le_total n l.length with h | h
  · have hlen : n ≤ (lastN n l ++ l').length := by
      rw [List.length_append, length_lastN]
      omega
    have hsplit : l ++ l' = l.take (l.length - n) ++ (lastN n l ++ l') := by
      rw [lastN, ← List.append_assoc, List.take_append_drop]
    rw [hsplit, lastN_append_of_le hlen]
  · have hall : lastN n l = l := by
      rw [lastN, Nat.sub_eq_zero_of_le h, List.drop_zero]
    rw [hall]

/-- The cells, where the oldest item is and how many items there are. -/
structure Ring (α : Type u) (capacity : Nat) where
  cells : Nat → α
  head : Nat
  count : Nat
  head_lt : head < capacity
  count_le : count ≤ capacity

namespace Ring

/-- A ring without items. -/
def empty (a : α) (h : 0 < capacity) : Ring α capacity where
  cells := fun _ => a
  head := 0
  count := 0
  head_lt := h
  count_le := Nat.zero_le _

/-- The item `i` places behind the head. -/
def get (r : Ring α capacity) (i : Nat) : α :=
  r.cells ((r.head + i) % capacity)

/-- Store an item in the next free cell or, when there is none, over the oldest. -/
def push (r : Ring α capacity) (a : α) : Ring α capacity :=
  if h : r.count < capacity then
    { r with
      cells := Function.update r.cells ((r.head + r.count) % capacity) a
      count := r.count + 1
      count_le := h }
  else
    { r with
      cells := Function.update r.cells r.head a
      head := (r.head + 1) % capacity
      head_lt := Nat.mod_lt _ (Nat.zero_lt_of_lt r.head_lt) }

/-- The items, oldest first. -/
def toList (r : Ring α capacity) : List α :=
  (List.range r.count).map r.get

@[simp]
theorem length_toList (r : Ring α capacity) : r.toList.length = r.count := by
  simp [toList]

/-- Two places less than a revolution apart are different cells. -/
theorem place_ne {head i j : Nat} (hij : i < j) (hj : j < i + capacity) :
    (head + i) % capacity ≠ (head + j) % capacity := by
  intro heq
  have hdvd : capacity ∣ (head + j) - (head + i) :=
    Nat.dvd_of_mod_eq_zero (Nat.sub_mod_eq_zero_of_mod_eq heq.symm)
  have hle := Nat.le_of_dvd (by omega) hdvd
  omega

/-- A push keeps a ring with room full of what it had. -/
theorem toList_push_of_lt {r : Ring α capacity} (h : r.count < capacity) (a : α) :
    (r.push a).toList = r.toList ++ [a] := by
  have hkeep : ∀ i ∈ List.range r.count, (r.push a).get i = r.get i := by
    intro i hi
    have hlt := List.mem_range.mp hi
    have hne : (r.head + i) % capacity ≠ (r.head + r.count) % capacity :=
      place_ne hlt (by omega)
    rw [push, dif_pos h]
    exact Function.update_of_ne hne _ _
  have hnew : (r.push a).get r.count = a := by
    rw [push, dif_pos h]
    exact Function.update_self _ _ _
  have hcount : (r.push a).count = r.count + 1 := by
    rw [push, dif_pos h]
  rw [toList, hcount, List.range_succ, List.map_append, List.map_congr_left hkeep,
    List.map_singleton, hnew, toList]

/-- A push to a full ring replaces the oldest item by a newest one. -/
theorem toList_push_of_full {r : Ring α capacity} (h : r.count = capacity) (a : α) :
    (r.push a).toList = r.toList.drop 1 ++ [a] := by
  have hnot : ¬ r.count < capacity := by omega
  have hpos : 0 < capacity := Nat.zero_lt_of_lt r.head_lt
  rcases Nat.exists_eq_add_one_of_ne_zero (Nat.ne_of_gt hpos) with ⟨n, hn⟩
  have hstep : ∀ i, (r.push a).get i =
      Function.update r.cells r.head a ((r.head + (i + 1)) % capacity) := by
    intro i
    rw [push, dif_neg hnot]
    show Function.update r.cells r.head a (((r.head + 1) % capacity + i) % capacity) = _
    rw [Nat.mod_add_mod, Nat.add_assoc, Nat.add_comm 1 i]
  have hhead : (r.head + 0) % capacity = r.head := Nat.mod_eq_of_lt r.head_lt
  have hkeep : ∀ i ∈ List.range n, (r.push a).get i = r.get (i + 1) := by
    intro i hi
    have hlt := List.mem_range.mp hi
    have hne : (r.head + 0) % capacity ≠ (r.head + (i + 1)) % capacity :=
      place_ne (Nat.succ_pos i) (by omega)
    rw [hhead] at hne
    rw [hstep, Function.update_of_ne hne.symm]
    rfl
  have hnew : (r.push a).get n = a := by
    have hround : (r.head + (n + 1)) % capacity = r.head := by
      rw [← hn, Nat.add_mod_right]
      exact Nat.mod_eq_of_lt r.head_lt
    rw [hstep, hround, Function.update_self]
  have hcount : (r.push a).count = n + 1 := by
    rw [push, dif_neg hnot]
    exact h.trans hn
  have hold : r.toList.drop 1 = (List.range n).map (fun i => r.get (i + 1)) := by
    rw [toList, h.trans hn, List.range_succ_eq_map, List.map_cons, List.drop_one, List.tail_cons,
      List.map_map]
    rfl
  rw [toList, hcount, List.range_succ, List.map_append, List.map_congr_left hkeep,
    List.map_singleton, hnew, hold]

/-- After a push the ring holds the latest items. -/
theorem toList_push (r : Ring α capacity) (a : α) :
    (r.push a).toList = lastN capacity (r.toList ++ [a]) := by
  rw [lastN, List.length_append, List.length_singleton, length_toList]
  by_cases h : r.count < capacity
  · rw [toList_push_of_lt h, Nat.sub_eq_zero_of_le h, List.drop_zero]
  · have hfull : r.count = capacity := Nat.le_antisymm r.count_le (Nat.not_lt.mp h)
    have hpos : 1 ≤ r.toList.length := by
      rw [length_toList, hfull]
      exact Nat.zero_lt_of_lt r.head_lt
    rw [toList_push_of_full hfull, hfull, Nat.add_sub_cancel_left,
      List.drop_append_of_le_length hpos]

/-- Push items one by one. -/
def pushAll (r : Ring α capacity) (items : List α) : Ring α capacity :=
  items.foldl push r

/-- After any pushes the ring holds the latest items. -/
theorem toList_pushAll {r : Ring α capacity} {before : List α}
    (h : r.toList = lastN capacity before) (items : List α) :
    (r.pushAll items).toList = lastN capacity (before ++ items) := by
  induction items generalizing r before with
  | nil => rw [List.append_nil]; exact h
  | cons a items ih =>
      have hpush : (r.push a).toList = lastN capacity (before ++ [a]) := by
        rw [toList_push, h, lastN_lastN_append]
      have hrest := ih hpush
      rw [List.append_assoc, List.singleton_append] at hrest
      exact hrest

/-- The items of a window of the ring. -/
theorem map_get_range (r : Ring α capacity) {start n : Nat} (h : start + n ≤ r.count) :
    (List.range n).map (fun i => r.get (start + i)) = (r.toList.drop start).take n := by
  apply List.ext_getElem
  · simp only [List.length_map, List.length_range, List.length_take, List.length_drop,
      length_toList]
    omega
  · intro i hi hi'
    simp [toList]

end Ring

end Foundation
end DtCore
