import Mathlib.Tactic
import DtCore.Foundation.Rotation

/-!
# Recordings in segments

A recording is cut into segments of weighted messages: a message that would take
the current segment over a limit begins a new one.  The segment `i` rotations old
is in slot `i` as long as there are that many slots.

Main results:

- Theorem `Segments.messages_foldl`: no message is lost or moved.
- Theorem `Segments.bounded_foldl`: a segment over the limit holds one message.
- Theorem `Segments.shift_shows`: shifting the slots and emptying slot `0` is what a
  rotation needs.
- Theorem `Segments.retained_suffix`: the slots hold the end of the recording.
-/

namespace DtCore
namespace Foundation

variable {α : Type}

/-- The segments of a recording; `older` starts with the latest. -/
structure Segments (α : Type) where
  current : List α
  older : List (List α)

namespace Segments

/-- A recording without messages. -/
def start : Segments α where
  current := []
  older := []

/-- All segments, newest first. -/
def all (a : Segments α) : List (List α) :=
  a.current :: a.older

/-- Begin a new segment. -/
def rotate (a : Segments α) : Segments α where
  current := []
  older := a.current :: a.older

/-- Add a message to the current segment. -/
def append (a : Segments α) (m : α) : Segments α :=
  { a with current := a.current ++ [m] }

/-- The weight of a segment. -/
def total (weight : α → Nat) (segment : List α) : Nat :=
  (segment.map weight).sum

/-- Record a message, in a new segment if the current one would outgrow the limit. -/
def record (weight : α → Nat) (limit : Nat) (a : Segments α) (m : α) : Segments α :=
  if limit < total weight a.current + weight m then a.rotate.append m else a.append m

/-- All messages in the order in which they were recorded. -/
def messages (a : Segments α) : List α :=
  a.all.reverse.flatten

@[simp]
theorem total_append_singleton (weight : α → Nat) (segment : List α) (m : α) :
    total weight (segment ++ [m]) = total weight segment + weight m := by
  simp [total]

theorem messages_append (a : Segments α) (m : α) :
    (a.append m).messages = a.messages ++ [m] := by
  simp [messages, all, append]

theorem messages_rotate (a : Segments α) : a.rotate.messages = a.messages := by
  simp [messages, all, rotate]

theorem record_of_lt {weight : α → Nat} {limit : Nat} {a : Segments α} {m : α}
    (h : limit < total weight a.current + weight m) :
    a.record weight limit m = a.rotate.append m :=
  if_pos h

theorem record_of_le {weight : α → Nat} {limit : Nat} {a : Segments α} {m : α}
    (h : total weight a.current + weight m ≤ limit) :
    a.record weight limit m = a.append m :=
  if_neg (Nat.not_lt.mpr h)

theorem messages_record (weight : α → Nat) (limit : Nat) (a : Segments α) (m : α) :
    (a.record weight limit m).messages = a.messages ++ [m] := by
  unfold record
  split
  · rw [messages_append, messages_rotate]
  · rw [messages_append]

/-- Recording keeps all messages in their order. -/
theorem messages_foldl (weight : α → Nat) (limit : Nat) (a : Segments α) (ms : List α) :
    (ms.foldl (record weight limit) a).messages = a.messages ++ ms := by
  induction ms generalizing a with
  | nil => rw [List.foldl_nil, List.append_nil]
  | cons m ms ih =>
      rw [List.foldl_cons, ih, messages_record, List.append_assoc, List.singleton_append]

/-! ## The limit -/

/-- Every segment respects the limit or holds one message. -/
def Bounded (weight : α → Nat) (limit : Nat) (a : Segments α) : Prop :=
  ∀ segment ∈ a.all, total weight segment ≤ limit ∨ ∃ m, segment = [m]

theorem bounded_start (weight : α → Nat) (limit : Nat) :
    Bounded weight limit (start : Segments α) := by
  intro segment hmem
  rcases List.mem_singleton.mp hmem with rfl
  exact Or.inl (Nat.zero_le _)

theorem bounded_record {weight : α → Nat} {limit : Nat} {a : Segments α}
    (h : Bounded weight limit a) (m : α) : Bounded weight limit (a.record weight limit m) := by
  intro segment hmem
  unfold record at hmem
  split at hmem
  · rcases List.mem_cons.mp hmem with rfl | hold
    · exact Or.inr ⟨m, rfl⟩
    · exact h segment hold
  · rename_i hfits
    rcases List.mem_cons.mp hmem with rfl | hold
    · left
      rw [append, total_append_singleton]
      exact Nat.not_lt.mp hfits
    · exact h segment (List.mem_cons_of_mem _ hold)

theorem bounded_foldl {weight : α → Nat} {limit : Nat} {a : Segments α}
    (h : Bounded weight limit a) (ms : List α) :
    Bounded weight limit (ms.foldl (record weight limit) a) := by
  induction ms generalizing a with
  | nil => exact h
  | cons m ms ih => exact ih (bounded_record h m)

/-! ## The slots of a recording -/

/-- Slot `i` holds the segment `i` rotations old, up to slot `n`. -/
def Shows (n : Nat) (a : Segments α) (slots : Nat → Option (List α)) : Prop :=
  ∀ i ≤ n, slots i = a.all[i]?

/-- A new current segment only changes slot `0`. -/
theorem shows_append {n : Nat} {a : Segments α} {slots : Nat → Option (List α)}
    (h : Shows n a slots) (m : α) :
    Shows n (a.append m) (Function.update slots 0 (some (a.current ++ [m]))) := by
  intro i hi
  cases i with
  | zero => rw [Function.update_self]; rfl
  | succ i =>
      rw [Function.update_of_ne (Nat.succ_ne_zero i), h _ hi]
      rfl

/-- After a shift slot `0` is ready for a new segment. -/
theorem shift_shows {n : Nat} {a : Segments α} {slots : Nat → Option (List α)}
    (hpos : 0 < n) (h : Shows n a slots) :
    Shows n a.rotate (Function.update (shiftSlots n slots) 0 (some [])) := by
  intro i hi
  cases i with
  | zero => rw [Function.update_self]; rfl
  | succ i =>
      have hslot : a.rotate.all[i + 1]? = a.all[i]? := rfl
      rw [Function.update_of_ne (Nat.succ_ne_zero i), hslot, shiftSlots_apply]
      have hnot : ¬ (i + 1 = 0 ∧ 0 < n) := by omega
      rw [if_neg hnot, ← h i (by omega)]
      by_cases hlt : i + 1 < n
      · rw [if_pos hlt]
        rfl
      · have htop : i + 1 = n := by omega
        rw [if_neg hlt, if_pos ⟨htop, hpos⟩, ← htop, Nat.add_sub_cancel]
        -- the last slot was in use only if the one before it was
        cases hprev : slots i with
        | some segment => rfl
        | none =>
            rw [Option.none_or]
            rw [h i (by omega)] at hprev
            rw [h (i + 1) hi]
            have hlen := List.getElem?_eq_none_iff.mp hprev
            exact List.getElem?_eq_none (by omega)

/-- The messages in slots `n`, ..., `1`, `0`; absent slots count as empty. -/
def retained (n : Nat) (slots : Nat → Option (List α)) : List α :=
  ((List.range (n + 1)).reverse.map (fun i => (slots i).getD [])).flatten

theorem flatten_range_take (segments : List (List α)) (n : Nat) :
    ((List.range n).reverse.map (fun i => (segments[i]?).getD [])).flatten =
      (segments.take n).reverse.flatten := by
  induction n with
  | zero => rfl
  | succ n ih =>
      rw [List.range_succ, List.reverse_append, List.reverse_singleton, List.singleton_append,
        List.map_cons, List.flatten_cons, ih, List.take_add_one, List.reverse_append,
        List.flatten_append]
      cases segments[n]? <;> simp

/-- What the slots hold is the end of the recording. -/
theorem retained_suffix {n : Nat} {a : Segments α} {slots : Nat → Option (List α)}
    (h : Shows n a slots) : retained n slots <:+ a.messages := by
  have hslots : retained n slots = (a.all.take (n + 1)).reverse.flatten := by
    rw [← flatten_range_take, retained]
    congr 1
    apply List.map_congr_left
    intro i hi
    rw [List.mem_reverse, List.mem_range] at hi
    rw [h i (by omega)]
  have hall : a.all.reverse = (a.all.drop (n + 1)).reverse ++ (a.all.take (n + 1)).reverse := by
    rw [← List.reverse_append, List.take_append_drop]
  rw [hslots, messages, hall, List.flatten_append]
  exact List.suffix_append _ _

end Segments

end Foundation
end DtCore
