import Mathlib.Data.List.Basic

/-!
# Fixed-size memory blocks

An array of `size` cells with the two copy operations of C.  A copy that would
leave the block has no result.

Main results:

- Theorem `Block.take_copyIn`: storing behind a prefix extends the prefix.
- Theorem `Block.take_move`: sliding a range to the front makes it the prefix.
-/

namespace DtCore
namespace Foundation

universe u

variable {α : Type u} {size : Nat}

/-- The cells of an array of `size` elements. -/
structure Block (α : Type u) (size : Nat) where
  cells : List α
  length_cells : cells.length = size

namespace Block

/-- An array with one value in every cell. -/
def fill (a : α) : Block α size where
  cells := List.replicate size a
  length_cells := List.length_replicate

/-- `memcpy` into the block at `dst`. -/
def copyIn (b : Block α size) (dst : Nat) (data : List α) : Option (Block α size) :=
  if h : dst + data.length ≤ size then
    some
      { cells := b.cells.take dst ++ data ++ b.cells.drop (dst + data.length)
        length_cells := by
          have hb := b.length_cells
          simp only [List.length_append, List.length_take, List.length_drop]
          omega }
  else none

/-- The cells that a read of `n` elements at `src` sees. -/
def slice (b : Block α size) (src n : Nat) : Option (List α) :=
  if src + n ≤ size then some ((b.cells.drop src).take n) else none

/-- `memmove` inside the block. -/
def move (b : Block α size) (dst src n : Nat) : Option (Block α size) :=
  (b.slice src n).bind (fun data => b.copyIn dst data)

/-- A copy succeeds when it stays inside the block. -/
theorem copyIn_isSome (b : Block α size) {dst : Nat} {data : List α}
    (h : dst + data.length ≤ size) : ∃ b', b.copyIn dst data = some b' := by
  rw [copyIn, dif_pos h]
  exact ⟨_, rfl⟩

/-- Storing behind a prefix extends the prefix. -/
theorem take_copyIn {b b' : Block α size} {dst : Nat} {data : List α}
    (h : b.copyIn dst data = some b') :
    b'.cells.take (dst + data.length) = b.cells.take dst ++ data := by
  rw [copyIn] at h
  split at h
  · rename_i hle
    injection h with h
    subst h
    have hb := b.length_cells
    have hlen : (b.cells.take dst ++ data).length = dst + data.length := by
      simp only [List.length_append, List.length_take]
      omega
    calc
      ((b.cells.take dst ++ data) ++ b.cells.drop (dst + data.length)).take (dst + data.length)
          = ((b.cells.take dst ++ data) ++ b.cells.drop (dst + data.length)).take
              (b.cells.take dst ++ data).length := congrArg (List.take · _) hlen.symm
      _ = b.cells.take dst ++ data := List.take_left
  · contradiction

/-- A copy leaves the cells in front of it alone. -/
theorem take_of_copyIn {b b' : Block α size} {dst : Nat} {data : List α}
    (h : b.copyIn dst data = some b') : b'.cells.take dst = b.cells.take dst := by
  have htake := congrArg (List.take dst) (take_copyIn h)
  rw [List.take_take, Nat.min_eq_left (Nat.le_add_right _ _)] at htake
  rw [htake]
  rw [copyIn] at h
  split at h
  · rename_i hle
    have hb := b.length_cells
    have hlen : (b.cells.take dst).length = dst := by
      rw [List.length_take]
      omega
    rw [List.take_append_of_le_length (Nat.le_of_eq hlen.symm), List.take_take, Nat.min_self]
  · contradiction

/-- A move succeeds when both ranges stay inside the block. -/
theorem move_isSome (b : Block α size) (dst : Nat) {src n : Nat} (hsrc : src + n ≤ size)
    (hdst : dst + n ≤ size) : ∃ b', b.move dst src n = some b' := by
  rw [move, slice, if_pos hsrc]
  apply copyIn_isSome
  have hb := b.length_cells
  simp only [List.length_take, List.length_drop]
  omega

/-- Sliding a range to the front makes it the prefix. -/
theorem take_move {b b' : Block α size} {src n : Nat} (h : b.move 0 src n = some b') :
    b'.cells.take n = (b.cells.drop src).take n := by
  rw [move, slice] at h
  split at h
  · rename_i hle
    have htake := take_copyIn h
    have hb := b.length_cells
    have hlen : ((b.cells.drop src).take n).length = n := by
      simp only [List.length_take, List.length_drop]
      omega
    rw [hlen, Nat.zero_add] at htake
    rw [htake, List.take_zero, List.nil_append]
  · contradiction

/-- A slice inside a prefix is read off the prefix. -/
theorem drop_take_cells (b : Block α size) (src n : Nat) :
    (b.cells.drop src).take n = (b.cells.take (src + n)).drop src := by
  rw [List.drop_take, Nat.add_sub_cancel_left]

end Block

end Foundation
end DtCore
