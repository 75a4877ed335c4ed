import Mathlib.Data.List.TakeWhile
import Mathlib.Tactic
import DtCore.Foundation.Checked

/-!
# C strings in arrays

The string in an array of bytes ends at the first null byte; an array without one holds no
string, and reading it would leave the array.  The functions of the C library write to an
array from an index on, and have no result when they would leave it.

Main definitions:

- `stringAt`: the string at a pointer.
- `Block.string`: the string in an array.
- `Block.printIn`, `Block.vsnprintf`, `Block.strncpy`: the functions of the C library.

Main results:

- Theorem `printIn_isSome`: `snprintf` stays inside when its size argument does.
- Theorem `string_copyString`: the string that `strncpy` and a terminator store.
- Theorem `take_vsnprintf`: what `vsnprintf` stores behind a text.
-/

namespace DtCore
namespace Foundation

/-- The string at a pointer, where the bytes from the pointer on are `src`. -/
def stringAt (src : List UInt8) : List UInt8 :=
  src.takeWhile (fun c => c ≠ 0)

/-- The beginning of a string is the string of the beginning. -/
theorem stringAt_take (src : List UInt8) (n : Nat) :
    stringAt (src.take n) = (stringAt src).take n := by
  rw [stringAt, stringAt, List.take_takeWhile]

theorem zero_not_mem_stringAt (src : List UInt8) : 0 ∉ stringAt src := by
  intro h
  simpa using List.mem_takeWhile_imp h

/-- A text without null bytes is a string. -/
theorem stringAt_of_zero_not_mem {text : List UInt8} (h : 0 ∉ text) : stringAt text = text := by
  refine List.takeWhile_eq_self_iff.mpr (fun c hc => ?_)
  rw [decide_eq_true_eq]
  intro hzero
  rw [hzero] at hc
  exact h hc

theorem stringAt_append_zero (text rest : List UInt8) :
    stringAt (text ++ 0 :: rest) = stringAt text := by
  unfold stringAt
  induction text with
  | nil => rfl
  | cons c text ih =>
      rw [List.cons_append, List.takeWhile_cons, List.takeWhile_cons, ih]

@[simp]
theorem stringAt_stringAt (src : List UInt8) : stringAt (stringAt src) = stringAt src := by
  rw [stringAt, stringAt, List.takeWhile_takeWhile]
  simp only [and_self, Bool.decide_eq_true]

/-- What a format and its arguments stand for: a text, or an error behind some bytes. -/
inductive FormatResult where
  | text (bytes : List UInt8)
  | error (bytes : List UInt8)

namespace Block

variable {size : Nat}

/-- The string in an array. -/
def string (b : Block UInt8 size) : Option (List UInt8) :=
  if 0 ∈ b.cells then some (stringAt b.cells) else none

/-- `snprintf(b + dst, n, …)` with the text that the format stands for. -/
def printIn (b : Block UInt8 size) (dst n : Nat) (text : List UInt8) :
    Option (Block UInt8 size) :=
  if n = 0 then some b else b.copyIn dst (text.take (n - 1) ++ [0])

/-- The result of `snprintf`: the length of the whole text, when an `int` holds it. -/
def printed (text : List UInt8) : Int :=
  if text.length < 2 ^ 31 then text.length else -1

/-- `vsnprintf(b + dst, n, …)`: its result and the array. -/
def vsnprintf (b : Block UInt8 size) (dst n : Nat) :
    FormatResult → Option (Int × Block UInt8 size)
  | .text bytes => (b.printIn dst n bytes).map (fun b => (printed bytes, b))
  | .error bytes => (b.copyIn dst (bytes.take n)).map (fun b => (-1, b))

/-- `strncpy(b, src, n)`. -/
def strncpy (b : Block UInt8 size) (src : List UInt8) (n : Nat) : Option (Block UInt8 size) :=
  b.copyIn 0 ((stringAt src).take n ++ List.replicate (n - (stringAt src).length) 0)

/-- `strncpy(b, src, size - 1); b[size - 1] = '\0'`. -/
def copyString (b : Block UInt8 size) (src : List UInt8) : Option (Block UInt8 size) := do
  let b ← b.strncpy src (size - 1)
  b.set (size - 1 : Nat) 0

/-! ## What is stored -/

theorem printIn_isSome (b : Block UInt8 size) {dst n : Nat} (h : dst + n ≤ size)
    (text : List UInt8) : ∃ b', b.printIn dst n text = some b' := by
  unfold printIn
  by_cases hn : n = 0
  · rw [if_pos hn]
    exact ⟨b, rfl⟩
  · rw [if_neg hn]
    refine b.copyIn_isSome ?_
    rw [List.length_append, List.length_singleton, List.length_take]
    omega

/-- A null byte behind a text makes the text the string. -/
theorem string_of_cells {b : Block UInt8 size} {text rest : List UInt8}
    (h : b.cells = text ++ 0 :: rest) : b.string = some (stringAt text) := by
  have hmem : 0 ∈ b.cells := by
    rw [h]
    exact List.mem_append_right text List.mem_cons_self
  rw [string, if_pos hmem, h, stringAt_append_zero]

theorem zero_mem_of_string {b : Block UInt8 size} {text : List UInt8}
    (h : b.string = some text) : 0 ∈ b.cells := by
  unfold string at h
  split at h
  · assumption
  · contradiction

theorem stringAt_cells {b : Block UInt8 size} {text : List UInt8} (h : b.string = some text) :
    stringAt b.cells = text := by
  rw [string, if_pos (zero_mem_of_string h)] at h
  injection h

/-- An array of null bytes holds the empty string. -/
theorem string_fill (h : 0 < size) : (fill 0 : Block UInt8 size).string = some [] := by
  rcases Nat.exists_eq_add_one_of_ne_zero (Nat.ne_of_gt h) with ⟨n, rfl⟩
  have hcells : (fill 0 : Block UInt8 (n + 1)).cells = [] ++ 0 :: List.replicate n 0 := rfl
  exact string_of_cells hcells

/-- `b[0] = '\0'` stores the empty string. -/
theorem string_set_zero (b : Block UInt8 size) (h : 0 < size) :
    Ensures (fun b' => b'.string = some []) (b.set 0 0) := by
  refine (b.cells_set h 0).imp (fun b' hb' => ?_)
  have hset : ∃ rest, b'.cells = [] ++ 0 :: rest := by
    rw [hb']
    have hb := b.length_cells
    cases hcells : b.cells with
    | nil =>
        rw [hcells, List.length_nil] at hb
        omega
    | cons c cells => exact ⟨cells, rfl⟩
  rcases hset with ⟨rest, hset⟩
  exact string_of_cells hset

/-- The first cells after a copy to the front of the array. -/
theorem cells_copyIn_zero {b b' : Block UInt8 size} {data : List UInt8}
    (h : b.copyIn 0 data = some b') : ∃ rest, b'.cells = data ++ rest := by
  have htake := take_copyIn h
  rw [List.take_zero, List.nil_append, Nat.zero_add] at htake
  refine ⟨b'.cells.drop data.length, ?_⟩
  calc
    b'.cells = b'.cells.take data.length ++ b'.cells.drop data.length :=
      (List.take_append_drop _ _).symm
    _ = data ++ b'.cells.drop data.length := by rw [htake]

/-- `snprintf` to the front of an array stores what fits. -/
theorem string_printIn (b : Block UInt8 size) {n : Nat} (h0 : 0 < n) (h : n ≤ size)
    (text : List UInt8) :
    Ensures (fun b' => b'.string = some ((stringAt text).take (n - 1))) (b.printIn 0 n text) := by
  rcases b.printIn_isSome (by omega : 0 + n ≤ size) text with ⟨b', hb'⟩
  refine ⟨b', hb', ?_⟩
  rw [printIn, if_neg (by omega)] at hb'
  rcases cells_copyIn_zero hb' with ⟨rest, hcells⟩
  rw [List.append_assoc, List.singleton_append] at hcells
  rw [string_of_cells hcells, stringAt_take]

/-- `snprintf` behind a text appends to it, as long as there is room. -/
theorem cells_printIn {b : Block UInt8 size} {text rest : List UInt8}
    (hcells : b.cells = text ++ rest) {n : Nat} (hsize : text.length + n ≤ size)
    {more : List UInt8} (hmore : more.length < n) :
    Ensures (fun b' : Block UInt8 size => ∃ rest', b'.cells = (text ++ more) ++ 0 :: rest')
      (b.printIn text.length n more) := by
  have hfits : more.take (n - 1) = more := List.take_of_length_le (by omega)
  have hlen : (more ++ [0]).length = more.length + 1 := by
    rw [List.length_append, List.length_singleton]
  rw [printIn, if_neg (by omega), hfits]
  rcases b.copyIn_isSome (by omega : text.length + (more ++ [0]).length ≤ size) with ⟨b', hb'⟩
  have htake := take_copyIn hb'
  have hsplit := List.take_append_drop (text.length + (more ++ [0]).length) b'.cells
  rw [htake, hcells, List.take_left, List.append_assoc, List.append_assoc] at hsplit
  refine ⟨b', hb', b'.cells.drop (text.length + (more ++ [0]).length), ?_⟩
  rw [List.append_assoc]
  exact hsplit.symm

/-- A string that is shorter than the array is stored up to its end, and of a longer one
what fits. -/
theorem string_copyString (b : Block UInt8 size) (h : 0 < size) (src : List UInt8) :
    Ensures (fun b' => b'.string = some ((stringAt src).take (size - 1))) (b.copyString src) := by
  have hlen : ((stringAt src).take (size - 1) ++
      List.replicate (size - 1 - (stringAt src).length) 0).length = size - 1 := by
    rw [List.length_append, List.length_take, List.length_replicate]
    omega
  rcases b.copyIn_isSome (by omega : 0 + ((stringAt src).take (size - 1) ++
    List.replicate (size - 1 - (stringAt src).length) 0).length ≤ size) with ⟨b', hb'⟩
  have hcopy : b.copyString src = b'.set (size - 1 : Nat) 0 := by
    unfold copyString strncpy
    rw [hb']
    rfl
  rw [hcopy]
  refine (b'.cells_set (by omega) 0).imp (fun b'' hb'' => ?_)
  -- all cells but the last one hold the copy
  rcases cells_copyIn_zero hb' with ⟨rest, hcells⟩
  have hsize := b'.length_cells
  rw [hcells, List.length_append, hlen] at hsize
  rcases List.length_eq_one_iff.mp (by omega : rest.length = 1) with ⟨last, hlast⟩
  have hset : b''.cells = ((stringAt src).take (size - 1) ++
      List.replicate (size - 1 - (stringAt src).length) 0) ++ [0] := by
    rw [hb'', hcells, hlast, List.set_append_right _ _ (by omega), hlen, Nat.sub_self]
    rfl
  have htext : stringAt ((stringAt src).take (size - 1) ++
      List.replicate (size - 1 - (stringAt src).length) 0) = (stringAt src).take (size - 1) := by
    cases hpad : size - 1 - (stringAt src).length with
    | zero => rw [List.replicate_zero, List.append_nil, stringAt_take, stringAt_stringAt]
    | succ k => rw [List.replicate_succ, stringAt_append_zero, stringAt_take, stringAt_stringAt]
  rw [← htext]
  exact string_of_cells hset

end Block

/-! ## Texts and errors -/

namespace FormatResult

/-- The result of `vsnprintf`. -/
def value : FormatResult → Int
  | .text bytes => Block.printed bytes
  | .error _ => -1

/-- What `vsnprintf` with the size `n` stores in front of the terminator. -/
def stored (n : Nat) : FormatResult → List UInt8
  | .text bytes => bytes.take (n - 1)
  | .error _ => []

theorem length_stored_le (n : Nat) (r : FormatResult) : (r.stored n).length ≤ n - 1 := by
  cases r with
  | text bytes => exact List.length_take_le _ _
  | error bytes => exact Nat.zero_le _

end FormatResult

namespace Block

variable {size : Nat}

/-- `vsnprintf` behind a text stores what fits in front of a terminator, or nothing that
counts. -/
theorem take_vsnprintf {b : Block UInt8 size} {text : List UInt8} {dst n : Nat}
    (htext : b.cells.take dst = text) (hlen : text.length = dst) (hsize : dst + n ≤ size)
    (r : FormatResult) :
    Ensures (fun p : Int × Block UInt8 size => p.1 = r.value ∧
        p.2.cells.take (dst + (r.stored n).length) = text ++ r.stored n)
      (b.vsnprintf dst n r) := by
  cases r with
  | text bytes =>
      by_cases hn : n = 0
      · refine ⟨(printed bytes, b), ?_, rfl, ?_⟩
        · rw [vsnprintf, printIn, if_pos hn]
          rfl
        · have hnone : (FormatResult.text bytes).stored n = [] := by
            rw [FormatResult.stored, hn, Nat.zero_sub, List.take_zero]
          rw [hnone, List.append_nil]
          exact htext
      · refine (ensures_of_exists (b.printIn_isSome hsize bytes)).map (fun b' hb' => ⟨rfl, ?_⟩)
        rw [printIn, if_neg hn] at hb'
        have hfront := congrArg (List.take (dst + (bytes.take (n - 1)).length)) (take_copyIn hb')
        rw [List.take_take, List.length_append, ← Nat.add_assoc,
          Nat.min_eq_left (Nat.le_add_right _ _), htext, ← List.append_assoc,
          List.take_left' (by rw [List.length_append, hlen])] at hfront
        exact hfront
  | error bytes =>
      have hroom : dst + (bytes.take n).length ≤ size := by
        have hle : (bytes.take n).length ≤ n := List.length_take_le _ _
        omega
      refine (ensures_of_exists (b.copyIn_isSome hroom)).map (fun b' hb' => ⟨rfl, ?_⟩)
      rw [FormatResult.stored, List.append_nil, ← htext]
      exact take_of_copyIn hb'

end Block
end Foundation
end DtCore
