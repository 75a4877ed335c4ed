import Mathlib.Data.List.Basic

/-!
# Drawing rows down to a limit

A pen draws items on consecutive rows and stops at a limit: what no longer fits is left
out, and the rows that are left over are filled.

Main definitions:

- `place`: items on consecutive rows.
- `Pen.put`, `Pen.putIf`, `Pen.fill`: draw on the next row.
- `Pen.Holds`: a pen was asked to draw some items.

Main results:

- Theorem `Pen.Holds.putIf`: asking for one more item.
- Theorem `Pen.Holds.fill`: the rows that are left over.
-/

namespace DtCore
namespace Foundation

universe u

variable {α : Type u}

/-! ## Items on consecutive rows -/

/-- Items on consecutive rows, the first one on row `start`. -/
def place (start : Int) : List α → List (Int × α)
  | [] => []
  | a :: items => (start, a) :: place (start + 1) items

theorem place_append (start : Int) (items items' : List α) :
    place start (items ++ items') =
      place start items ++ place (start + items.length) items' := by
  induction items generalizing start with
  | nil => simp [place]
  | cons a items ih =>
      rw [List.cons_append, place, place, ih, List.cons_append, List.length_cons]
      congr 3
      push_cast
      omega

/-- The rows that are used are those behind the start, one for each item. -/
theorem mem_place {start : Int} {items : List α} {d : Int × α} (h : d ∈ place start items) :
    start ≤ d.1 ∧ d.1 < start + items.length ∧ d.2 ∈ items := by
  induction items generalizing start with
  | nil => contradiction
  | cons a items ih =>
      rw [List.length_cons]
      push_cast
      rcases List.mem_cons.mp h with heq | hrest
      · subst heq
        exact ⟨Int.le_refl _, by omega, List.mem_cons_self⟩
      · rcases ih hrest with ⟨hlow, hhigh, hmem⟩
        exact ⟨by omega, by omega, List.mem_cons_of_mem a hmem⟩

theorem exists_mem_place {start r : Int} {items : List α} (hlow : start ≤ r)
    (hhigh : r < start + items.length) : ∃ d ∈ place start items, d.1 = r := by
  induction items generalizing start with
  | nil =>
      rw [List.length_nil] at hhigh
      omega
  | cons a items ih =>
      rw [List.length_cons] at hhigh
      push_cast at hhigh
      by_cases hfirst : r = start
      · exact ⟨(start, a), List.mem_cons_self, hfirst.symm⟩
      · rcases ih (by omega : start + 1 ≤ r) (by omega) with ⟨d, hd, hrow⟩
        exact ⟨d, List.mem_cons_of_mem _ hd, hrow⟩

/-! ## Pens -/

/-- The next row and what was drawn. -/
structure Pen (α : Type u) where
  row : Int
  drawn : List (Int × α)

namespace Pen

/-- A pen in front of its first row. -/
def start (row : Int) : Pen α where
  row := row
  drawn := []

/-- Draw on the next row. -/
def put (p : Pen α) (a : α) : Pen α where
  row := p.row + 1
  drawn := p.drawn ++ [(p.row, a)]

/-- Draw on the next row if it is in front of the limit. -/
def putIf (bot : Int) (p : Pen α) (a : α) : Pen α :=
  if p.row < bot then p.put a else p

/-- Draw the same on every row up to the limit. -/
def fill (bot : Int) (a : α) (p : Pen α) : Pen α :=
  if p.row < bot then fill bot a (p.put a) else p
termination_by (bot - p.row).toNat
decreasing_by
  show (bot - (p.row + 1)).toNat < (bot - p.row).toNat
  omega

/-- A pen that started at row `first` was asked for `items` and drew those in front of
the limit. -/
structure Holds (first bot : Int) (p : Pen α) (items : List α) : Prop where
  drawn : p.drawn = place first (items.take (bot - first).toNat)
  row : p.row = first + min items.length (bot - first).toNat

variable {first bot : Int} {p : Pen α} {items : List α}

theorem Holds.start (first bot : Int) : Holds first bot (Pen.start first : Pen α) [] where
  drawn := by
    rw [List.take_nil]
    rfl
  row := by simp [Pen.start]

theorem Holds.put (h : Holds first bot p items) (hroom : p.row < bot) (a : α) :
    Holds first bot (p.put a) (items ++ [a]) := by
  have hrow := h.row
  have hlen : items.length < (bot - first).toNat := by omega
  have hlen' : (items ++ [a]).length ≤ (bot - first).toNat := by
    rw [List.length_append, List.length_singleton]
    exact hlen
  constructor
  · show p.drawn ++ [(p.row, a)] = _
    rw [h.drawn, List.take_of_length_le (Nat.le_of_lt hlen), List.take_of_length_le hlen',
      place_append, hrow, Nat.min_eq_left (Nat.le_of_lt hlen)]
    rfl
  · show p.row + 1 = _
    rw [List.length_append, List.length_singleton]
    omega

/-- A pen at its limit leaves out everything else. -/
theorem Holds.append (h : Holds first bot p items) (hfull : ¬ p.row < bot) (items' : List α) :
    Holds first bot p (items ++ items') := by
  have hrow := h.row
  have hlen : (bot - first).toNat ≤ items.length := by omega
  constructor
  · rw [h.drawn, List.take_append_of_le_length hlen]
  · rw [List.length_append]
    omega

theorem Holds.putIf (h : Holds first bot p items) (a : α) :
    Holds first bot (p.putIf bot a) (items ++ [a]) := by
  unfold Pen.putIf
  split
  · rename_i hroom
    exact h.put hroom a
  · rename_i hfull
    exact h.append hfull [a]

theorem Holds.foldl_putIf (h : Holds first bot p items) (items' : List α) :
    Holds first bot (items'.foldl (Pen.putIf bot) p) (items ++ items') := by
  induction items' generalizing p items with
  | nil =>
      rw [List.append_nil]
      exact h
  | cons a items' ih =>
      have hrest := ih (h.putIf a)
      rw [List.append_assoc, List.singleton_append] at hrest
      exact hrest

/-- After filling, the rows in front of the limit hold the items and then the filling. -/
theorem Holds.fill (h : Holds first bot p items) (hbot : first ≤ bot) (a : α) :
    (p.fill bot a).drawn =
      place first (items.take (bot - first).toNat ++
        List.replicate ((bot - first).toNat - items.length) a) := by
  induction hfuel : (bot - first).toNat - items.length generalizing p items with
  | zero =>
      have hrow := h.row
      have hfull : ¬ p.row < bot := by omega
      rw [Pen.fill, if_neg hfull, h.drawn, List.replicate_zero, List.append_nil]
  | succ fuel ih =>
      have hrow := h.row
      have hroom : p.row < bot := by omega
      have hlen : (items ++ [a]).length = items.length + 1 := by simp
      rw [Pen.fill, if_pos hroom, ih (h.put hroom a) (by omega),
        List.take_of_length_le (by omega), List.take_of_length_le (by omega),
        List.append_assoc, List.replicate_succ, List.singleton_append]

end Pen

end Foundation
end DtCore
