import Mathlib.Logic.Function.Basic
import Mathlib.Tactic
import DtCore.Foundation.Block

/-!
# Programs over arrays

A program over arrays has no result when it leaves one of them.  The rules below show that it
has a result, and at the same time what it computes: an array holds a sequence when its cells
are related to the values of the sequence, one by one, and a loop keeps an invariant that
depends on its index.

Main definitions:

- `Ensures`: there is a result, and it is as stated.
- `Block.get`, `Block.set`, `Block.modify`: the operators for an index.
- `Block.Holds`: the sequence that an array holds.
- `forWhile`: a loop that counts.

Main results:

- Theorem `Ensures.bind`: one step and the rest of a program.
- Theorem `Block.Holds.modify`: what an array holds after one of its cells has changed.
- Theorem `forWhile_ensures`: the rule for loops.
- Theorem `Block.Holds.forRange`: what an array holds after a loop over its cells.
-/

namespace DtCore
namespace Foundation

universe u v w

variable {α : Type u} {β : Type v}

/-! ## Results -/

/-- There is a result, and it is as stated. -/
def Ensures (P : α → Prop) (o : Option α) : Prop :=
  ∃ a, o = some a ∧ P a

theorem ensures_some {P : α → Prop} {a : α} (h : P a) : Ensures P (some a) :=
  ⟨a, rfl, h⟩

/-- What is known of a result is what gives it. -/
theorem ensures_of_exists {o : Option α} (h : ∃ a, o = some a) : Ensures (fun a => o = some a) o :=
  h.imp (fun _ ha => ⟨ha, ha⟩)

theorem Ensures.bind {P : α → Prop} {Q : β → Prop} {o : Option α} {f : α → Option β}
    (h : Ensures P o) (hf : ∀ a, P a → Ensures Q (f a)) : Ensures Q (o.bind f) := by
  rcases h with ⟨a, rfl, ha⟩
  exact hf a ha

theorem Ensures.map {P : α → Prop} {Q : β → Prop} {o : Option α} {f : α → β}
    (h : Ensures P o) (hf : ∀ a, P a → Q (f a)) : Ensures Q (o.map f) := by
  rcases h with ⟨a, rfl, ha⟩
  exact ⟨f a, rfl, hf a ha⟩

theorem Ensures.imp {P Q : α → Prop} {o : Option α} (h : Ensures P o) (hPQ : ∀ a, P a → Q a) :
    Ensures Q o := by
  rcases h with ⟨a, ho, ha⟩
  exact ⟨a, ho, hPQ a ha⟩

/-! ## Indices -/

namespace Block

variable {size : Nat} {γ : Type w}

/-- `b[i]`. -/
def get (b : Block α size) (i : Int) : Option α :=
  if 0 ≤ i then b.cells[i.toNat]? else none

/-- `b[i] = a`. -/
def set (b : Block α size) (i : Int) (a : α) : Option (Block α size) :=
  if 0 ≤ i ∧ i < size then
    some
      { cells := b.cells.set i.toNat a
        length_cells := by rw [List.length_set, b.length_cells] }
  else none

/-- A change of `b[i]`. -/
def modify (b : Block α size) (i : Int) (f : α → Option α) : Option (Block α size) := do
  let a ← b.get i
  let a ← f a
  b.set i a

theorem cells_set (b : Block α size) {i : Nat} (h : i < size) (a : α) :
    Ensures (fun b' => b'.cells = b.cells.set i a) (b.set i a) := by
  have hin : (0 : Int) ≤ i ∧ (i : Int) < size := ⟨by omega, by omega⟩
  rw [set, if_pos hin]
  exact ensures_some rfl

/-- The cells are related to the values of a sequence. -/
def Holds (R : α → β → Prop) (b : Block α size) (f : Nat → β) : Prop :=
  ∀ i < size, ∃ a, b.cells[i]? = some a ∧ R a (f i)

variable {R : α → β → Prop} {b : Block α size} {f : Nat → β}

theorem Holds.congr (h : b.Holds R f) {g : Nat → β} (hfg : ∀ i < size, f i = g i) :
    b.Holds R g := by
  intro i hi
  rw [← hfg i hi]
  exact h i hi

theorem holds_fill {a : α} (h : ∀ i < size, R a (f i)) : (fill a : Block α size).Holds R f := by
  intro i hi
  refine ⟨a, ?_, h i hi⟩
  show (List.replicate size a)[i]? = some a
  rw [List.getElem?_replicate, if_pos hi]

/-- Whatever is in the array is related to something. -/
theorem Holds.of_mem (h : b.Holds R f) {a : α} (ha : a ∈ b.cells) : ∃ x, R a x := by
  rcases List.mem_iff_getElem?.mp ha with ⟨i, hi⟩
  have hlt : i < size := by
    rw [← b.length_cells]
    exact (List.getElem?_eq_some_iff.mp hi).choose
  rcases h i hlt with ⟨a', ha', hR⟩
  rw [hi] at ha'
  injection ha' with ha'
  subst ha'
  exact ⟨f i, hR⟩

theorem Holds.get (h : b.Holds R f) {i : Int} (h0 : 0 ≤ i) (hi : i < size) :
    Ensures (fun a => R a (f i.toNat)) (b.get i) := by
  rcases h i.toNat (by omega) with ⟨a, ha, hR⟩
  refine ⟨a, ?_, hR⟩
  rw [Block.get, if_pos h0, ha]

theorem Holds.set (h : b.Holds R f) {i : Int} (h0 : 0 ≤ i) (hi : i < size) {a : α} {x : β}
    (hR : R a x) : Ensures (fun b' => b'.Holds R (Function.update f i.toNat x)) (b.set i a) := by
  rw [Block.set, if_pos ⟨h0, hi⟩]
  refine ensures_some ?_
  intro j hj
  show ∃ a', (b.cells.set i.toNat a)[j]? = some a' ∧ R a' (Function.update f i.toNat x j)
  by_cases heq : j = i.toNat
  · subst heq
    have hlen : i.toNat < b.cells.length := by
      rw [b.length_cells]
      exact hj
    rw [List.getElem?_set_self hlen, Function.update_self]
    exact ⟨a, rfl, hR⟩
  · rw [List.getElem?_set_ne (Ne.symm heq), Function.update_of_ne heq]
    exact h j hj

theorem Holds.modify (h : b.Holds R f) {i : Int} (h0 : 0 ≤ i) (hi : i < size)
    {g : α → Option α} {x : β} (hg : ∀ a, R a (f i.toNat) → Ensures (fun a' => R a' x) (g a)) :
    Ensures (fun b' => b'.Holds R (Function.update f i.toNat x)) (b.modify i g) :=
  (h.get h0 hi).bind (fun a ha => (hg a ha).bind (fun _ ha' => h.set h0 hi ha'))

end Block

/-! ## Loops -/

/-- At most `n` passes from index `i` on, as long as the condition holds. -/
def passes (cond : β → Bool) (body : Int → β → Option β) : Nat → Int → β → Option β
  | 0, _, s => some s
  | n + 1, i, s =>
      if cond s then (body i s).bind (fun s' => passes cond body n (i + 1) s') else some s

/-- `for (int i = start; i < stop && cond; ++i)`. -/
def forWhile (start stop : Int) (cond : β → Bool) (body : Int → β → Option β) (s : β) :
    Option β :=
  passes cond body (stop - start).toNat start s

/-- `for (int i = start; i < stop; ++i)`. -/
def forRange (start stop : Int) (body : Int → β → Option β) (s : β) : Option β :=
  forWhile start stop (fun _ => true) body s

section Loops

variable {start stop : Int} {cond : β → Bool} {body : Int → β → Option β} {I : Int → β → Prop}
variable {s : β}

/-- An invariant that the passes keep, and that the index alone keeps once the condition
fails, holds at the end of the range. -/
theorem forWhile_ensures (hle : start ≤ stop) (h : I start s)
    (hbody : ∀ i s, start ≤ i → i < stop → cond s = true → I i s →
      Ensures (I (i + 1)) (body i s))
    (hskip : ∀ i s, start ≤ i → i < stop → cond s = false → I i s → I (i + 1) s) :
    Ensures (I stop) (forWhile start stop cond body s) := by
  have hfail : ∀ (n : Nat) (i : Int) (t : β), start ≤ i → i + n = stop → cond t = false →
      I i t → I stop t := by
    intro n
    induction n with
    | zero =>
        intro i t _ hstop _ hI
        have heq : i = stop := by omega
        rw [← heq]
        exact hI
    | succ n ih =>
        intro i t hlow hstop hcond hI
        have hnext := hskip i t hlow (by omega) hcond hI
        exact ih (i + 1) t (by omega) (by omega) hcond hnext
  have hpasses : ∀ (n : Nat) (i : Int) (t : β), start ≤ i → i + n = stop → I i t →
      Ensures (I stop) (passes cond body n i t) := by
    intro n
    induction n with
    | zero =>
        intro i t _ hstop hI
        have heq : i = stop := by omega
        rw [← heq]
        exact ensures_some hI
    | succ n ih =>
        intro i t hlow hstop hI
        unfold passes
        split
        · rename_i hcond
          refine (hbody i t hlow (by omega) hcond hI).bind (fun t' hI' => ?_)
          exact ih (i + 1) t' (by omega) (by omega) hI'
        · rename_i hcond
          have hfalse : cond t = false := by simpa using hcond
          exact ensures_some (hfail (n + 1) i t hlow hstop hfalse hI)
  exact hpasses _ start s (Int.le_refl _) (by omega) h

theorem forRange_ensures (hle : start ≤ stop) (h : I start s)
    (hbody : ∀ i s, start ≤ i → i < stop → I i s → Ensures (I (i + 1)) (body i s)) :
    Ensures (I stop) (forRange start stop body s) := by
  refine forWhile_ensures hle h (fun i s hlow hhigh _ => hbody i s hlow hhigh) ?_
  intro i s _ _ hcond
  contradiction

/-- A range that ends below zero has no pass. -/
theorem forRange_toNat (stop : Int) (body : Int → β → Option β) (s : β) :
    forRange 0 stop body s = forRange 0 (stop.toNat : Int) body s := by
  have hlen : (stop - 0).toNat = ((stop.toNat : Int) - 0).toNat := by omega
  rw [forRange, forRange, forWhile, forWhile, hlen]

/-- A loop that changes the cells of its range. -/
theorem Block.Holds.forRange {size : Nat} {R : α → β → Prop} {b : Block α size} {f g : Nat → β}
    (h : b.Holds R f) (first last : Nat) (hle : first ≤ last) (hlast : last ≤ size)
    {c : Int → α → Option α}
    (hchange : ∀ i : Nat, first ≤ i → i < last → ∀ a, R a (f i) →
      Ensures (fun a' => R a' (g i)) (c i a)) :
    Ensures (fun b' => b'.Holds R (fun i => if first ≤ i ∧ i < last then g i else f i))
      (forRange first last (fun i b => b.modify i (c i)) b) := by
  have hloop : Ensures (fun b' => b'.Holds R (fun j =>
        if first ≤ j ∧ j < (last : Int).toNat then g j else f j))
      (Foundation.forRange first last (fun i b => b.modify i (c i)) b) := by
    refine forRange_ensures (I := fun (i : Int) (b' : Block α size) => b'.Holds R (fun j =>
      if first ≤ j ∧ j < i.toNat then g j else f j)) (by omega) ?_ ?_
    · refine h.congr (fun j _ => ?_)
      rw [if_neg (by omega)]
    · intro i b' hlow hhigh hb'
      have hcast : ((i.toNat : Nat) : Int) = i := Int.toNat_of_nonneg (by omega)
      have hcell : ∀ a, R a (if first ≤ i.toNat ∧ i.toNat < i.toNat then g i.toNat
          else f i.toNat) → Ensures (fun a' => R a' (g i.toNat)) (c i a) := by
        intro a ha
        rw [if_neg (by omega)] at ha
        have hnew := hchange i.toNat (by omega) (by omega) a ha
        rw [hcast] at hnew
        exact hnew
      have hmod := hb'.modify (by omega) (by omega) hcell
      refine hmod.imp (fun b'' hb'' => hb''.congr (fun j _ => ?_))
      by_cases heq : j = i.toNat
      · rw [heq, Function.update_self, if_pos ⟨by omega, by omega⟩]
      · rw [Function.update_of_ne heq]
        by_cases hj : first ≤ j ∧ j < i.toNat
        · rw [if_pos hj, if_pos ⟨hj.1, by omega⟩]
        · rw [if_neg hj, if_neg (by omega)]
  exact hloop

/-- A loop that stores what its passes find. -/
theorem forRange_collect {n : Nat} {f : Nat → α} {find : Int → Option α}
    (h : ∀ i < n, find i = some (f i)) :
    forRange 0 n (fun i found => (find i).map (fun a => found ++ [a])) [] =
      some ((List.range n).map f) := by
  have hloop : Ensures (fun found => found = (List.range (n : Int).toNat).map f)
      (forRange 0 n (fun i found => (find i).map (fun a => found ++ [a])) []) := by
    refine forRange_ensures (I := fun i found => found = (List.range i.toNat).map f)
      (by omega) rfl ?_
    intro i found h0 hi hfound
    have hlt : i.toNat < n := by omega
    have hcast : ((i.toNat : Nat) : Int) = i := Int.toNat_of_nonneg h0
    have hfind := h i.toNat hlt
    rw [hcast] at hfind
    have hnext : (i + 1).toNat = i.toNat + 1 := by omega
    rw [hfind]
    refine ensures_some ?_
    rw [hfound, hnext, List.range_succ, List.map_append]
    rfl
  rcases hloop with ⟨found, hres, hfound⟩
  rw [hres, hfound, Int.toNat_natCast]

end Loops

end Foundation
end DtCore
