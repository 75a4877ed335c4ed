import Mathlib.Data.List.Flatten

/-!
# Double buffers

A writer updates the back buffer while readers see the front one, and a swap exchanges
the two when the back buffer has been written to.  Nothing is copied: the updates
between two swaps, a batch, reach one of the two buffers only.  As long as every swap
has shown all updates, the back buffer lacks just the batch that was shown last, and
the next swap shows all updates exactly when that batch makes no difference any more.

Main definitions:

- `DoubleBuffer.update`, `DoubleBuffer.swap`: what happens to the buffers.
- `Batches.after`: the batches that a run consists of.

Main results:

- Theorem `InStep.front_swap_iff`: when a swap shows every update.
- Theorem `InStep.step`: what the buffers hold as long as every swap does so.
-/

namespace DtCore
namespace Foundation

variable {β U : Type}

/-- Two buffers; the back one is dirty when it was written to since the last swap. -/
structure DoubleBuffer (β : Type) where
  front : β
  back : β
  dirty : Bool

/-- What happens to a double buffer. -/
inductive BufferEvent (U : Type) where
  | update (u : U)
  | swap

namespace DoubleBuffer

/-- Both buffers hold the same and the back one is clean. -/
def fresh (b : β) : DoubleBuffer β where
  front := b
  back := b
  dirty := false

/-- Write to the back buffer. -/
def update (act : β → U → β) (u : U) (d : DoubleBuffer β) : DoubleBuffer β :=
  { d with back := act d.back u, dirty := true }

/-- Exchange the buffers if the back one is dirty. -/
def swap (d : DoubleBuffer β) : DoubleBuffer β :=
  if d.dirty then { front := d.back, back := d.front, dirty := false } else d

def step (act : β → U → β) (d : DoubleBuffer β) : BufferEvent U → DoubleBuffer β
  | .update u => d.update act u
  | .swap => d.swap

def run (act : β → U → β) (d : DoubleBuffer β) (es : List (BufferEvent U)) : DoubleBuffer β :=
  es.foldl (step act) d

end DoubleBuffer

/-! ## Batches -/

/-- The batches that swaps have ended, and the updates since. -/
structure Batches (U : Type) where
  done : List (List U)
  current : List U

namespace Batches

def initial : Batches U where
  done := []
  current := []

/-- A swap ends the current batch, unless it is empty. -/
def step (h : Batches U) : BufferEvent U → Batches U
  | .update u => { h with current := h.current ++ [u] }
  | .swap =>
      if h.current.isEmpty then h
      else { done := h.done ++ [h.current], current := [] }

/-- The batches of a run. -/
def after (es : List (BufferEvent U)) : Batches U :=
  es.foldl step initial

/-- All updates in their order. -/
def all (h : Batches U) : List U :=
  h.done.flatten ++ h.current

/-- The updates that are in the back buffer: those without the last batch ended. -/
def behind (h : Batches U) : List U :=
  h.done.dropLast.flatten ++ h.current

end Batches

/-- The update that an event makes. -/
def BufferEvent.update? : BufferEvent U → Option U
  | .update u => some u
  | .swap => none

theorem Batches.all_step (h : Batches U) (e : BufferEvent U) :
    (h.step e).all = h.all ++ e.update?.toList := by
  cases e with
  | update u => exact (List.append_assoc _ _ _).symm
  | swap =>
      unfold Batches.step Batches.all
      by_cases hempty : h.current.isEmpty
      · rw [if_pos hempty]
        exact (List.append_nil _).symm
      · rw [if_neg hempty]
        simp [BufferEvent.update?]

/-- The batches contain the updates of the run. -/
theorem Batches.all_after (es : List (BufferEvent U)) :
    (Batches.after es).all = es.filterMap BufferEvent.update? := by
  have hrun : ∀ (es : List (BufferEvent U)) (h : Batches U),
      (es.foldl Batches.step h).all = h.all ++ es.filterMap BufferEvent.update? := by
    intro es
    induction es with
    | nil => exact fun h => (List.append_nil _).symm
    | cons e es ih =>
        intro h
        rw [List.foldl_cons, ih, Batches.all_step, List.append_assoc]
        cases e <;> rfl
  exact hrun es Batches.initial

/-! ## What the buffers hold -/

/-- A swap now would show every update: the last batch ended makes no difference. -/
def Batches.Refreshed (act : β → U → β) (b : β) (h : Batches U) : Prop :=
  h.current ≠ [] → h.behind.foldl act b = h.all.foldl act b

/-- The front buffer holds the batches that were ended; the back buffer holds the
current batch, but not the last one ended. -/
structure InStep (act : β → U → β) (b : β) (d : DoubleBuffer β) (h : Batches U) : Prop where
  front : d.front = h.done.flatten.foldl act b
  back : d.back = h.behind.foldl act b
  dirty : d.dirty = !h.current.isEmpty

theorem InStep.initial (act : β → U → β) (b : β) :
    InStep act b (DoubleBuffer.fresh b) Batches.initial :=
  ⟨rfl, rfl, rfl⟩

/-- A swap shows every update exactly when the last batch makes no difference. -/
theorem InStep.front_swap_iff {act : β → U → β} {b : β} {d : DoubleBuffer β} {h : Batches U}
    (hs : InStep act b d h) : d.swap.front = h.all.foldl act b ↔ h.Refreshed act b := by
  unfold DoubleBuffer.swap Batches.Refreshed
  rw [hs.dirty]
  by_cases hempty : h.current = []
  · have hall : h.all = h.done.flatten := by
      rw [Batches.all, hempty, List.append_nil]
    simp [hempty, hall, hs.front]
  · simp [hempty, hs.back]

theorem InStep.update {act : β → U → β} {b : β} {d : DoubleBuffer β} {h : Batches U}
    (hs : InStep act b d h) (u : U) :
    InStep act b (d.update act u) (h.step (.update u)) where
  front := hs.front
  back := by
    show act d.back u = (h.done.dropLast.flatten ++ (h.current ++ [u])).foldl act b
    rw [← List.append_assoc, List.foldl_append, hs.back]
    rfl
  dirty := by
    show true = !(h.current ++ [u]).isEmpty
    simp

/-- After a swap that shows every update, only the batch just shown is missing. -/
theorem InStep.swap {act : β → U → β} {b : β} {d : DoubleBuffer β} {h : Batches U}
    (hs : InStep act b d h) (href : h.Refreshed act b) :
    InStep act b d.swap (h.step .swap) := by
  have hshown := hs.front_swap_iff.mpr href
  unfold DoubleBuffer.swap Batches.step at *
  rw [hs.dirty] at hshown ⊢
  by_cases hempty : h.current = []
  · simp only [hempty, List.isEmpty_nil, Bool.not_true, Bool.false_eq_true, if_false, if_true]
    exact hs
  · have hne : h.current.isEmpty = false := List.isEmpty_eq_false_iff.mpr hempty
    simp only [hne, Bool.not_false, if_true, Bool.false_eq_true, if_false] at hshown ⊢
    constructor
    · rw [hshown, Batches.all, List.flatten_concat]
    · rw [Batches.behind, List.dropLast_concat, List.append_nil]
      exact hs.front
    · rfl

theorem InStep.step {act : β → U → β} {b : β} {d : DoubleBuffer β} {h : Batches U}
    (hs : InStep act b d h) (e : BufferEvent U) (href : e = .swap → h.Refreshed act b) :
    InStep act b (d.step act e) (h.step e) := by
  cases e with
  | update u => exact hs.update u
  | swap => exact hs.swap (href rfl)

end Foundation
end DtCore
