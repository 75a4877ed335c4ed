import Mathlib.Logic.Basic

/-!
# Critical sections

A mutex is a field of the state that names its owner, and every thread has a
critical section, the states in which it is inside.  A step moves one thread: it
stays where it is, takes the free mutex, or leaves its section.  If all steps are
of this kind, a thread inside always owns the mutex, so no two are inside at once.

Main results:

- Definition `Guarded`: every thread inside its section owns the mutex.
- Theorem `Guarded.unique`: at most one thread is inside.
- Theorem `Guarded.step`: the discipline survives every step.
- Definition `Exact` and theorem `Exact.step`: the same where the owner never leaves its section
  without giving the mutex back.
-/

namespace DtCore
namespace Foundation

universe u v

variable {σ : Type u} {O : Type v} {inside : σ → O → Prop} {mutex : σ → Option O}

/-- Every thread inside its critical section owns the mutex. -/
def Guarded (inside : σ → O → Prop) (mutex : σ → Option O) (s : σ) : Prop :=
  ∀ o, inside s o → mutex s = some o

/-- How the step of one thread treats the mutex. -/
inductive MutexStep (inside : σ → O → Prop) (mutex : σ → Option O) (s s' : σ) (o : O) : Prop where
  | outside : mutex s' = mutex s → ¬ inside s' o → MutexStep inside mutex s s' o
  | inside : mutex s' = mutex s → inside s o → MutexStep inside mutex s s' o
  | lock : mutex s = none → mutex s' = some o → MutexStep inside mutex s s' o
  | unlock : inside s o → ¬ inside s' o → MutexStep inside mutex s s' o

theorem Guarded.unique {s : σ} (h : Guarded inside mutex s) {o o' : O} (ho : inside s o)
    (ho' : inside s o') : o = o' := by
  have heq := (h o ho).symm.trans (h o' ho')
  exact Option.some.inj heq

/-- Nobody is inside while the mutex is free. -/
theorem Guarded.free {s : σ} (h : Guarded inside mutex s) (hfree : mutex s = none) (o : O) :
    ¬ inside s o := by
  intro ho
  have heq := h o ho
  rw [hfree] at heq
  contradiction

/-- One thread moves and the others stay where they are. -/
theorem Guarded.step {s s' : σ} {o : O} (h : Guarded inside mutex s)
    (hothers : ∀ o', o' ≠ o → (inside s' o' ↔ inside s o'))
    (hmove : MutexStep inside mutex s s' o) : Guarded inside mutex s' := by
  intro o' ho'
  by_cases hoo : o' = o
  · rw [hoo] at ho' ⊢
    cases hmove with
    | outside heq hout => exact absurd ho' hout
    | inside heq hin => rw [heq, h o hin]
    | lock hfree htake => exact htake
    | unlock hin hout => exact absurd ho' hout
  · have hold := (hothers o' hoo).mp ho'
    cases hmove with
    | outside heq hout => rw [heq, h o' hold]
    | inside heq hin => exact absurd (h.unique hold hin) hoo
    | lock hfree htake => exact absurd hold (h.free hfree o')
    | unlock hin hout => exact absurd (h.unique hold hin) hoo

/-- The threads inside their critical section are exactly the owner. -/
def Exact (inside : σ → O → Prop) (mutex : σ → Option O) (s : σ) : Prop :=
  ∀ o, inside s o ↔ mutex s = some o

/-- How the step of one thread treats the mutex when it takes and returns it as it enters and
leaves its section. -/
inductive ExactStep (inside : σ → O → Prop) (mutex : σ → Option O) (s s' : σ) (o : O) : Prop where
  | stay : mutex s' = mutex s → (inside s' o ↔ inside s o) → ExactStep inside mutex s s' o
  | lock : mutex s = none → mutex s' = some o → inside s' o → ExactStep inside mutex s s' o
  | unlock : inside s o → mutex s' = none → ¬ inside s' o → ExactStep inside mutex s s' o

theorem Exact.guarded {s : σ} (h : Exact inside mutex s) : Guarded inside mutex s :=
  fun o ho => (h o).mp ho

/-- One thread moves and the others stay where they are. -/
theorem Exact.step {s s' : σ} {o : O} (h : Exact inside mutex s)
    (hothers : ∀ o', o' ≠ o → (inside s' o' ↔ inside s o'))
    (hmove : ExactStep inside mutex s s' o) : Exact inside mutex s' := by
  intro o'
  by_cases hoo : o' = o
  · rw [hoo]
    cases hmove with
    | stay heq hin => rw [hin, heq, h o]
    | lock hfree htake hin => exact iff_of_true hin htake
    | unlock hin hfree hout => exact iff_of_false hout (by simp [hfree])
  · rw [hothers o' hoo]
    cases hmove with
    | stay heq hin => rw [heq, h o']
    | lock hfree htake hin =>
        have hout := h.guarded.free hfree o'
        exact iff_of_false hout (by simpa [htake] using fun heq => hoo heq.symm)
    | unlock hin hfree hout =>
        have hout' : ¬ inside s o' := fun ho' => hoo (h.guarded.unique ho' hin)
        exact iff_of_false hout' (by simp [hfree])

end Foundation
end DtCore
