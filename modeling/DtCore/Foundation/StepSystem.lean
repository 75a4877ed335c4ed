import Mathlib.Logic.Function.Basic
import Mathlib.Data.List.Basic

/-!
# Guarded step systems

A concurrent component is modelled as a partial step function: a label says
which thread moves and `none` says that the thread cannot make this step now.
Assumptions about the environment of a run (a scheduler that never lets a
thread sleep too long, a service that answers at most once) are a guard on the
state before each step, so that every theorem names the runs it is about.

Main results:

- Theorem `Reach.invariant`: an invariant rule for all guarded runs.
- Theorem `Reach.project`: a step system that contains another one only
  reaches states whose component the contained system can reach itself.
- Theorem `reach_of_run`: a finite schedule that passes every guard is a run.
-/

namespace DtCore
namespace Foundation

universe u v w x

variable {σ : Type u} {ℓ : Type v} {τ : Type w} {κ : Type x}

/-- States reached from `start` by steps that all meet the guard `ok`. -/
inductive Reach (step : σ → ℓ → Option σ) (ok : σ → ℓ → Prop) (start : σ) : σ → Prop where
  | start : Reach step ok start start
  | step {s s' : σ} {l : ℓ} :
      Reach step ok start s → ok s l → step s l = some s' → Reach step ok start s'

/-- An invariant that holds at the start and survives every guarded step holds
in every state of every run. -/
theorem Reach.invariant {step : σ → ℓ → Option σ} {ok : σ → ℓ → Prop} {start : σ}
    {Inv : σ → Prop} (hstart : Inv start)
    (hstep : ∀ s l s', Inv s → ok s l → step s l = some s' → Inv s')
    {s : σ} (h : Reach step ok start s) : Inv s := by
  induction h with
  | start => exact hstart
  | step _ hok hs ih => exact hstep _ _ _ ih hok hs

/-- The invariant rule with a second invariant already known of every state. -/
theorem Reach.invariant_with {step : σ → ℓ → Option σ} {ok : σ → ℓ → Prop} {start : σ}
    {Known Inv : σ → Prop} (hknown : ∀ s, Reach step ok start s → Known s)
    (hstart : Inv start)
    (hstep : ∀ s l s', Known s → Known s' → Inv s → ok s l → step s l = some s' → Inv s')
    {s : σ} (h : Reach step ok start s) : Inv s := by
  induction h with
  | start => exact hstart
  | step hr hok hs ih =>
      exact hstep _ _ _ (hknown _ hr) (hknown _ (Reach.step hr hok hs)) ih hok hs

/-- Weakening the guard only adds runs. -/
theorem Reach.mono {step : σ → ℓ → Option σ} {ok ok' : σ → ℓ → Prop} {start s : σ}
    (hok : ∀ s l, ok s l → ok' s l) (h : Reach step ok start s) : Reach step ok' start s := by
  induction h with
  | start => exact Reach.start
  | step _ hl hs ih => exact Reach.step ih (hok _ _ hl) hs

/-- Runs can be put one after the other. -/
theorem Reach.trans {step : σ → ℓ → Option σ} {ok : σ → ℓ → Prop} {start s s' : σ}
    (h : Reach step ok start s) (h' : Reach step ok s s') : Reach step ok start s' := by
  induction h' with
  | start => exact h
  | step _ hok hs ih => exact Reach.step ih hok hs

/-- A system whose steps are, on one component, either idle or guarded steps of
another system only reaches states whose component that other system reaches. -/
theorem Reach.project {step : σ → ℓ → Option σ} {ok : σ → ℓ → Prop} {start : σ}
    {step' : τ → κ → Option τ} {ok' : τ → κ → Prop} (part : σ → τ)
    (hsim : ∀ s l s', ok s l → step s l = some s' →
      part s' = part s ∨ ∃ k, ok' (part s) k ∧ step' (part s) k = some (part s'))
    {s : σ} (h : Reach step ok start s) : Reach step' ok' (part start) (part s) := by
  induction h with
  | start => exact Reach.start
  | step _ hok hs ih =>
      rcases hsim _ _ _ hok hs with heq | ⟨k, hk, hstep⟩
      · rw [heq]
        exact ih
      · exact Reach.step ih hk hstep

/-- What is known of every reached state may be added to the guard. -/
theorem Reach.with_known {step : σ → ℓ → Option σ} {ok : σ → ℓ → Prop} {start : σ}
    {Known : σ → Prop} (hknown : ∀ s, Reach step ok start s → Known s) {s : σ}
    (h : Reach step ok start s) : Reach step (fun t l => ok t l ∧ Known t) start s := by
  induction h with
  | start => exact Reach.start
  | step hr hok hs ih => exact Reach.step ih ⟨hok, hknown _ hr⟩ hs

/-- Follow a schedule, failing at the first step that is not possible or that
the guard forbids. -/
def run (step : σ → ℓ → Option σ) (ok : σ → ℓ → Prop) [∀ s l, Decidable (ok s l)] :
    σ → List ℓ → Option σ
  | s, [] => some s
  | s, l :: ls =>
      if ok s l then
        match step s l with
        | none => none
        | some s' => run step ok s' ls
      else none

/-- A schedule is followed part by part. -/
theorem run_append {step : σ → ℓ → Option σ} {ok : σ → ℓ → Prop}
    [∀ s l, Decidable (ok s l)] (p q : List ℓ) (s : σ) :
    run step ok s (p ++ q) = (run step ok s p).bind (fun t => run step ok t q) := by
  induction p generalizing s with
  | nil => rfl
  | cons l p ih =>
      rw [List.cons_append, run, run]
      split
      · cases step s l with
        | none => rfl
        | some t => exact ih t
      · rfl

/-- What every good step keeps holds at the end of a schedule of good steps. -/
theorem run_invariant {step : σ → ℓ → Option σ} {ok : σ → ℓ → Prop}
    [∀ s l, Decidable (ok s l)] (Inv : σ → Prop) (good : ℓ → Prop)
    (hstep : ∀ s l s', Inv s → good l → step s l = some s' → Inv s') {ls : List ℓ} {s t : σ}
    (hs : Inv s) (hls : ∀ l ∈ ls, good l) (h : run step ok s ls = some t) : Inv t := by
  induction ls generalizing s with
  | nil =>
      simp only [run, Option.some.injEq] at h
      exact h ▸ hs
  | cons l ls ih =>
      simp only [run] at h
      split at h
      · split at h
        · contradiction
        · rename_i s' hs'
          exact ih (hstep s l s' hs (hls l List.mem_cons_self) hs')
            (fun l' hl' => hls l' (List.mem_cons_of_mem l hl')) h
      · contradiction

/-- The last state of a schedule that passes every guard is reached. -/
theorem reach_of_run {step : σ → ℓ → Option σ} {ok : σ → ℓ → Prop}
    [∀ s l, Decidable (ok s l)] {start s s' : σ} {ls : List ℓ}
    (hs : Reach step ok start s) (hrun : run step ok s ls = some s') :
    Reach step ok start s' := by
  induction ls generalizing s with
  | nil =>
      simp only [run, Option.some.injEq] at hrun
      exact hrun ▸ hs
  | cons l ls ih =>
      simp only [run] at hrun
      split at hrun
      · rename_i hok
        split at hrun
        · contradiction
        · rename_i t ht
          exact ih (Reach.step hs hok ht) hrun
      · contradiction

/-- A schedule shows that some reached state has an observed value. -/
theorem exists_reach_of_run {α : Type w} {step : σ → ℓ → Option σ} {ok : σ → ℓ → Prop}
    [∀ s l, Decidable (ok s l)] {start : σ} {ls : List ℓ} {observe : σ → α} {a : α}
    (hrun : (run step ok start ls).map observe = some a) :
    ∃ s, Reach step ok start s ∧ observe s = a := by
  obtain ⟨s, hs, ha⟩ := Option.map_eq_some_iff.mp hrun
  exact ⟨s, reach_of_run Reach.start hs, ha⟩

end Foundation
end DtCore
