import DtCore.DAQ.Manager.Model
import DtCore.Foundation.Mutex

/-!
# The mutexes of the DAQ manager

A thread holds `_src_mtx` from its lock to `unlockSources`, also while it updates the sources of
the manager, and the `_sink_mtx` of a source while it publishes or changes the sinks.  So each
mutex is owned by exactly the thread inside its section, and because the second kind is only
taken after the first, some thread can always go on.

Main results:

- Theorem `locks_reachable`: the owner of a mutex is the thread inside its section.
- Theorem `never_deadlocks`: as long as a member function runs, one of them can make a step.
-/

namespace DtCore
namespace DAQ
namespace Manager

open Foundation

variable {T S K V : Type}

/-! ## The sections -/

/-- The update was started by the manager. -/
def Updater.Managed : Updater S → Prop
  | .manager _ => True
  | .direct => False

/-- The section of `_src_mtx`. -/
def Pc.HoldsSources : Pc S K → Prop
  | .changeSources _ => True
  | .loop _ => True
  | .unlockSources => True
  | .updateData _ updater => updater.Managed
  | .lockPublish _ updater => updater.Managed
  | .publish _ _ updater => updater.Managed
  | _ => False

/-- The section of the `_sink_mtx` of a source. -/
def Pc.HoldsSinks (src : S) : Pc S K → Prop
  | .publish src' _ _ => src' = src
  | .changeSinks src' _ => src' = src
  | .unlockSinks src' => src' = src
  | _ => False

@[simp]
theorem holdsSources_next (updater : Updater S) :
    (updater.next : Pc S K).HoldsSources ↔ updater.Managed := by
  cases updater <;> simp [Updater.next, Pc.HoldsSources, Updater.Managed]

@[simp]
theorem holdsSinks_next (src : S) (updater : Updater S) :
    ¬ (updater.next : Pc S K).HoldsSinks src := by
  cases updater <;> simp [Updater.next, Pc.HoldsSinks]

@[simp]
theorem holdsSources_entry (c : Call S K) : ¬ c.entry.HoldsSources := by
  cases c <;> simp [Call.entry, Pc.HoldsSources, Updater.Managed]

@[simp]
theorem holdsSinks_entry (src : S) (c : Call S K) : ¬ c.entry.HoldsSinks src := by
  cases c <;> simp [Call.entry, Pc.HoldsSinks]

/-- Both mutexes are owned by the thread inside their section. -/
structure Locks (s : State T S K V) : Prop where
  sources : Exact (fun s t => (s.threads t).HoldsSources) State.srcMtx s
  sinks : ∀ src, Exact (fun s t => (s.threads t).HoldsSinks src) (fun s => s.sinkMtx src) s

theorem locks_initial [Inhabited V] : Locks (initial : State T S K V) where
  sources t := by simp [initial, Pc.HoldsSources]
  sinks src t := by simp [initial, Pc.HoldsSinks]

section Steps

variable [DecidableEq T] [DecidableEq S] [DecidableEq K]

/-! ## One step -/

/-- The thread that moves. -/
def Label.mover : Label T S K V → T
  | .call t _ => t
  | .access t => t
  | .data t _ => t

omit [DecidableEq S] [DecidableEq K] in
@[simp]
theorem setThread_self (s : State T S K V) (t : T) (pc : Pc S K) :
    (s.setThread t pc).threads t = pc := by
  simp [State.setThread]

omit [DecidableEq S] [DecidableEq K] in
theorem setThread_other (s : State T S K V) {t t' : T} (pc : Pc S K) (h : t' ≠ t) :
    (s.setThread t pc).threads t' = s.threads t' := by
  simp [State.setThread, h]

/-- The step of a thread leaves the other threads where they are. -/
theorem Moves.other {isPb : S → K → Bool} {s s' : State T S K V} {l : Label T S K V}
    (h : Moves isPb s l s') {t : T} (ht : t ≠ l.mover) : s'.threads t = s.threads t := by
  cases h <;> exact setThread_other _ _ ht

/-- How a step treats `_src_mtx`. -/
theorem Moves.sources {isPb : S → K → Bool} {s s' : State T S K V} {l : Label T S K V}
    (h : Moves isPb s l s') :
    ExactStep (fun s t => (s.threads t).HoldsSources) State.srcMtx s s' l.mover := by
  cases h with
  | enter t c hpc =>
      refine ExactStep.stay rfl ?_
      simp only [Label.mover, setThread_self, hpc, holdsSources_entry]
      exact Iff.rfl
  | lockSources t op hpc hfree | lockUpdate t hpc hfree =>
      exact ExactStep.lock hfree rfl (by simp [Label.mover, State.setThread, Pc.HoldsSources])
  | unlockSources t hpc =>
      exact ExactStep.unlock (by simp [Label.mover, hpc, Pc.HoldsSources]) rfl
        (by simp [Label.mover, State.setThread, Pc.HoldsSources])
  | published t src updater hpc | nothing t src updater hpc =>
      refine ExactStep.stay rfl ?_
      simp only [Label.mover, State.setThread, Function.update_self, hpc, holdsSources_next]
      exact Iff.rfl
  | rejected t src updater value hpc =>
      refine ExactStep.stay rfl ?_
      simp only [Label.mover, setThread_self, hpc, holdsSources_next]
      exact Iff.rfl
  | changeSources t op hpc | loopEnd t hpc | loopNext t src rest hpc | lockPublish t src u hpc
  | publish t src sink sinks u hpc | lockSinks t src op hpc | changeSinks t src op hpc
  | unlockSinks t src hpc | filled t src u value hpc =>
      exact ExactStep.stay rfl
        (by simp [Label.mover, State.setThread, hpc, Pc.HoldsSources, Updater.Managed])

/-- How a step treats the `_sink_mtx` of a source. -/
theorem Moves.sinks {isPb : S → K → Bool} {s s' : State T S K V} {l : Label T S K V}
    (h : Moves isPb s l s') (src : S) :
    ExactStep (fun s t => (s.threads t).HoldsSinks src) (fun s => s.sinkMtx src) s s' l.mover := by
  cases h with
  | enter t c hpc =>
      refine ExactStep.stay rfl ?_
      simp only [Label.mover, setThread_self, hpc, holdsSinks_entry]
      exact Iff.rfl
  | nothing t src' updater hpc | rejected t src' updater value hpc =>
      refine ExactStep.stay rfl ?_
      simp only [Label.mover, setThread_self, hpc, holdsSinks_next]
      exact Iff.rfl
  | lockPublish t src' updater hpc hfree | lockSinks t src' op hpc hfree =>
      by_cases heq : src = src'
      · subst heq
        exact ExactStep.lock hfree (by simp [Label.mover])
          (by simp [Label.mover, State.setThread, Pc.HoldsSinks])
      · exact ExactStep.stay (by simp [heq])
          (by simp [Label.mover, State.setThread, hpc, Pc.HoldsSinks, Ne.symm heq])
  | published t src' updater hpc =>
      have hout : ¬ (updater.next : Pc S K).HoldsSinks src := holdsSinks_next src updater
      by_cases heq : src = src'
      · subst heq
        refine ExactStep.unlock (by simp [Label.mover, hpc, Pc.HoldsSinks]) (by simp) ?_
        simpa only [Label.mover, State.setThread, Function.update_self] using hout
      · refine ExactStep.stay (by simp [heq]) ?_
        simp only [Label.mover, State.setThread, Function.update_self, hpc, hout, false_iff]
        simp [Pc.HoldsSinks, Ne.symm heq]
  | unlockSinks t src' hpc =>
      by_cases heq : src = src'
      · subst heq
        exact ExactStep.unlock (by simp [Label.mover, hpc, Pc.HoldsSinks]) (by simp)
          (by simp [Label.mover, State.setThread, Pc.HoldsSinks])
      · exact ExactStep.stay (by simp [heq])
          (by simp [Label.mover, State.setThread, hpc, Pc.HoldsSinks, Ne.symm heq])
  | lockSources t op hpc | lockUpdate t hpc | unlockSources t hpc | changeSources t op hpc
  | loopEnd t hpc | loopNext t src' rest hpc | publish t src' sink sinks u hpc
  | changeSinks t src' op hpc | filled t src' u value hpc =>
      exact ExactStep.stay rfl
        (by simp [Label.mover, State.setThread, hpc, Pc.HoldsSinks])

theorem Locks.step {isPb : S → K → Bool} {s s' : State T S K V} {l : Label T S K V}
    (h : Locks s) (hs : step isPb s l = some s') : Locks s' := by
  have hmove := step_moves hs
  constructor
  case sources =>
    exact h.sources.step (fun t ht => by rw [hmove.other ht]) hmove.sources
  case sinks =>
    intro src
    exact (h.sinks src).step (fun t ht => by rw [hmove.other ht]) (hmove.sinks src)

theorem locks_reachable [Inhabited V] {isPb : S → K → Bool}
    {ok : State T S K V → Label T S K V → Prop} {s : State T S K V}
    (hr : Reach (Manager.step isPb) ok initial s) : Locks s := by
  apply hr.invariant locks_initial
  intro t l t' ht _ hs
  exact ht.step hs

/-! ## No deadlock -/

/-- The thread can go on by itself. -/
def CanMove (isPb : S → K → Bool) (s : State T S K V) (t : T) : Prop :=
  ∃ l : Label T S K V, l.mover = t ∧ (∀ c, l ≠ .call t c) ∧ (Manager.step isPb s l).isSome

theorem canMove_access {isPb : S → K → Bool} {s : State T S K V} {t : T}
    (h : (s.access isPb t).isSome) : CanMove isPb s t :=
  ⟨.access t, rfl, by simp, h⟩

/-- A thread inside the section of a `_sink_mtx` is never stopped. -/
theorem canMove_of_holdsSinks {isPb : S → K → Bool} {s : State T S K V} {t : T} {src : S}
    (h : (s.threads t).HoldsSinks src) : CanMove isPb s t := by
  apply canMove_access
  cases hpc : s.threads t with
  | publish src' sinks updater => cases sinks <;> simp [State.access, hpc]
  | changeSinks src' op | unlockSinks src' => simp [State.access, hpc]
  | _ => simp [hpc, Pc.HoldsSinks] at h

/-- Of a thread that needs a `_sink_mtx` and its owner, one can go on. -/
theorem Locks.sink_progress {isPb : S → K → Bool} {s : State T S K V} (h : Locks s) (src : S)
    {t : T} (ht : s.sinkMtx src = none → CanMove isPb s t) : ∃ u, CanMove isPb s u := by
  cases hmtx : s.sinkMtx src with
  | none => exact ⟨t, ht hmtx⟩
  | some u => exact ⟨u, canMove_of_holdsSinks ((h.sinks src u).mpr hmtx)⟩

/-- Behind a thread that holds no `_src_mtx` or already has it, some thread can go on. -/
theorem Locks.progress_inside {isPb : S → K → Bool} {s : State T S K V} (h : Locks s) {t : T}
    (hbusy : s.threads t ≠ .idle) (hpc : ∀ op, s.threads t ≠ .lockSources op)
    (hupdate : s.threads t ≠ .lockUpdate) : ∃ u, CanMove isPb s u := by
  cases hthread : s.threads t with
  | idle => exact absurd hthread hbusy
  | lockSources op => exact absurd hthread (hpc op)
  | lockUpdate => exact absurd hthread hupdate
  | updateData src updater =>
      exact ⟨t, .data t .nothing, rfl, by simp, by simp [Manager.step, State.updateData, hthread]⟩
  | lockPublish src updater =>
      refine h.sink_progress src (t := t) (fun hfree => canMove_access ?_)
      simp [State.access, hthread, hfree]
  | lockSinks src op =>
      refine h.sink_progress src (t := t) (fun hfree => canMove_access ?_)
      simp [State.access, hthread, hfree]
  | loop srcs =>
      refine ⟨t, canMove_access ?_⟩
      cases srcs <;> simp [State.access, hthread]
  | publish src sinks updater =>
      refine ⟨t, canMove_access ?_⟩
      cases sinks <;> simp [State.access, hthread]
  | changeSources | unlockSources | changeSinks | unlockSinks =>
      exact ⟨t, canMove_access (by simp [State.access, hthread])⟩

theorem Locks.progress {isPb : S → K → Bool} {s : State T S K V} (h : Locks s) {t : T}
    (hbusy : s.threads t ≠ .idle) : ∃ u, CanMove isPb s u := by
  by_cases hwait : (∃ op, s.threads t = .lockSources op) ∨ s.threads t = .lockUpdate
  · cases hmtx : s.srcMtx with
    | none =>
        refine ⟨t, canMove_access ?_⟩
        rcases hwait with ⟨op, hpc⟩ | hpc <;> simp [State.access, hpc, hmtx]
    | some u =>
        -- the owner is past its own lock
        have hin := (h.sources u).mpr hmtx
        apply h.progress_inside (t := u)
        · intro hpc
          simp [hpc, Pc.HoldsSources] at hin
        · intro op hpc
          simp [hpc, Pc.HoldsSources] at hin
        · intro hpc
          simp [hpc, Pc.HoldsSources] at hin
  · simp only [not_or, not_exists] at hwait
    exact h.progress_inside hbusy hwait.1 hwait.2

/-- In every reachable state in which some member function runs, one of them can go on. -/
theorem never_deadlocks [Inhabited V] (isPb : S → K → Bool) {s : State T S K V}
    (hr : Reach (Manager.step isPb) (fun _ (_ : Label T S K V) => True) initial s)
    (hbusy : ∃ t, s.threads t ≠ .idle) : ∃ t, CanMove isPb s t := by
  rcases hbusy with ⟨t, ht⟩
  exact (locks_reachable hr).progress ht

end Steps

/-- The first thread is inside `Update`, and the second one waits for its mutex. -/
theorem never_deadlocks_update :
    ∃ s : State Bool Unit Unit Nat, s.threads true = .lockUpdate ∧
      ∃ t, CanMove (fun _ _ => true) s t := by
  have hrun : (run (step (fun _ _ => true)) (fun _ (_ : Label Bool Unit Unit Nat) => True)
      initial [.call false .update, .access false, .call true .update]).map
        (fun s => s.threads true) = some .lockUpdate := by decide
  rcases exists_reach_of_run hrun with ⟨s, hs, hpc⟩
  exact ⟨s, hpc, never_deadlocks (fun _ _ => true) hs ⟨true, by simp [hpc]⟩⟩

end Manager
end DAQ
end DtCore
