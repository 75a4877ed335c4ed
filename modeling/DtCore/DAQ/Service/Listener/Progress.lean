import DtCore.DAQ.Service.Listener.Stop

/-!
# Nobody waits for ever inside `Stop`

Main definitions:

- `Inside`: who is inside a critical section of `_session_list_mtx`.
- `Underway`: the mutex is owned by whoever is inside, a call that is served is with
  gRPC or with the dispatcher, and `Stop` visits sessions that exist.

Main results:

- Theorem `dispatcher_moves`: while the dispatcher handles a completion, a thread moves.
- Theorem `stop_moves`: inside `Stop` a thread or gRPC can move.
-/

namespace DtCore
namespace DAQ
namespace Service
namespace Listener

open Foundation

universe u v w x

variable {T : Type u} {M : Type v} {C : Type w} {R : Type x}

/-! ## The mutex of the map -/

/-- Whether an `AddSession` is inside its critical section. -/
def AddPc.locks : AddPc M → Bool
  | .insert _ | .unlock _ => true
  | _ => false

/-- Whether the dispatcher is inside its critical section. -/
def EventPc.locks : EventPc → Bool
  | .erase _ | .unlock => true
  | _ => false

/-- Whether `Stop` is inside its critical section. -/
def StopPc.locks : StopPc → Bool
  | .visit _ => true
  | _ => false

/-- Who is inside a critical section. -/
def Inside (s : State T M C R) : Owner T → Prop
  | .starter c => (s.starters c).locks = true
  | .dispatcher => s.dispatcher.locks = true
  | .stopper => s.stopper.locks = true

/-- A call arrives. -/
def Label.isArrival : Label T M C → Bool
  | .arrives _ _ => true
  | _ => false

/-- The thread that a step is one of; gRPC moves no thread but the dispatcher. -/
def Label.mover : Label T M C → Owner T
  | .enterAdd t _ => .starter (.user t)
  | .add c => .starter c
  | .arrives _ _ | .completes _ _ | .next _ | .event | .exit => .dispatcher
  | .enterStop | .stop | .ignore _ => .stopper

variable [DecidableEq T] [DecidableEq M] [DecidableEq C] {api : Api M C R}
  {s s' : State T M C R}

omit [DecidableEq M] [DecidableEq C] in
theorem inside_setStarter {u : State T M C R} {c : Starter T} {pc : AddPc M} {o : Owner T}
    (hstarters : u.starters = Function.update s.starters c pc)
    (hdispatcher : u.dispatcher = s.dispatcher) (hstopper : u.stopper = s.stopper)
    (ho : o ≠ .starter c) : Inside u o ↔ Inside s o := by
  cases o with
  | starter c' =>
      have hne : c' ≠ c := fun heq => ho (by rw [heq])
      simp only [Inside, hstarters, Function.update_of_ne hne]
  | dispatcher => simp only [Inside, hdispatcher]
  | stopper => simp only [Inside, hstopper]

/-- A step leaves the other threads inside or outside. -/
theorem inside_other {l : Label T M C} (hnested : s.Nested)
    (hs : Listener.step api s l = some s') {o : Owner T} (ho : o ≠ l.mover) :
    Inside s' o ↔ Inside s o := by
  cases step_moves hs with
  | enterAdd t m hpc => exact inside_setStarter rfl rfl rfl ho
  | construct c m hpc => exact inside_setStarter rfl rfl rfl ho
  | request c id t hpc ht =>
      rw [State.start]
      split <;> exact inside_setStarter rfl rfl rfl ho
  | lock c id hpc => exact inside_setStarter rfl rfl rfl ho
  | insert c id hpc => exact inside_setStarter rfl rfl rfl ho
  | unlock c id hpc => exact inside_setStarter rfl rfl rfl ho
  | accept id ok t hpc =>
      cases o with
      | starter c =>
          have hidle : s.starters .handler = .idle := hnested.resolve_left (by simp [hpc])
          by_cases heq : c = .handler
          · subst heq
            simp [Inside, State.setStarter, hidle, AddPc.locks]
          · simp [Inside, State.setStarter, heq]
      | dispatcher => exact absurd rfl ho
      | stopper => exact Iff.rfl
  | cancel id ok t hpc | finish id t hpc =>
      rw [State.finishCall, State.start]
      cases o <;> split <;> first | exact Iff.rfl | exact absurd rfl ho
  | _ => cases o <;> first | exact Iff.rfl | exact absurd rfl ho

/-- How a step treats the mutex. -/
theorem mutex_step {l : Label T M C} (hs : Listener.step api s l = some s') :
    ExactStep Inside State.sessionListMtx s s' l.mover := by
  cases step_moves hs with
  | enterAdd t m hpc | construct c m hpc =>
      exact ExactStep.stay rfl (by simp [Inside, Label.mover, State.setStarter, hpc, AddPc.locks])
  | request c id t hpc ht =>
      rw [State.start]
      split <;> exact ExactStep.stay rfl
        (by simp [Inside, Label.mover, State.setStarter, hpc, AddPc.locks])
  | lock c id hpc hfree =>
      exact ExactStep.lock hfree rfl (by simp [Inside, Label.mover, State.setStarter, AddPc.locks])
  | insert c id hpc =>
      exact ExactStep.stay rfl (by simp [Inside, Label.mover, State.setStarter, hpc, AddPc.locks])
  | unlock c id hpc =>
      exact ExactStep.unlock (by simp [Inside, Label.mover, hpc, AddPc.locks]) rfl
        (by simp [Inside, Label.mover, State.setStarter, AddPc.locks])
  | cancel id ok t hpc | finish id t hpc =>
      rw [State.finishCall, State.start]
      split <;> exact ExactStep.stay rfl (by simp [Inside, Label.mover, hpc, EventPc.locks])
  | arrives | completes | ignore => exact ExactStep.stay rfl Iff.rfl
  | next id ok t hpc | handled id ok t hpc | done id ok t hpc | accept id ok t hpc
  | added id hpc | respond id t hpc | shutdown id t hpc | erase id hpc | exit hpc =>
      exact ExactStep.stay rfl (by simp [Inside, Label.mover, hpc, EventPc.locks])
  | lockErase id hpc hfree =>
      exact ExactStep.lock hfree rfl (by simp [Inside, Label.mover, EventPc.locks])
  | unlockErase hpc =>
      exact ExactStep.unlock (by simp [Inside, Label.mover, hpc, EventPc.locks]) rfl
        (by simp [Inside, Label.mover, EventPc.locks])
  | stopLock hpc hfree =>
      exact ExactStep.lock hfree rfl (by simp [Inside, Label.mover, StopPc.locks])
  | visited hpc =>
      exact ExactStep.unlock (by simp [Inside, Label.mover, hpc, StopPc.locks]) rfl
        (by simp [Inside, Label.mover, StopPc.locks])
  | enterStop hpc | visit id rest t hpc | running hpc | server hpc | wait hpc | queue hpc
  | join hpc | drain hpc =>
      exact ExactStep.stay rfl (by simp [Inside, Label.mover, hpc, StopPc.locks])

/-! ## What is under way -/

/-- A call that is to be answered is with gRPC or with the dispatcher. -/
def State.Served (s : State T M C R) : Prop :=
  ∀ id t, s.session id = some t → t.callState = .waitConnect → t.request.isSome = true →
    t.rpc ≠ .idle ∨ s.dispatcher.handles = some id

/-- Whoever is inside owns the mutex; `Stop` visits sessions that exist; a call that is to
be answered is with gRPC or with the dispatcher; the queue is shut down before the
dispatcher is joined. -/
structure Underway (s : State T M C R) : Prop where
  mutex : Exact Inside State.sessionListMtx s
  visits : ∀ rest, s.stopper = .visit rest → ∀ id ∈ rest, (s.session id).isSome = true
  served : s.Served
  queue : s.stopper = .join → s.cqShutdown = true

omit [DecidableEq T] [DecidableEq M] [DecidableEq C] in
theorem underway_initial : Underway (State.initial : State T M C R) := by
  constructor
  case mutex =>
    intro o
    cases o <;> simp [Inside, State.initial, AddPc.locks, EventPc.locks, StopPc.locks]
  case served => simp [State.Served, State.initial]
  all_goals simp [State.initial]

/-- Sessions do not vanish. -/
theorem session_stays {l : Label T M C} (hs : Listener.step api s l = some s') {id : Nat}
    (hid : (s.session id).isSome = true) : (s'.session id).isSome = true := by
  have hupdate : ∀ (id' : Nat) (t : Session M C),
      (Function.update s.session id' (some t) id).isSome = true := by
    intro id' t
    by_cases heq : id = id'
    · subst heq
      simp
    · rwa [Function.update_of_ne heq]
  cases step_moves hs with
  | construct | arrives | completes | next | respond | shutdown | visit | ignore =>
      exact hupdate _ _
  | request c id' t hpc ht =>
      rw [State.start]
      split <;> exact hupdate _ _
  | cancel id' ok t hpc ht | finish id' t hpc ht =>
      rw [State.finishCall, State.start]
      split <;> exact hupdate _ _
  | enterAdd | lock | insert | unlock | handled | done | accept | added | lockErase | erase
  | unlockErase | exit | enterStop | stopLock | visited | running | server | wait | queue | join
  | drain => exact hid

omit [DecidableEq T] [DecidableEq M] [DecidableEq C] in
theorem State.Served.frame {s s' : State T M C R} (h : s.Served)
    (hsession : s'.session = s.session)
    (hhandles : ∀ id t, s.dispatcher.handles = some id → s.session id = some t →
      t.callState = .waitConnect → t.request.isSome = true → s'.dispatcher.handles = some id) :
    s'.Served := by
  intro id t ht hstate hrequest
  rw [hsession] at ht
  exact (h id t ht hstate hrequest).imp_right fun hid => hhandles id t hid ht hstate hrequest

omit [DecidableEq T] [DecidableEq M] [DecidableEq C] in
theorem State.Served.setSession {s s' : State T M C R} {id : Nat} {t' : Session M C}
    (h : s.Served) (hsession : s'.session = Function.update s.session id (some t'))
    (hself : t'.callState = .waitConnect → t'.request.isSome = true →
      t'.rpc ≠ .idle ∨ s'.dispatcher.handles = some id)
    (hother : ∀ id', id' ≠ id → s.dispatcher.handles = some id' →
      s'.dispatcher.handles = some id') : s'.Served := by
  intro id' u hu hstate hrequest
  by_cases heq : id' = id
  · subst heq
    rw [hsession, Function.update_self, Option.some.injEq] at hu
    subst hu
    exact hself hstate hrequest
  · rw [hsession, Function.update_of_ne heq] at hu
    exact (h id' u hu hstate hrequest).imp_right (hother id' heq)

theorem State.Served.step {l : Label T M C} (h : s.Served) (horder : InOrder api s)
    (hs : Listener.step api s l = some s') : s'.Served := by
  have hstages := horder.known.stages
  cases step_moves hs with
  | construct c m hpc =>
      exact h.setSession rfl (by simp [Session.constructed]) (fun _ _ hid => hid)
  | request c id t hpc ht =>
      rcases start_session s id t .connecting with ⟨t', hset⟩
      have hrequest : t'.request = none := by
        rw [hset.after]
        split <;> exact (hstages.requested c id t hpc ht).2
      refine h.setSession hset.session (by simp [hrequest]) fun id' _ hid => ?_
      simpa only [State.setStarter, hset.dispatcher] using hid
  | arrives id call t ht hrpc =>
      exact h.setSession rfl (fun _ _ => Or.inl (by simp)) (fun _ _ hid => hid)
  | completes id ok t ht hrpc =>
      exact h.setSession rfl (fun _ _ => Or.inl (by simp)) (fun _ _ hid => hid)
  | next id ok t hpc ht hrpc =>
      exact h.setSession rfl (fun _ _ => Or.inr rfl) (by simp [hpc, EventPc.handles])
  | handled id ok t hpc ht hreact | cancel id ok t hpc ht hreact =>
      rcases (hstages.sound id t ht).reacts ok with ⟨_, _, haccept⟩ | ⟨_, hreturns⟩
      · rw [haccept] at hreact
        contradiction
      · rw [hreturns] at hreact
        contradiction
  | done id ok t hpc | accept id ok t hpc | added id hpc | lockErase id hpc =>
      exact h.frame rfl (fun id' _ hid _ _ _ => by rw [hpc] at hid; exact hid)
  | respond id t hpc ht =>
      exact h.setSession rfl (by simp) (fun id' _ hid => by rw [hpc] at hid; exact hid)
  | finish id t hpc ht =>
      rcases start_session s id t .finishing with ⟨t', hset⟩
      have hexpects := hstages.expects id t (by rw [hpc]; rfl) ht
      rw [hpc] at hexpects
      have hstate : t'.callState = .waitFinish := by
        rw [hset.after]
        split <;> exact hexpects.1
      refine h.setSession hset.session (by simp [hstate]) fun id' hne hid => ?_
      rw [hpc] at hid
      cases hid
      exact absurd rfl hne
  | shutdown id t hpc ht =>
      rw [(hstages.sound id t ht).tryCancel, setSession_self ht]
      exact h.frame rfl (fun id' _ hid _ _ _ => by rw [hpc] at hid; exact hid)
  | erase id hpc =>
      refine h.frame rfl fun id' t hid ht hstate hrequest => ?_
      have hexpects := hstages.expects id' t hid ht
      rw [hpc] at hexpects
      rcases hexpects with hfinish | ⟨_, hnone⟩
      · simp [hstate] at hfinish
      · simp [hnone] at hrequest
  | unlockErase hpc | exit hpc => exact h.frame rfl (by simp [hpc, EventPc.handles])
  | visit id rest t hpc ht =>
      rw [(hstages.sound id t ht).tryCancel, setSession_self ht]
      exact h.frame rfl (fun _ _ hid _ _ _ => hid)
  | ignore id ok t hpc ht hrpc =>
      have hstop := horder.stopping
      have hdrained := (hstop.exited (hstop.joined (hstop.drain hpc))).2
      have hidle := hdrained id ((horder.known.tags.made id).mp (by rw [ht]; rfl)).2 t ht
      simp [hidle] at hrpc
  | enterAdd | lock | insert | unlock | enterStop | stopLock | visited | running | server | wait
  | queue | join | drain => exact h.frame rfl (fun _ _ hid _ _ _ => hid)

theorem Underway.step {l : Label T M C} (h : Underway s) (horder : InOrder api s)
    (hs : Listener.step api s l = some s') : Underway s' := by
  constructor
  case mutex =>
    exact h.mutex.step (fun o ho => inside_other horder.known.nested hs ho) (mutex_step hs)
  case served => exact State.Served.step h.served horder hs
  case visits =>
    intro rest hrest id hid
    apply session_stays hs
    cases step_moves hs with
    | stopLock hpc hfree =>
        cases hrest
        exact (horder.known.tags.made id).mpr (horder.known.tags.listed id hid)
    | visit id' rest' t hpc ht =>
        cases hrest
        exact h.visits _ hpc id (List.mem_cons_of_mem _ hid)
    | request c id' t hpc ht =>
        rw [State.start] at hrest
        split at hrest <;> exact h.visits rest hrest id hid
    | cancel id' ok t hpc ht | finish id' t hpc ht =>
        rw [State.finishCall, State.start] at hrest
        split at hrest <;> exact h.visits rest hrest id hid
    | enterStop | visited | running | server | wait | queue | join | drain => contradiction
    | enterAdd | construct | lock | insert | unlock | arrives | completes | next | handled | done
    | accept | added | respond | shutdown | lockErase | erase | unlockErase | exit | ignore =>
        exact h.visits rest hrest id hid
  case queue =>
    intro hjoin
    cases step_moves hs with
    | request c id t hpc ht =>
        rw [State.start] at hjoin ⊢
        split <;> rename_i hcq
        · exact hcq
        · rw [if_neg hcq] at hjoin
          exact h.queue hjoin
    | cancel id ok t hpc ht | finish id t hpc ht =>
        rw [State.finishCall, State.start] at hjoin ⊢
        split <;> rename_i hcq
        · exact hcq
        · rw [if_neg hcq] at hjoin
          exact h.queue hjoin
    | queue => rfl
    | enterStop | stopLock | visit | visited | running | server | wait | join | drain =>
        contradiction
    | enterAdd | construct | lock | insert | unlock | arrives | completes | next | handled | done
    | accept | added | respond | shutdown | lockErase | erase | unlockErase | exit | ignore =>
        exact h.queue hjoin

theorem underway_reachable (hr : Reach (Listener.step api) Orderly State.initial s) :
    Underway s := by
  apply hr.invariant_with (fun t ht => inOrder_reachable ht) underway_initial
  intro t l t' horder _ ht _ hs
  exact ht.step horder hs

/-! ## Somebody can move -/

/-- A thread or gRPC can move, without the arrival of a call. -/
def State.Moves (api : Api M C R) (s : State T M C R) : Prop :=
  ∃ l : Label T M C, l.isArrival = false ∧ (Listener.step api s l).isSome = true

/-- `Stop` goes through the map without waiting for a session. -/
theorem visit_moves (horder : InOrder api s) (h : Underway s) {rest : List Nat}
    (hpc : s.stopper = .visit rest) : s.Moves api := by
  refine ⟨.stop, rfl, ?_⟩
  cases rest with
  | nil => simp [Listener.step, State.stopStep, hpc]
  | cons id rest =>
      rcases Option.isSome_iff_exists.mp (h.visits _ hpc id List.mem_cons_self) with ⟨t, ht⟩
      have hcancels : ¬ t.callState.cancels := by
        rcases (horder.known.stages.sound id t ht).served with hserved | hserved <;>
          simp [CallState.cancels, hserved]
      simp [Listener.step, State.stopStep, hpc, State.visit, ht, hcancels]

omit [DecidableEq T] [DecidableEq M] [DecidableEq C] in
/-- The session of an `AddSession` or of the dispatcher exists. -/
theorem exists_session (horder : InOrder api s) {id : Nat}
    (hid : (∃ c, (s.starters c).holds = some id) ∨ s.dispatcher.handles = some id) :
    ∃ t, s.session id = some t := by
  rcases hid with ⟨c, hc⟩ | hhandles
  · exact Option.isSome_iff_exists.mp
      ((horder.known.tags.made id).mpr (horder.known.tags.held c id hc))
  · rcases horder.known.tags.handled id hhandles with ⟨_, t, ht, _⟩
    exact ⟨t, ht⟩

/-- Whoever is inside the critical section can move. -/
theorem inside_moves (horder : InOrder api s) (h : Underway s) {o : Owner T} (ho : Inside s o) :
    s.Moves api := by
  cases o with
  | starter c =>
      refine ⟨.add c, rfl, ?_⟩
      have hlocks : (s.starters c).locks = true := ho
      cases hpc : s.starters c <;> rw [hpc] at hlocks <;>
        simp [AddPc.locks] at hlocks <;> simp [Listener.step, State.addStep, hpc]
  | dispatcher =>
      refine ⟨.event, rfl, ?_⟩
      have hlocks : s.dispatcher.locks = true := ho
      cases hpc : s.dispatcher <;> rw [hpc] at hlocks <;>
        simp [EventPc.locks] at hlocks <;> simp [Listener.step, State.eventStep, hpc]
  | stopper =>
      have hlocks : s.stopper.locks = true := ho
      cases hpc : s.stopper <;> rw [hpc] at hlocks <;> simp [StopPc.locks] at hlocks
      exact visit_moves horder h hpc

/-- An `AddSession` can move, or the holder of the mutex can. -/
theorem add_moves (horder : InOrder api s) (h : Underway s) {c : Starter T}
    (hc : s.starters c ≠ .idle) : s.Moves api := by
  cases hpc : s.starters c with
  | idle => exact absurd hpc hc
  | construct m => exact ⟨.add c, rfl, by simp [Listener.step, State.addStep, hpc]⟩
  | request id =>
      rcases exists_session horder (Or.inl ⟨c, by rw [hpc]; rfl⟩) with ⟨t, ht⟩
      exact ⟨.add c, rfl, by simp [Listener.step, State.addStep, hpc, ht]⟩
  | lock id =>
      cases hmtx : s.sessionListMtx with
      | none => exact ⟨.add c, rfl, by simp [Listener.step, State.addStep, hpc, hmtx]⟩
      | some o => exact inside_moves horder h ((h.mutex o).mpr hmtx)
  | insert id => exact ⟨.add c, rfl, by simp [Listener.step, State.addStep, hpc]⟩
  | unlock id => exact ⟨.add c, rfl, by simp [Listener.step, State.addStep, hpc]⟩

/-- While the dispatcher handles a completion somebody can move. -/
theorem dispatcher_moves (horder : InOrder api s) (h : Underway s)
    (hnext : s.dispatcher ≠ .next) (hexited : s.dispatcher ≠ .exited) : s.Moves api := by
  cases hpc : s.dispatcher with
  | next => exact absurd hpc hnext
  | exited => exact absurd hpc hexited
  | handle id ok =>
      rcases exists_session horder (Or.inr (by rw [hpc]; rfl)) with ⟨t, ht⟩
      refine ⟨.event, rfl, ?_⟩
      simp only [Listener.step, State.eventStep, hpc, ht]
      split <;> rfl
  | adding id =>
      by_cases hidle : s.starters .handler = .idle
      · exact ⟨.event, rfl, by simp [Listener.step, State.eventStep, hpc, hidle]⟩
      · exact add_moves horder h hidle
  | respond id | finish id | shutdown id =>
      rcases exists_session horder (Or.inr (by rw [hpc]; rfl)) with ⟨t, ht⟩
      exact ⟨.event, rfl, by simp [Listener.step, State.eventStep, hpc, ht]⟩
  | lock id =>
      cases hmtx : s.sessionListMtx with
      | none => exact ⟨.event, rfl, by simp [Listener.step, State.eventStep, hpc, hmtx]⟩
      | some o => exact inside_moves horder h ((h.mutex o).mpr hmtx)
  | erase id | unlock => exact ⟨.event, rfl, by simp [Listener.step, State.eventStep, hpc]⟩

/-- After the shutdown of the server gRPC or the dispatcher can move as long as gRPC holds
an operation of a session. -/
theorem busy_moves (horder : InOrder api s) (h : Underway s) (hserver : s.serverShutdown = true)
    {id : Nat} {t : Session M C} (ht : s.session id = some t) (hbusy : t.rpc ≠ .idle) :
    s.Moves api := by
  cases hrpc : t.rpc with
  | idle => exact absurd hrpc hbusy
  | connecting =>
      exact ⟨.completes id false, rfl, by
        simp [Listener.step, State.completes, ht, hrpc, hserver]⟩
  | finishing =>
      exact ⟨.completes id true, rfl, by simp [Listener.step, State.completes, ht, hrpc]⟩
  | ready ok =>
      by_cases hnext : s.dispatcher = .next
      · exact ⟨.next id, rfl, by simp [Listener.step, State.next, hnext, ht, hrpc]⟩
      · refine dispatcher_moves horder h hnext fun hexited => ?_
        have hdrained := (horder.stopping.exited hexited).2
        exact hbusy (hdrained id ((horder.known.tags.made id).mp (by rw [ht]; rfl)).2 t ht)

/-- Inside `Stop` somebody can move. -/
theorem stop_moves (horder : InOrder api s) (h : Underway s) (hstop : s.stopper ≠ .idle) :
    s.Moves api := by
  have hstopping := horder.stopping
  cases hpc : s.stopper with
  | idle => exact absurd hpc hstop
  | lock =>
      cases hmtx : s.sessionListMtx with
      | none => exact ⟨.stop, rfl, by simp [Listener.step, State.stopStep, hpc, hmtx]⟩
      | some o => exact inside_moves horder h ((h.mutex o).mpr hmtx)
  | visit rest => exact visit_moves horder h hpc
  | running | server | queue =>
      exact ⟨.stop, rfl, by simp [Listener.step, State.stopStep, hpc]⟩
  | wait =>
      by_cases hsettled : s.Settled
      · exact ⟨.stop, rfl, by simp [Listener.step, State.stopStep, hpc, hsettled]⟩
      · -- a call is served, by the dispatcher or by a session whose completion it can take
        unfold State.Settled at hsettled
        push Not at hsettled
        rcases hsettled with ⟨call, haccepted, hunanswered⟩
        rcases (horder.calls.pending call haccepted).resolve_left hunanswered with ⟨id, hid⟩
        have hserver := horder.flags.stopper (Or.inl hpc)
        by_cases hnext : s.dispatcher = .next
        · unfold State.serving at hid
          rw [Option.bind_eq_some_iff] at hid
          rcases hid with ⟨t, ht, hserves⟩
          simp only [Session.serving, hnext, EventPc.finishes, Bool.false_eq_true, or_false] at hserves
          split at hserves <;> try contradiction
          rename_i hstate
          have hbusy := h.served id t ht hstate (by simp [hserves])
          simp only [hnext, EventPc.handles, reduceCtorEq, or_false] at hbusy
          exact busy_moves horder h hserver ht hbusy
        · refine dispatcher_moves horder h hnext fun hexited => ?_
          have hcq := (hstopping.exited hexited).1
          exact hunanswered (hstopping.settled (by simp [hcq]) call haccepted)
  | join =>
      by_cases hexited : s.dispatcher = .exited
      · exact ⟨.stop, rfl, by simp [Listener.step, State.stopStep, hpc, hexited]⟩
      · have hcq := h.queue hpc
        by_cases hnext : s.dispatcher = .next
        · by_cases hdrained : s.Drained
          · exact ⟨.exit, rfl, by simp [Listener.step, State.exit, hnext, hcq, hdrained]⟩
          · unfold State.Drained at hdrained
            push Not at hdrained
            rcases hdrained with ⟨id, _, t, ht, hbusy⟩
            exact busy_moves horder h (horder.flags.queue hcq) ht hbusy
        · exact dispatcher_moves horder h hnext hexited
  | drain =>
      have hdrained := (hstopping.exited (hstopping.joined (hstopping.drain hpc))).2
      exact ⟨.stop, rfl, by simp [Listener.step, State.stopStep, hpc, hdrained]⟩

end Listener
end Service
end DAQ
end DtCore
