import DtCore.DAQ.Service.Listener.Progress

/-!
# How `Stop` returns

Inside `Stop` every step of a thread or of gRPC other than the arrival of a call uses up
one of finitely many moves, and some step is possible until `Stop` has returned.  When
the server is shut down no call arrives.

Main definitions:

- `State.rank`: the moves that are left inside `Stop`.
- `StopEnds`: `Stop` is on its way to return.

Main results:

- Theorem `listener_stops`: how `Stop` returns.
-/

namespace DtCore
namespace DAQ
namespace Service
namespace Listener

open Foundation

universe u v w x

variable {T : Type u} {M : Type v} {C : Type w} {R : Type x}

/-! ## How many moves are left -/

/-- The moves of the dispatcher that a completion leads to: a call is answered and its
session is replaced, any other session is erased. -/
def Session.handling (t : Session M C) (ok : Bool) : Nat :=
  if t.callState = .waitConnect ∧ ok = true then 25 else 6

/-- The moves that the operation of a session leads to. -/
def Session.weight (t : Session M C) : Nat :=
  match t.rpc with
  | .idle => 0
  | .connecting | .finishing => 7
  | .ready ok => t.handling ok

/-- The moves that the operations of the sessions lead to. -/
def State.weights (s : State T M C R) (id : Nat) : Nat :=
  (s.session id).elim 0 Session.weight

/-- The moves that the dispatcher still has. -/
def State.eventRank (s : State T M C R) : Nat :=
  match s.dispatcher with
  | .exited => 0
  | .next => 1
  | .unlock => 2
  | .erase _ => 3
  | .lock _ => 4
  | .shutdown _ => 5
  | .handle id ok => (s.session id).elim 0 (fun t => t.handling ok)
  | .finish _ => 9
  | .respond _ => 10
  | .adding _ => 11

/-- The moves that the `AddSession` of a handler still has. -/
def AddPc.rank : AddPc M → Nat
  | .idle => 0
  | .unlock _ => 1
  | .insert _ => 3
  | .lock _ => 4
  | .request _ => 12
  | .construct _ => 13

/-- The moves that `Stop` still has, given the number of sessions in the map. -/
def StopPc.rank (sessions : Nat) : StopPc → Nat
  | .idle => 0
  | .drain => 1
  | .join => 2
  | .queue => 3
  | .wait => 4
  | .server => 5
  | .running => 6
  | .visit rest => rest.length + 7
  | .lock => sessions + 8

/-- The moves that are left inside `Stop`. -/
def State.rank (s : State T M C R) : Nat :=
  load s.weights (s.allocated + 1) + s.eventRank + (s.starters .handler).rank +
    s.stopper.rank s.sessions.length

theorem StopPc.rank_mono {m n : Nat} (h : m ≤ n) (pc : StopPc) : pc.rank m ≤ pc.rank n := by
  cases pc <;> simp [StopPc.rank, h]

theorem StopPc.rank_succ (n : Nat) (pc : StopPc) : pc.rank (n + 1) ≤ pc.rank n + 1 := by
  cases pc <;> simp [StopPc.rank]

theorem weights_setSession {s s' : State T M C R} {id : Nat} {t' : Session M C}
    (hsession : s'.session = Function.update s.session id (some t')) :
    s'.weights = Function.update s.weights id t'.weight := by
  funext id'
  by_cases heq : id' = id
  · subst heq
    simp [State.weights, hsession]
  · simp [State.weights, hsession, heq]

/-- One session changes. -/
theorem load_setSession {s u : State T M C R} {id : Nat} {t t' : Session M C} (htags : Tags s)
    (ht : s.session id = some t)
    (hsession : u.session = Function.update s.session id (some t')) :
    load u.weights (s.allocated + 1) + t.weight =
      load s.weights (s.allocated + 1) + t'.weight := by
  have hle := (htags.made id).mp (by rw [ht]; rfl)
  have hweight : s.weights id = t.weight := by simp [State.weights, ht]
  rw [weights_setSession hsession, ← hweight]
  exact load_update s.weights (by omega) t'.weight

/-- The session that changes is not the one that the dispatcher handles. -/
theorem eventRank_setSession {s s' : State T M C R} {id : Nat} {t' : Session M C}
    (hsession : s'.session = Function.update s.session id (some t'))
    (hdispatcher : s'.dispatcher = s.dispatcher) (hunhandled : s.dispatcher.handles ≠ some id) :
    s'.eventRank = s.eventRank := by
  unfold State.eventRank
  rw [hdispatcher]
  cases hpc : s.dispatcher <;> try rfl
  rename_i id' ok
  have hne : id' ≠ id := by
    rintro rfl
    exact hunhandled (by rw [hpc]; rfl)
  simp only [hsession, Function.update_of_ne hne]

/-- A user thread begins to add a session. -/
def Label.isEnterAdd : Label T M C → Bool
  | .enterAdd _ _ => true
  | _ => false

/-- The rank from its parts. -/
theorem rank_parts {s s' : State T M C R} {a b : Nat}
    (hload : load s'.weights (s'.allocated + 1) + a = load s.weights (s.allocated + 1) + b)
    (hcost : s'.eventRank + (s'.starters .handler).rank + s'.stopper.rank s'.sessions.length +
      b + 1 ≤ s.eventRank + (s.starters .handler).rank + s.stopper.rank s.sessions.length + a) :
    s'.rank + 1 ≤ s.rank := by
  unfold State.rank
  omega

/-- The rank when the sessions stay as they are. -/
theorem rank_same {s s' : State T M C R} (hsession : s'.session = s.session)
    (hallocated : s'.allocated = s.allocated)
    (hcost : s'.eventRank + (s'.starters .handler).rank + s'.stopper.rank s'.sessions.length +
      1 ≤ s.eventRank + (s.starters .handler).rank + s.stopper.rank s.sessions.length) :
    s'.rank + 1 ≤ s.rank := by
  have hweights : s'.weights = s.weights := by
    funext id
    simp only [State.weights, hsession]
  refine rank_parts (a := 0) (b := 0) ?_ hcost
  rw [hweights, hallocated]

/-! ## Every step uses up a move -/

variable [DecidableEq T] [DecidableEq M] [DecidableEq C] {api : Api M C R}
  {s s' : State T M C R}

omit [DecidableEq M] [DecidableEq C] in
theorem rank_construct {m : M} (htags : Tags s) (hnested : s.Nested)
    (hpc : s.starters .handler = .construct m) (hfresh : s.allocated + 1 < 2 ^ 64) :
    State.rank { (s.setSession ((s.allocated + 1) % 2 ^ 64) (.constructed m)).setStarter .handler
          (.request ((s.allocated + 1) % 2 ^ 64)) with
        allocated := (s.allocated + 1) % 2 ^ 64 } + 1 ≤ s.rank := by
  rw [Nat.mod_eq_of_lt hfresh]
  have hnone : s.weights (s.allocated + 1) = 0 := by
    cases ht : s.session (s.allocated + 1) with
    | none => simp [State.weights, ht]
    | some t =>
        have hle := (htags.made _).mp (by rw [ht]; rfl)
        omega
  have hweights : State.weights
      { (s.setSession (s.allocated + 1) (.constructed m)).setStarter .handler
          (.request (s.allocated + 1)) with allocated := s.allocated + 1 } = s.weights := by
    rw [weights_setSession rfl, Function.update_eq_self_iff, hnone]
    rfl
  refine rank_parts (a := 0) (b := 0) ?_ ?_
  · rw [hweights]
    simp only
    rw [load_succ, hnone]
  · rcases hnested with ⟨id, hadding⟩ | hidle
    · simp [State.eventRank, State.setStarter, State.setSession, hadding, hpc, AddPc.rank]
    · rw [hidle] at hpc
      contradiction

omit [DecidableEq M] [DecidableEq C] in
theorem rank_request {id : Nat} {t : Session M C} {added : List M} (htags : Tags s)
    (hnested : s.Nested) (hpc : s.starters .handler = .request id)
    (ht : s.session id = some t) :
    State.rank { (s.start id t .connecting).setStarter .handler (.lock id) with
      added := added } + 1 ≤ s.rank := by
  rcases start_session s id t .connecting with ⟨t', hset⟩
  have hidle := (htags.fresh _ id t hpc ht).1
  have hload := load_setSession (u := { (s.start id t .connecting).setStarter .handler
    (.lock id) with added := added }) htags ht hset.session
  have hbefore : t.weight = 0 := by simp [Session.weight, hidle]
  have hafter : t'.weight ≤ 7 := by
    rw [hset.after]
    split <;> simp [Session.weight, hidle]
  refine rank_parts (a := t.weight) (b := t'.weight) ?_ ?_
  · rw [← hload]
    simp only [State.setStarter, hset.allocated]
  · rcases hnested with ⟨id₀, hadding⟩ | hnone
    · have hstopper : (s.start id t .connecting).stopper = s.stopper := by
        unfold State.start
        split <;> rfl
      simp only [State.eventRank, State.setStarter, hset.dispatcher, hset.sessions, hstopper,
        hadding, hpc, AddPc.rank, Function.update_self]
      omega
    · rw [hnone] at hpc
      contradiction

omit [DecidableEq T] [DecidableEq M] [DecidableEq C] in
/-- A session changes that the dispatcher does not handle. -/
theorem rank_busy {s u : State T M C R} {id : Nat} {t t' : Session M C} (htags : Tags s)
    (ht : s.session id = some t) (hbusy : t.rpc ≠ .idle)
    (hsession : u.session = Function.update s.session id (some t'))
    (hallocated : u.allocated = s.allocated) (hsessions : u.sessions = s.sessions)
    (hstarters : u.starters = s.starters) (hdispatcher : u.dispatcher = s.dispatcher)
    (hstopper : u.stopper = s.stopper) : u.rank + t.weight = s.rank + t'.weight := by
  have hload := load_setSession htags ht hsession
  have hevent := eventRank_setSession hsession hdispatcher (htags.busy id t ht hbusy).2
  unfold State.rank
  rw [hallocated, hevent, hstarters, hstopper, hsessions]
  omega

/-- The arrival of a call. -/
theorem rank_arrives {id : Nat} {call : C} (h : InOrder api s)
    (hs : Listener.step api s (.arrives id call) = some s') : s'.rank = s.rank + 18 := by
  cases step_moves hs with
  | arrives id call t ht hrpc =>
      have hstate := ((h.known.stages.sound id t ht).connecting hrpc).1
      have hrank := rank_busy (u := { s.setSession id
          { t with rpc := .ready true, request := some call } with
          accepted := call :: s.accepted }) h.known.tags ht (by simp [hrpc]) rfl rfl rfl rfl rfl rfl
      have hbefore : t.weight = 7 := by simp [Session.weight, hrpc]
      have hafter : Session.weight { t with rpc := .ready true, request := some call } = 25 := by
        simp [Session.weight, Session.handling, hstate]
      omega

/-- Every other step uses up a move. -/
theorem rank_move {l : Label T M C} (h : InOrder api s) (horderly : Orderly s l)
    (hstop : s.stopper ≠ .idle) (hquiet : l.isArrival = false)
    (hs : Listener.step api s l = some s') : s'.rank + 1 ≤ s.rank := by
  have htags := h.known.tags
  have huser : ∀ c, s.starters c ≠ .idle → c = .handler := by
    intro c hc
    cases c with
    | user t => exact absurd (h.stopping.users (Or.inl hstop) t) hc
    | handler => rfl
  cases step_moves hs with
  | enterAdd t m hpc => exact absurd horderly.2.1 hstop
  | enterStop hpc => exact absurd hpc hstop
  | arrives => contradiction
  | construct c m hpc =>
      have hc := huser c (by simp [hpc])
      subst hc
      exact rank_construct htags h.known.nested hpc (horderly.1 ⟨m, hpc⟩)
  | request c id t hpc ht =>
      have hc := huser c (by simp [hpc])
      subst hc
      exact rank_request htags h.known.nested hpc ht
  | lock c id hpc hfree =>
      have hc := huser c (by simp [hpc])
      subst hc
      refine rank_same rfl rfl ?_
      simp only [State.eventRank, State.setStarter, Function.update_self, hpc, AddPc.rank]
      omega
  | insert c id hpc =>
      have hc := huser c (by simp [hpc])
      subst hc
      have hlength : (s.sessions.insert id).length ≤ s.sessions.length + 1 := by
        by_cases hmem : id ∈ s.sessions <;> simp [hmem]
      have hmono := StopPc.rank_mono hlength s.stopper
      have hsucc := StopPc.rank_succ s.sessions.length s.stopper
      refine rank_same rfl rfl ?_
      simp only [State.eventRank, State.setStarter, Function.update_self, hpc, AddPc.rank]
      omega
  | unlock c id hpc =>
      have hc := huser c (by simp [hpc])
      subst hc
      refine rank_same rfl rfl ?_
      simp only [State.eventRank, State.setStarter, Function.update_self, hpc, AddPc.rank]
      omega
  | completes id ok t ht hrpc =>
      have hrank := rank_busy (u := s.setSession id { t with rpc := .ready ok }) htags ht
        (by rcases hrpc with hrpc | hrpc <;> simp [hrpc]) rfl rfl rfl rfl rfl rfl
      have hbefore : t.weight = 7 := by
        rcases hrpc with hrpc | hrpc <;> simp [Session.weight, hrpc]
      have hafter : Session.weight { t with rpc := .ready ok } = 6 := by
        rcases hrpc with hrpc | ⟨_, _, hfailed⟩
        · have hstate := (h.known.stages.sound id t ht).finishing hrpc
          simp [Session.weight, Session.handling, hstate]
        · simp [Session.weight, Session.handling, hfailed]
      omega
  | next id ok t hpc ht hrpc =>
      have hload := load_setSession (u := { s.setSession id { t with rpc := .idle } with
        dispatcher := .handle id ok }) htags ht rfl
      refine rank_parts hload ?_
      have hbefore : t.weight = t.handling ok := by simp [Session.weight, hrpc]
      have hafter : Session.weight { t with rpc := .idle } = 0 := by simp [Session.weight]
      have hevent : State.eventRank { s.setSession id { t with rpc := .idle } with
          dispatcher := .handle id ok } = t.handling ok := by
        simp [State.eventRank, State.setSession, Session.handling]
      rw [hbefore, hafter, hevent]
      simp only [State.eventRank, State.setSession, hpc]
      omega
  | handled id ok t hpc ht hreact =>
      rcases (h.known.stages.sound id t ht).reacts ok with ⟨_, _, haccept⟩ | ⟨_, hreturns⟩
      · rw [haccept] at hreact
        contradiction
      · rw [hreturns] at hreact
        contradiction
  | done id ok t hpc ht hreact =>
      have hhandling : t.handling ok = 6 := by
        rcases (h.known.stages.sound id t ht).reacts ok with ⟨_, _, haccept⟩ | ⟨hdone, _⟩
        · rw [haccept] at hreact
          contradiction
        · rcases hdone with hdone | hdone <;> simp [Session.handling, hdone]
      refine rank_same rfl rfl ?_
      simp only [State.eventRank, hpc, ht, Option.elim_some, hhandling]
      omega
  | accept id ok t hpc ht hreact =>
      have hidle : s.starters .handler = .idle := h.known.nested.resolve_left (by simp [hpc])
      have hhandling : t.handling ok = 25 := by
        rcases (h.known.stages.sound id t ht).reacts ok with ⟨hstate, hok, _⟩ | ⟨_, hreturns⟩
        · simp [Session.handling, hstate, hok]
        · rw [hreturns] at hreact
          contradiction
      refine rank_same rfl rfl ?_
      simp only [State.eventRank, State.setStarter, hpc, ht, Option.elim_some, hhandling, hidle,
        Function.update_self, AddPc.rank]
      omega
  | cancel id ok t hpc ht hreact =>
      rcases (h.known.stages.sound id t ht).reacts ok with ⟨_, _, haccept⟩ | ⟨_, hreturns⟩
      · rw [haccept] at hreact
        contradiction
      · rw [hreturns] at hreact
        contradiction
  | added id hpc hidle =>
      refine rank_same rfl rfl ?_
      simp only [State.eventRank, hpc]
      omega
  | respond id t hpc ht =>
      have hidle := htags.idle (by rw [hpc]; rfl) ht
      have hload := load_setSession (u := { s.setSession id { t with callState := .waitFinish } with
        dispatcher := .finish id }) htags ht rfl
      refine rank_parts hload ?_
      simp only [State.eventRank, State.setSession, hpc, Session.weight, hidle]
      omega
  | finish id t hpc ht =>
      rcases start_session s id t .finishing with ⟨t', hset⟩
      have hidle := htags.idle (by rw [hpc]; rfl) ht
      have hload := load_setSession (u := { s.finishCall id t .ok (api.response t.method) with
        dispatcher := .next }) htags ht hset.session
      have hafter : t'.weight ≤ 7 := by
        rw [hset.after]
        split <;> simp [Session.weight, hidle]
      have hstopper : (s.start id t .finishing).stopper = s.stopper := by
        unfold State.start
        split <;> rfl
      refine rank_parts (a := t.weight) (b := t'.weight) ?_ ?_
      · rw [← hload]
        simp only [State.finishCall, hset.allocated]
      · simp only [State.eventRank, State.finishCall, hset.starters, hset.sessions, hstopper, hpc]
        omega
  | shutdown id t hpc ht =>
      rw [(h.known.stages.sound id t ht).tryCancel, setSession_self ht]
      refine rank_same rfl rfl ?_
      simp only [State.eventRank, hpc]
      omega
  | lockErase id hpc =>
      refine rank_same rfl rfl ?_
      simp only [State.eventRank, hpc]
      omega
  | erase id hpc =>
      have hmono := StopPc.rank_mono (List.length_filter_le (· ≠ id) s.sessions) s.stopper
      refine rank_same rfl rfl ?_
      simp only [State.eventRank, hpc]
      omega
  | unlockErase hpc =>
      refine rank_same rfl rfl ?_
      simp only [State.eventRank, hpc]
      omega
  | exit hpc =>
      refine rank_same rfl rfl ?_
      simp only [State.eventRank, hpc]
      omega
  | visit id rest t hpc ht =>
      rw [(h.known.stages.sound id t ht).tryCancel, setSession_self ht]
      refine rank_same rfl rfl ?_
      simp only [State.eventRank, hpc, StopPc.rank, List.length_cons]
      omega
  | stopLock hpc | visited hpc | running hpc | server hpc | wait hpc | queue hpc | join hpc
  | drain hpc =>
      refine rank_same rfl rfl ?_
      simp only [State.eventRank, hpc, StopPc.rank, List.length_nil]
      omega
  | ignore id ok t hpc ht hrpc =>
      have hdrained := (h.stopping.exited (h.stopping.joined (h.stopping.drain hpc))).2
      have hidle := hdrained id ((htags.made id).mp (by rw [ht]; rfl)).2 t ht
      simp [hidle] at hrpc

/-! ## How `Stop` returns -/

/-- `Stop` runs, and no user thread begins to add a session. -/
def InStop (s : State T M C R) (l : Label T M C) : Prop :=
  s.stopper ≠ .idle ∧ Fresh s l ∧ l.isEnterAdd = false

instance decidableInStop (s : State T M C R) (l : Label T M C) : Decidable (InStop s l) :=
  inferInstanceAs (Decidable (_ ∧ _ ∧ _))

omit [DecidableEq T] [DecidableEq M] [DecidableEq C] in
theorem InStop.orderly {l : Label T M C} (h : InStop s l) (hstopping : Stopping s) :
    Orderly s l := by
  refine ⟨h.2.1, ?_⟩
  cases l with
  | enterAdd t m =>
      have hadd := h.2.2
      contradiction
  | enterStop => exact hstopping.users (Or.inl h.1)
  | _ => trivial

/-- Along a run inside `Stop` the steps use up the rank, and the arrival of a call adds to
it. -/
theorem rank_run {ls : List (Label T M C)} (h : InOrder api s)
    (hrun : run (Listener.step api) InStop s ls = some s') :
    s'.rank + ls.countP (fun l => !l.isArrival) ≤ s.rank + 18 * ls.countP Label.isArrival := by
  induction ls generalizing s with
  | nil =>
      simp only [run, Option.some.injEq] at hrun
      subst hrun
      simp
  | cons l ls ih =>
      simp only [run] at hrun
      split at hrun <;> try contradiction
      rename_i hstop
      split at hrun <;> try contradiction
      rename_i t ht
      have horderly := hstop.orderly h.stopping
      have hrest := ih (h.step horderly ht) hrun
      rw [List.countP_cons, List.countP_cons]
      cases harrival : l.isArrival with
      | false =>
          have hmove := rank_move h horderly hstop.1 harrival ht
          simp
          omega
      | true =>
          cases l <;> simp [Label.isArrival] at harrival
          have hmove := rank_arrives h ht
          simp
          omega

/-- `Stop` returns: a run inside it has few steps apart from the arrivals of calls, no call
arrives once the server is shut down, and somebody can move as long as it has not
returned. -/
structure StopEnds (api : Api M C R) (s : State T M C R) : Prop where
  bounded : ∀ ls s', run (Listener.step api) InStop s ls = some s' →
    s'.rank + ls.countP (fun l => !l.isArrival) ≤ s.rank + 18 * ls.countP Label.isArrival
  closed : s.serverShutdown = true → ∀ id call, Listener.step api s (.arrives id call) = none
  moves : s.stopper ≠ .idle → s.Moves api

theorem listener_stops (hr : Reach (Listener.step api) Orderly State.initial s) :
    StopEnds api s where
  bounded _ _ hrun := rank_run (inOrder_reachable hr) hrun
  closed hserver id call := by
    simp only [Listener.step, State.arrives]
    split
    · rfl
    · rw [if_neg (by simp [hserver])]
  moves := stop_moves (inOrder_reachable hr) (underway_reachable hr)

/-- `Stop` while a call is served: with the server shut down, nothing else arrives and
somebody can move. -/
theorem listener_stops_serving : ∃ s : State Unit Method Call Response,
    Reach (Listener.step dtService) Orderly State.initial s ∧
      s.serving 1 = some (.command, 0) ∧ s.serverShutdown = true ∧
      (∀ id call, Listener.step dtService s (.arrives id call) = none) ∧
      s.Moves dtService := by
  have hrun : (run (Listener.step dtService) Orderly
      (State.initial : State Unit Method Call Response)
      (adds .command ++ [.arrives 1 (.command, 0)] ++ closes 1)).map
        (fun s => (s.serving 1, s.serverShutdown, s.stopper)) =
      some (some (.command, 0), true, .wait) := by decide
  rcases exists_reach_of_run hrun with ⟨s, hs, hobserved⟩
  rw [Prod.mk.injEq, Prod.mk.injEq] at hobserved
  rcases hobserved with ⟨hserves, hserver, hstopper⟩
  have hends := listener_stops hs
  exact ⟨s, hs, hserves, hserver, hends.closed hserver, hends.moves (by simp [hstopper])⟩

end Listener
end Service
end DAQ
end DtCore
