import DtCore.DAQ.Service.Listener.Sessions
import DtCore.Foundation.Tally

/-!
# Listening for calls

While the handler of a session runs, the session that it adds takes over the request
for the next call of the method.  Until the server is shut down, the number of sessions
that listen for a method is the number of times that a user thread added one.

Main definitions:

- `State.listens`: the method that a session listens for.

Main results:

- Theorem `keeps_listening`: how many sessions listen for each method.
-/

namespace DtCore
namespace DAQ
namespace Service
namespace Listener

open Foundation

universe u v w x

variable {T : Type u} {M : Type v} {C : Type w} {R : Type x}

variable [DecidableEq T] [DecidableEq M] [DecidableEq C] {api : Api M C R}
  {s s' : State T M C R}

/-! ## Who listens -/

/-- Whether the `AddSession` of a handler has yet to request the next call. -/
def AddPc.requests : AddPc M → Bool
  | .construct _ | .request _ => true
  | _ => false

/-- The dispatcher has taken the call of a session, and no other session has requested
the next one. -/
def State.replaces (s : State T M C R) (id : Nat) : Bool :=
  match s.dispatcher with
  | .handle id' _ => id' == id
  | .adding id' => id' == id && (s.starters .handler).requests
  | _ => false

/-- A session that has requested a call and was not replaced. -/
def Session.listens (t : Session M C) (replaces : Bool) : Option M :=
  if t.callState = .waitConnect ∧ (t.rpc ≠ .idle ∨ replaces = true) then some t.method else none

/-- The method that the session of a number listens for. -/
def State.listens (s : State T M C R) (id : Nat) : Option M :=
  (s.session id).bind fun t => t.listens (s.replaces id)

/-- What `Stop` has told gRPC. -/
structure Flags (s : State T M C R) : Prop where
  queue : s.cqShutdown = true → s.serverShutdown = true
  stopper : (s.stopper = .wait ∨ s.stopper = .queue ∨ s.stopper = .join ∨ s.stopper = .drain) →
    s.serverShutdown = true

omit [DecidableEq T] [DecidableEq M] [DecidableEq C] in
theorem flags_initial : Flags (State.initial : State T M C R) := by
  constructor <;> simp [State.initial]

omit [DecidableEq T] [DecidableEq M] [DecidableEq C] in
theorem Flags.frame {s s' : State T M C R} (h : Flags s) (hqueue : s'.cqShutdown = s.cqShutdown)
    (hserver : s'.serverShutdown = s.serverShutdown) (hstopper : s'.stopper = s.stopper) :
    Flags s' := by
  constructor
  · rw [hqueue, hserver]
    exact h.queue
  · rw [hstopper, hserver]
    exact h.stopper

theorem Flags.step {l : Label T M C} (h : Flags s) (hs : Listener.step api s l = some s') :
    Flags s' := by
  have hserver := h.stopper
  cases step_moves hs with
  | request c id t hpc ht =>
      unfold State.start
      split <;> exact h.frame rfl rfl rfl
  | cancel id ok t hpc ht | finish id t hpc ht =>
      unfold State.finishCall State.start
      split <;> exact h.frame rfl rfl rfl
  | enterStop | stopLock | visit | visited | running => exact ⟨h.queue, by simp⟩
  | server hpc => exact ⟨fun _ => rfl, fun _ => rfl⟩
  | wait hpc => exact ⟨h.queue, fun _ => hserver (by simp [hpc])⟩
  | queue hpc => exact ⟨fun _ => hserver (by simp [hpc]), fun _ => hserver (by simp [hpc])⟩
  | join hpc => exact ⟨h.queue, fun _ => hserver (by simp [hpc])⟩
  | drain hpc => exact ⟨h.queue, by simp⟩
  | enterAdd | construct | lock | insert | unlock | arrives | completes | next | handled | done
  | accept | added | respond | shutdown | lockErase | erase | unlockErase | exit | ignore =>
      exact h.frame rfl rfl rfl

/-- No request has failed. -/
def State.Unrefused (s : State T M C R) : Prop :=
  ∀ id t, s.session id = some t → t.callState = .waitConnect →
    t.rpc ≠ .ready false ∧ s.dispatcher ≠ .handle id false

omit [DecidableEq T] [DecidableEq M] [DecidableEq C] in
theorem State.Unrefused.frame {s s' : State T M C R} (h : s.Unrefused)
    (hsession : s'.session = s.session)
    (hdispatcher : ∀ id, s'.dispatcher = .handle id false → s.dispatcher = .handle id false) :
    s'.Unrefused := by
  intro id t ht hstate
  rw [hsession] at ht
  exact ⟨(h id t ht hstate).1, fun hpc => (h id t ht hstate).2 (hdispatcher id hpc)⟩

omit [DecidableEq T] [DecidableEq M] [DecidableEq C] in
theorem State.Unrefused.setSession {s s' : State T M C R} {id : Nat} {t' : Session M C}
    (h : s.Unrefused) (hsession : s'.session = Function.update s.session id (some t'))
    (hself : t'.callState = .waitConnect →
      t'.rpc ≠ .ready false ∧ s'.dispatcher ≠ .handle id false)
    (hother : ∀ id', id' ≠ id → s'.dispatcher = .handle id' false →
      s.dispatcher = .handle id' false) : s'.Unrefused := by
  intro id' u hu hstate
  by_cases heq : id' = id
  · subst heq
    rw [hsession, Function.update_self, Option.some.injEq] at hu
    subst hu
    exact hself hstate
  · rw [hsession, Function.update_of_ne heq] at hu
    exact ⟨(h id' u hu hstate).1, fun hpc => (h id' u hu hstate).2 (hother id' heq hpc)⟩

theorem State.Unrefused.step {l : Label T M C} (h : s.Unrefused) (hknown : Known api s)
    (hflags : Flags s) (hopen : s.serverShutdown = false) (hfresh : Fresh s l)
    (hs : Listener.step api s l = some s') : s'.Unrefused := by
  have hunhandled : ∀ id, s.dispatcher.handles ≠ some id → s.dispatcher ≠ .handle id false := by
    intro id hne hpc
    rw [hpc] at hne
    exact hne rfl
  cases step_moves hs with
  | construct c m hpc =>
      rw [Nat.mod_eq_of_lt (hfresh ⟨m, hpc⟩)]
      refine h.setSession rfl (fun _ => ⟨by simp [Session.constructed], ?_⟩) (fun _ _ hd => hd)
      apply hunhandled
      intro hhandles
      rcases hknown.tags.handled _ hhandles with ⟨_, u, hu, _⟩
      have hle := (hknown.tags.made _).mp (by rw [hu]; rfl)
      omega
  | request c id t hpc ht =>
      rcases start_session s id t .connecting with ⟨t', hset⟩
      have hfree := hknown.tags.fresh c id t hpc ht
      refine h.setSession hset.session (fun _ => ⟨?_, ?_⟩) ?_
      · rw [hset.after]
        split <;> simp [hfree.1]
      · simp only [State.setStarter, hset.dispatcher]
        exact hunhandled id hfree.2
      · intro id' _ hd
        simpa only [State.setStarter, hset.dispatcher] using hd
  | arrives id call t ht hrpc =>
      have hbusy := hknown.tags.busy id t ht (by simp [hrpc])
      exact h.setSession rfl (fun _ => ⟨by simp, hunhandled id hbusy.2⟩) (fun _ _ hd => hd)
  | completes id ok t ht hrpc =>
      rcases hrpc with hrpc | ⟨_, hserver, _⟩
      · have hstate := (hknown.stages.sound id t ht).finishing hrpc
        exact h.setSession rfl (by simp [hstate]) (fun _ _ hd => hd)
      · simp [hopen] at hserver
  | next id ok t hpc ht hrpc =>
      refine h.setSession rfl (fun hstate => ⟨by simp, ?_⟩) ?_
      · intro hhandle
        cases hhandle
        exact (h id t ht hstate).1 hrpc
      · intro id' hne hhandle
        cases hhandle
        exact absurd rfl hne
  | cancel id ok t hpc ht hreact =>
      rcases (hknown.stages.sound id t ht).reacts ok with ⟨_, _, haccept⟩ | ⟨_, hreturns⟩
      · rw [haccept] at hreact
        contradiction
      · rw [hreturns] at hreact
        contradiction
  | respond id t hpc ht => exact h.setSession rfl (by simp) (by simp)
  | finish id t hpc ht =>
      rcases start_session s id t .finishing with ⟨t', hset⟩
      have hexpects := hknown.stages.expects id t (by rw [hpc]; rfl) ht
      rw [hpc] at hexpects
      have hstate : t'.callState = .waitFinish := by
        rw [hset.after]
        split <;> exact hexpects.1
      exact h.setSession hset.session (by simp [hstate]) (by simp)
  | shutdown id t hpc ht =>
      rw [(hknown.stages.sound id t ht).tryCancel, setSession_self ht]
      exact h.frame rfl (by simp)
  | visit id rest t hpc ht =>
      rw [(hknown.stages.sound id t ht).tryCancel, setSession_self ht]
      exact h.frame rfl (fun _ hd => hd)
  | ignore id ok t hpc ht hrpc =>
      have hserver := hflags.stopper (by simp [hpc])
      simp [hopen] at hserver
  | enterAdd | lock | insert | unlock | enterStop | stopLock | visited | running | server | wait
  | queue | join | drain => exact h.frame rfl (fun _ hd => hd)
  | handled | done | accept | added | lockErase | erase | unlockErase | exit =>
      exact h.frame rfl (by simp)

/-! ## The handler adds a session of its own class -/

/-- The method of a session. -/
def State.method (s : State T M C R) (id : Nat) : Option M :=
  (s.session id).map Session.method

/-- The session that a handler adds is of the class of the session that it replaces. -/
def State.Hands (s : State T M C R) : Prop :=
  ∀ id, s.dispatcher = .adding id →
    (∀ m, s.starters .handler = .construct m → s.method id = some m) ∧
      ∀ id', s.starters .handler = .request id' → s.method id' = s.method id

omit [DecidableEq T] [DecidableEq M] [DecidableEq C] in
theorem method_setSession {s s' : State T M C R} {id : Nat} {t t' : Session M C}
    (ht : s.session id = some t) (hsession : s'.session = Function.update s.session id (some t'))
    (hmethod : t'.method = t.method) (id' : Nat) : s'.method id' = s.method id' := by
  unfold State.method
  rw [hsession]
  by_cases heq : id' = id
  · subst heq
    simp [ht, hmethod]
  · rw [Function.update_of_ne heq]

omit [DecidableEq T] [DecidableEq M] [DecidableEq C] in
theorem State.Hands.frame {s s' : State T M C R} (h : s.Hands)
    (hmethod : ∀ id, s'.method id = s.method id)
    (hdispatcher : ∀ id, s'.dispatcher = .adding id → s.dispatcher = .adding id)
    (hstarters : s'.starters .handler = s.starters .handler ∨
      ((∀ m, s'.starters .handler ≠ .construct m) ∧ ∀ id, s'.starters .handler ≠ .request id)) :
    s'.Hands := by
  intro id hid
  rcases hstarters with hsame | ⟨hconstruct, hrequest⟩
  · simp only [hsame, hmethod]
    exact h id (hdispatcher id hid)
  · exact ⟨fun m hm => absurd hm (hconstruct m), fun id' hid' => absurd hid' (hrequest id')⟩

omit [DecidableEq M] [DecidableEq C] in
/-- The handler of the dispatcher, after one `AddSession` has moved. -/
theorem setStarter_handler (s : State T M C R) (c : Starter T) (pc : AddPc M) :
    (s.setStarter c pc).starters .handler = s.starters .handler ∨
      (c = .handler ∧ (s.setStarter c pc).starters .handler = pc) := by
  by_cases heq : c = .handler
  · subst heq
    exact Or.inr ⟨rfl, by simp [State.setStarter]⟩
  · exact Or.inl (Function.update_of_ne (Ne.symm heq) _ _)

theorem State.Hands.step {l : Label T M C} (h : s.Hands) (hknown : Known api s)
    (hfresh : Fresh s l) (hs : Listener.step api s l = some s') : s'.Hands := by
  have hmove : ∀ (c : Starter T) (pc : AddPc M), (∀ m, pc ≠ .construct m) →
      (∀ id, pc ≠ .request id) →
      (s.setStarter c pc).starters .handler = s.starters .handler ∨
        ((∀ m, (s.setStarter c pc).starters .handler ≠ .construct m) ∧
          ∀ id, (s.setStarter c pc).starters .handler ≠ .request id) := by
    intro c pc hconstruct hrequest
    rcases setStarter_handler s c pc with hsame | ⟨_, hself⟩
    · exact Or.inl hsame
    · rw [hself]
      exact Or.inr ⟨hconstruct, hrequest⟩
  cases step_moves hs with
  | enterAdd t m hpc =>
      exact h.frame (fun _ => rfl) (fun _ hd => hd) (Or.inl (by simp [State.setStarter]))
  | construct c m hpc =>
      rw [Nat.mod_eq_of_lt (hfresh ⟨m, hpc⟩)]
      have hsame : ∀ id, id ≤ s.allocated → State.method
          { (s.setSession (s.allocated + 1) (.constructed m)).setStarter c
              (.request (s.allocated + 1)) with allocated := s.allocated + 1 } id =
            s.method id := by
        intro id hle
        simp only [State.method, State.setStarter, State.setSession,
          Function.update_of_ne (show id ≠ s.allocated + 1 by omega)]
      intro id hid
      have hhandles : s.dispatcher.handles = some id := by
        rw [show s.dispatcher = .adding id from hid]
        rfl
      rcases hknown.tags.handled id hhandles with ⟨_, u, hu, _⟩
      have hle := (hknown.tags.made id).mp (by rw [hu]; rfl)
      rw [hsame id hle.2]
      by_cases heq : c = .handler
      · subst heq
        have hself : Function.update s.starters .handler (.request (s.allocated + 1)) .handler =
            .request (s.allocated + 1) := by simp
        simp only [State.setStarter, State.setSession, hself]
        refine ⟨by simp, fun id' hid' => ?_⟩
        rw [AddPc.request.injEq] at hid'
        subst hid'
        rw [((h id hid).1 m hpc)]
        simp [State.method, Session.constructed]
      · have hother : Function.update s.starters c (.request (s.allocated + 1)) .handler =
            s.starters .handler := Function.update_of_ne (Ne.symm heq) _ _
        simp only [State.setStarter, State.setSession, hother]
        refine ⟨(h id hid).1, fun id' hid' => ?_⟩
        have hheld := hknown.tags.held .handler id' (by rw [hid']; rfl)
        rw [← (h id hid).2 id' hid']
        exact hsame id' hheld.2
  | request c id t hpc ht =>
      rcases start_session s id t .connecting with ⟨t', hset⟩
      have hmethod : t'.method = t.method := by
        rw [hset.after]
        split <;> rfl
      refine h.frame (method_setSession ht hset.session hmethod) ?_ ?_
      · intro id' hd
        simpa only [State.setStarter, hset.dispatcher] using hd
      · have hmoved := hmove c (.lock id) (by simp) (by simp)
        simpa only [State.setStarter, hset.starters] using hmoved
  | lock c id hpc | insert c id hpc | unlock c id hpc =>
      exact h.frame (fun _ => rfl) (fun _ hd => hd) (hmove c _ (by simp) (by simp))
  | arrives id call t ht | completes id ok t ht | ignore id ok t hpc ht =>
      exact h.frame (method_setSession ht rfl rfl) (fun _ hd => hd) (Or.inl rfl)
  | next id ok t hpc ht | respond id t hpc ht =>
      exact h.frame (method_setSession ht rfl rfl) (by simp) (Or.inl rfl)
  | accept id ok t hpc ht =>
      intro id' hid'
      cases hid'
      have hself : (s.setStarter .handler (.construct t.method)).starters .handler =
          .construct t.method := by simp [State.setStarter]
      refine ⟨fun m hm => ?_, fun id' hid' => ?_⟩
      · rw [hself, AddPc.construct.injEq] at hm
        simp [State.method, State.setStarter, ht, hm]
      · rw [hself] at hid'
        contradiction
  | cancel id ok t hpc ht =>
      rcases start_session s id { t with callState := .waitFinish } .finishing with ⟨t', hset⟩
      have hmethod : t'.method = t.method := by
        rw [hset.after]
        split <;> rfl
      exact h.frame (method_setSession ht hset.session hmethod) (by simp)
        (Or.inl (congrFun hset.starters _))
  | finish id t hpc ht =>
      rcases start_session s id t .finishing with ⟨t', hset⟩
      have hmethod : t'.method = t.method := by
        rw [hset.after]
        split <;> rfl
      exact h.frame (method_setSession ht hset.session hmethod) (by simp)
        (Or.inl (congrFun hset.starters _))
  | shutdown id t hpc ht =>
      rw [(hknown.stages.sound id t ht).tryCancel, setSession_self ht]
      exact h.frame (fun _ => rfl) (by simp) (Or.inl rfl)
  | visit id rest t hpc ht =>
      rw [(hknown.stages.sound id t ht).tryCancel, setSession_self ht]
      exact h.frame (fun _ => rfl) (fun _ hd => hd) (Or.inl rfl)
  | handled | done | added | lockErase | erase | unlockErase | exit =>
      exact h.frame (fun _ => rfl) (by simp) (Or.inl rfl)
  | enterStop | stopLock | visited | running | server | wait | queue | join | drain =>
      exact h.frame (fun _ => rfl) (fun _ hd => hd) (Or.inl rfl)

/-! ## The sessions that listen -/

omit [DecidableEq T] [DecidableEq M] [DecidableEq C] in
theorem listens_same {s s' : State T M C R} (hsession : s'.session = s.session)
    (hreplaces : ∀ id t, s.session id = some t → t.listens (s'.replaces id) =
      t.listens (s.replaces id)) : s'.listens = s.listens := by
  funext id
  unfold State.listens
  rw [hsession]
  cases ht : s.session id with
  | none => rfl
  | some t => exact hreplaces id t ht

omit [DecidableEq T] [DecidableEq M] [DecidableEq C] in
/-- One session changes, and the others as before. -/
theorem listens_setSession {s s' : State T M C R} {id : Nat} {t' : Session M C}
    (hsession : s'.session = Function.update s.session id (some t'))
    (hother : ∀ id', id' ≠ id → s'.replaces id' = s.replaces id') :
    s'.listens = Function.update s.listens id (t'.listens (s'.replaces id)) := by
  funext id'
  by_cases heq : id' = id
  · subst heq
    simp [State.listens, hsession]
  · simp only [State.listens, hsession, Function.update_of_ne heq, hother id' heq]

omit [DecidableEq T] [DecidableEq M] [DecidableEq C] in
/-- Only sessions that the dispatcher handles are replaced. -/
theorem handles_of_replaces {s : State T M C R} {id : Nat} (h : s.replaces id = true) :
    s.dispatcher.handles = some id := by
  unfold State.replaces at h
  split at h
  · rename_i id' ok hpc
    rw [hpc, beq_iff_eq.mp h]
    rfl
  · rename_i id' hpc
    rw [Bool.and_eq_true, beq_iff_eq] at h
    rw [hpc, h.1]
    rfl
  · contradiction

/-- Until the server is shut down, as many sessions listen for a method as user threads
added for it. -/
def State.Listening (s : State T M C R) : Prop :=
  ∀ m, tally s.listens (s.allocated + 1) m = s.added.count m

omit [DecidableEq T] [DecidableEq C] in
theorem State.Listening.same {s s' : State T M C R} (h : s.Listening)
    (hlistens : s'.listens = s.listens) (hallocated : s'.allocated = s.allocated)
    (hadded : s'.added = s.added) : s'.Listening := by
  intro m
  rw [hlistens, hallocated, hadded]
  exact h m

omit [DecidableEq M] [DecidableEq C] in
theorem replaces_setStarter {u : State T M C R} {c : Starter T} {pc : AddPc M}
    (hdispatcher : u.dispatcher = s.dispatcher)
    (hstarters : u.starters = Function.update s.starters c pc)
    (hrequests : c = .handler → pc.requests = (s.starters .handler).requests) (id : Nat) :
    u.replaces id = s.replaces id := by
  have hhandler : (u.starters .handler).requests = (s.starters .handler).requests := by
    rw [hstarters]
    by_cases heq : c = .handler
    · subst heq
      rw [Function.update_self]
      exact hrequests rfl
    · rw [Function.update_of_ne (Ne.symm heq)]
  unfold State.replaces
  rw [hdispatcher, hhandler]

omit [DecidableEq C] in
theorem State.Listening.construct {c : Starter T} {m : M} (h : s.Listening) (htags : Tags s)
    (hpc : s.starters c = .construct m) (hfresh : s.allocated + 1 < 2 ^ 64) :
    State.Listening
      { (s.setSession ((s.allocated + 1) % 2 ^ 64) (.constructed m)).setStarter c
          (.request ((s.allocated + 1) % 2 ^ 64)) with
        allocated := (s.allocated + 1) % 2 ^ 64 } := by
  rw [Nat.mod_eq_of_lt hfresh]
  have hreplaces := replaces_setStarter (s := s)
    (u := { (s.setSession (s.allocated + 1) (.constructed m)).setStarter c
      (.request (s.allocated + 1)) with allocated := s.allocated + 1 })
    rfl rfl (fun heq => by rw [← heq, hpc]; rfl)
  have hunhandled : s.replaces (s.allocated + 1) = false := by
    by_contra hreplaced
    rw [Bool.not_eq_false] at hreplaced
    rcases htags.handled _ (handles_of_replaces hreplaced) with ⟨_, u, hu, _⟩
    have hle := (htags.made _).mp (by rw [hu]; rfl)
    omega
  have hnone : s.listens (s.allocated + 1) = none := by
    cases ht : s.session (s.allocated + 1) with
    | none => simp [State.listens, ht]
    | some u =>
        have hle := (htags.made _).mp (by rw [ht]; rfl)
        omega
  have hlistens : State.listens
      { (s.setSession (s.allocated + 1) (.constructed m)).setStarter c
          (.request (s.allocated + 1)) with allocated := s.allocated + 1 } = s.listens := by
    rw [listens_setSession rfl (fun id' _ => hreplaces id'), hreplaces, hunhandled]
    have hfresh : (Session.constructed m : Session M C).listens false = none := by
      simp [Session.constructed, Session.listens]
    rw [hfresh, ← hnone, Function.update_eq_self]
  intro m'
  rw [hlistens]
  exact (tally_succ hnone m').trans (h m')

/-- A session has requested its call. -/
structure Requests (s u : State T M C R) (c : Starter T) (id : Nat) (t : Session M C) :
    Prop where
  session : u.session = Function.update s.session id (some { t with rpc := .connecting })
  allocated : u.allocated = s.allocated
  dispatcher : u.dispatcher = s.dispatcher
  starters : u.starters = Function.update s.starters c (.lock id)
  added : u.added = c.adds t.method s.added

omit [DecidableEq M] [DecidableEq C] in
theorem requests_start (hcq : s.cqShutdown = false) (c : Starter T) (id : Nat)
    (t : Session M C) : Requests s { (s.start id t .connecting).setStarter c (.lock id) with
      added := c.adds t.method s.added } c id t := by
  rw [State.start, if_neg (by simp [hcq])]
  exact ⟨rfl, rfl, rfl, rfl, rfl⟩

omit [DecidableEq C] in
/-- A user thread requests a call. -/
theorem State.Listening.request_user {u : State T M C R} {t₀ : T} {id : Nat} {t : Session M C}
    (h : s.Listening) (hknown : Known api s) (hpc : s.starters (.user t₀) = .request id)
    (ht : s.session id = some t) (hu : Requests s u (.user t₀) id t) : u.Listening := by
  have hstate := (hknown.stages.requested _ id t hpc ht).1
  have hfree := hknown.tags.fresh _ id t hpc ht
  have hreplaces := replaces_setStarter hu.dispatcher hu.starters (by simp)
  have hnone : s.listens id = none := by
    have hunhandled : s.replaces id = false := by
      by_contra hreplaced
      rw [Bool.not_eq_false] at hreplaced
      exact hfree.2 (handles_of_replaces hreplaced)
    simp [State.listens, ht, Session.listens, hfree.1, hunhandled]
  have hlistens : u.listens = Function.update s.listens id (some t.method) := by
    rw [listens_setSession hu.session (fun id' _ => hreplaces id')]
    simp [Session.listens, hstate]
  have hle := (hknown.tags.made id).mp (by rw [ht]; rfl)
  intro m
  rw [hlistens, hu.allocated, tally_fill (by omega) hnone, h m, hu.added, Starter.adds,
    List.count_cons]
  simp only [beq_iff_eq]

omit [DecidableEq C] in
/-- A handler requests the next call of its method. -/
theorem State.Listening.request_handler {u : State T M C R} {id : Nat} {t : Session M C}
    (h : s.Listening) (hknown : Known api s) (hhands : s.Hands)
    (hpc : s.starters .handler = .request id) (ht : s.session id = some t)
    (hu : Requests s u .handler id t) : u.Listening := by
  have hstate := (hknown.stages.requested _ id t hpc ht).1
  have hfree := hknown.tags.fresh _ id t hpc ht
  rcases hknown.nested with ⟨id₀, hadding⟩ | hidle
  · have hhandles : s.dispatcher.handles = some id₀ := by rw [hadding]; rfl
    rcases hknown.tags.handled id₀ hhandles with ⟨_, t₀, ht₀, hrpc₀⟩
    have hexpects := hknown.stages.expects id₀ t₀ hhandles ht₀
    rw [hadding] at hexpects
    have hne : id₀ ≠ id := by
      rintro rfl
      exact hfree.2 hhandles
    have hmethod : t₀.method = t.method := by
      have hsame := (hhands id₀ hadding).2 id hpc
      simpa [State.method, ht, ht₀] using hsame.symm
    -- the session of the handler stops listening when the session that it adds begins to
    have hbefore : s.listens id₀ = some t.method := by
      simp [State.listens, ht₀, Session.listens, hexpects.1, State.replaces, hadding, hpc,
        AddPc.requests, hmethod]
    have hnone : Function.update s.listens id₀ none id = none := by
      have hunhandled : s.replaces id = false := by simp [State.replaces, hadding, hne]
      rw [Function.update_of_ne hne.symm]
      simp [State.listens, ht, Session.listens, hfree.1, hunhandled]
    have hreplaces : ∀ id', u.replaces id' = false := by
      intro id'
      simp [State.replaces, hu.dispatcher, hadding, hu.starters, AddPc.requests]
    have hlistens : u.listens =
        Function.update (Function.update s.listens id₀ none) id (some t.method) := by
      funext id'
      by_cases heq : id' = id
      · subst heq
        simp [State.listens, hu.session, Session.listens, hstate]
      · rw [Function.update_of_ne heq]
        by_cases heq₀ : id' = id₀
        · subst heq₀
          simp [State.listens, hu.session, heq, ht₀, Session.listens, hrpc₀, hreplaces]
        · have hunhandled : s.replaces id' = false := by
            simp [State.replaces, hadding, Ne.symm heq₀]
          simp only [Function.update_of_ne heq₀, State.listens, hu.session,
            Function.update_of_ne heq, hreplaces, hunhandled]
    have hle := (hknown.tags.made id).mp (by rw [ht]; rfl)
    have hle₀ := (hknown.tags.made id₀).mp (by rw [ht₀]; rfl)
    intro m
    rw [hlistens, hu.allocated, tally_fill (by omega) hnone, tally_clear (by omega) hbefore,
      h m, hu.added, Starter.adds]
  · rw [hidle] at hpc
    contradiction

omit [DecidableEq C] in
/-- An `AddSession` moves on, having or not having requested its call as before. -/
theorem State.Listening.starter {u : State T M C R} {c : Starter T} {pc : AddPc M}
    (h : s.Listening) (hsession : u.session = s.session) (hallocated : u.allocated = s.allocated)
    (hadded : u.added = s.added) (hdispatcher : u.dispatcher = s.dispatcher)
    (hstarters : u.starters = Function.update s.starters c pc)
    (hrequests : c = .handler → pc.requests = (s.starters .handler).requests) : u.Listening := by
  refine h.same (listens_same hsession fun id t _ => ?_) hallocated hadded
  rw [replaces_setStarter hdispatcher hstarters hrequests]

omit [DecidableEq T] [DecidableEq C] in
/-- One session changes, but not whether it listens. -/
theorem State.Listening.setSession {u : State T M C R} {id : Nat} {t t' : Session M C}
    (h : s.Listening) (ht : s.session id = some t)
    (hsession : u.session = Function.update s.session id (some t'))
    (hallocated : u.allocated = s.allocated) (hadded : u.added = s.added)
    (hself : t'.listens (u.replaces id) = t.listens (s.replaces id))
    (hother : ∀ id', id' ≠ id → u.replaces id' = s.replaces id') : u.Listening := by
  refine h.same ?_ hallocated hadded
  rw [listens_setSession hsession hother, Function.update_eq_self_iff, hself]
  simp [State.listens, ht]

theorem State.Listening.step {l : Label T M C} (h : s.Listening) (hknown : Known api s)
    (hflags : Flags s) (hhands : s.Hands) (hunrefused : s.Unrefused)
    (hopen : s.serverShutdown = false) (hfresh : Fresh s l)
    (hs : Listener.step api s l = some s') : s'.Listening := by
  have hcq : s.cqShutdown = false := by
    by_contra hqueue
    rw [Bool.not_eq_false] at hqueue
    rw [hflags.queue hqueue] at hopen
    contradiction
  have hquiet : ∀ u : State T M C R, u.session = s.session → u.allocated = s.allocated →
      u.added = s.added → (∀ id, u.replaces id = s.replaces id) → u.Listening := by
    intro u hsession hallocated hadded hreplaces
    refine h.same (listens_same hsession fun id t _ => ?_) hallocated hadded
    rw [hreplaces]
  cases step_moves hs with
  | construct c m hpc => exact h.construct hknown.tags hpc (hfresh ⟨m, hpc⟩)
  | request c id t hpc ht =>
      cases c with
      | user t₀ => exact h.request_user hknown hpc ht (requests_start hcq _ id t)
      | handler => exact h.request_handler hknown hhands hpc ht (requests_start hcq _ id t)
  | enterAdd t m hpc => exact h.starter rfl rfl rfl rfl rfl (by simp)
  | lock c id hpc | insert c id hpc | unlock c id hpc =>
      exact h.starter rfl rfl rfl rfl rfl (fun heq => by rw [← heq, hpc]; rfl)
  | arrives id call t ht hrpc =>
      exact h.setSession ht rfl rfl rfl (by simp [Session.listens, hrpc]) (fun _ _ => rfl)
  | completes id ok t ht hrpc =>
      rcases hrpc with hrpc | ⟨_, hserver, _⟩
      · exact h.setSession ht rfl rfl rfl (by simp [Session.listens, hrpc]) (fun _ _ => rfl)
      · simp [hopen] at hserver
  | next id ok t hpc ht hrpc =>
      refine h.setSession ht rfl rfl rfl ?_ ?_
      · simp [Session.listens, State.replaces, hrpc]
      · intro id' hne
        simp [State.replaces, hpc, Ne.symm hne]
  | handled id ok t hpc ht hreact =>
      rcases (hknown.stages.sound id t ht).reacts ok with ⟨_, _, haccept⟩ | ⟨_, hreturns⟩
      · rw [haccept] at hreact
        contradiction
      · rw [hreturns] at hreact
        contradiction
  | done id ok t hpc ht hreact =>
      have hsound := hknown.stages.sound id t ht
      have hfinish : t.callState = .waitFinish := by
        rcases hsound.reacts ok with ⟨_, _, haccept⟩ | ⟨hfinish | hfailed, _⟩
        · rw [haccept] at hreact
          contradiction
        · exact hfinish
        · refine hsound.served.resolve_left fun hstate => ?_
          subst hfailed
          exact (hunrefused id t ht hstate).2 hpc
      refine h.same (listens_same rfl fun id' u hu => ?_) rfl rfl
      by_cases heq : id' = id
      · subst heq
        rw [ht, Option.some.injEq] at hu
        subst hu
        simp [Session.listens, hfinish]
      · have hunhandled : (id == id') = false := beq_eq_false_iff_ne.mpr (Ne.symm heq)
        simp only [State.replaces, hpc, hunhandled]
  | accept id ok t hpc ht hreact =>
      refine hquiet _ rfl rfl rfl fun id' => ?_
      simp [State.replaces, hpc, State.setStarter, AddPc.requests]
  | cancel id ok t hpc ht hreact =>
      rcases (hknown.stages.sound id t ht).reacts ok with ⟨_, _, haccept⟩ | ⟨_, hreturns⟩
      · rw [haccept] at hreact
        contradiction
      · rw [hreturns] at hreact
        contradiction
  | added id hpc hidle =>
      refine hquiet _ rfl rfl rfl fun id' => ?_
      simp [State.replaces, hpc, hidle, AddPc.requests]
  | respond id t hpc ht =>
      have hidle := hknown.tags.idle (by rw [hpc]; rfl) ht
      refine h.setSession ht rfl rfl rfl ?_ (by simp [State.replaces, hpc])
      simp [Session.listens, State.replaces, hpc, hidle]
  | finish id t hpc ht =>
      rcases start_session s id t .finishing with ⟨t', hset⟩
      have hexpects := hknown.stages.expects id t (by rw [hpc]; rfl) ht
      rw [hpc] at hexpects
      have hstate : t'.callState = .waitFinish := by
        rw [hset.after]
        split <;> exact hexpects.1
      refine h.setSession ht hset.session hset.allocated ?_ ?_ (by simp [State.replaces, hpc])
      · simp only [State.finishCall, State.start]
        split <;> rfl
      · simp [Session.listens, hstate, hexpects.1]
  | shutdown id t hpc ht =>
      rw [(hknown.stages.sound id t ht).tryCancel, setSession_self ht]
      exact hquiet _ rfl rfl rfl (by simp [State.replaces, hpc])
  | visit id rest t hpc ht =>
      rw [(hknown.stages.sound id t ht).tryCancel, setSession_self ht]
      exact h.same rfl rfl rfl
  | lockErase id hpc | erase id hpc | unlockErase hpc | exit hpc =>
      exact hquiet _ rfl rfl rfl (by simp [State.replaces, hpc])
  | enterStop | stopLock | visited | running | server | wait | queue | join | drain =>
      exact h.same rfl rfl rfl
  | ignore id ok t hpc ht =>
      have hserver := hflags.stopper (by simp [hpc])
      simp [hopen] at hserver

/-! ## Every reachable state -/

/-- What is known of the states in which the server runs. -/
structure Running (s : State T M C R) : Prop where
  flags : Flags s
  hands : s.Hands
  unrefused : s.serverShutdown = false → s.Unrefused
  listening : s.serverShutdown = false → s.Listening

theorem server_stays {l : Label T M C} (hs : Listener.step api s l = some s')
    (hopen : s'.serverShutdown = false) : s.serverShutdown = false := by
  cases step_moves hs with
  | server hpc => simp at hopen
  | request c id t hpc ht =>
      revert hopen
      simp only [State.setStarter, State.start]
      split <;> exact fun hopen => hopen
  | cancel id ok t hpc ht | finish id t hpc ht =>
      revert hopen
      simp only [State.finishCall, State.start]
      split <;> exact fun hopen => hopen
  | enterAdd | construct | lock | insert | unlock | arrives | completes | next | handled | done
  | accept | added | respond | shutdown | lockErase | erase | unlockErase | exit | ignore
  | enterStop | stopLock | visit | visited | running | wait | queue | join | drain => exact hopen

theorem running_reachable (hr : Reach (Listener.step api) Fresh State.initial s) : Running s := by
  apply hr.invariant_with (fun t ht => known_reachable ht)
  · refine ⟨flags_initial, ?_, fun _ => ?_, fun _ => ?_⟩
    · simp [State.Hands, State.initial]
    · simp [State.Unrefused, State.initial]
    · intro m
      exact tally_empty 1 m
  · intro t l t' hknown _ ht hfresh hs
    refine ⟨ht.flags.step hs, ht.hands.step hknown hfresh hs, fun hopen => ?_, fun hopen => ?_⟩
    · have hbefore := server_stays hs hopen
      exact (ht.unrefused hbefore).step hknown ht.flags hbefore hfresh hs
    · have hbefore := server_stays hs hopen
      exact (ht.listening hbefore).step hknown ht.flags ht.hands (ht.unrefused hbefore) hbefore
        hfresh hs

/-- Until the server is shut down, for each method as many sessions have requested a call
and were not replaced as user threads requested for it: the listener never stops to accept
calls, and never accepts more of them at once. -/
theorem keeps_listening (hr : Reach (Listener.step api) Fresh State.initial s)
    (hopen : s.serverShutdown = false) (m : M) :
    tally s.listens (s.allocated + 1) m = s.added.count m :=
  (running_reachable hr).listening hopen m

/-- After a call one session listens for the next one. -/
theorem keeps_listening_accepted : ∃ s : State Unit Method Call Response,
    Reach (Listener.step dtService) Fresh State.initial s ∧
      s.accepted = [(.command, 0)] ∧
      tally s.listens (s.allocated + 1) .command = 1 ∧
      tally s.listens (s.allocated + 1) .requestRobotInfo = 0 := by
  have hrun : (run (Listener.step dtService) Fresh
      (State.initial : State Unit Method Call Response)
      (adds .command ++ accepts 1 (.command, 0))).map
        (fun s => (s.accepted, s.serverShutdown, s.added)) =
      some ([(.command, 0)], false, [.command]) := by decide
  rcases exists_reach_of_run hrun with ⟨s, hs, hobserved⟩
  rw [Prod.mk.injEq, Prod.mk.injEq] at hobserved
  rcases hobserved with ⟨haccepted, hopen, hadded⟩
  refine ⟨s, hs, haccepted, ?_, ?_⟩
  · rw [keeps_listening hs hopen, hadded]
    decide
  · rw [keeps_listening hs hopen, hadded]
    decide

end Listener
end Service
end DAQ
end DtCore
