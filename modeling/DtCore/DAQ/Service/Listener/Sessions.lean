import DtCore.DAQ.Service.Listener.Model

/-!
# The sessions of the listener

A session is alive while a shared pointer owns it: that of the map, or that of the
`AddSession` that makes it.  gRPC and the dispatcher work with its tag, which is a
plain pointer.

Main definitions:

- `State.Owned`: a shared pointer keeps the session alive.
- `Tags`: the tags that gRPC and the dispatcher hold.
- `Stages`: how far every session has come, and what the dispatcher finds in it.

Main results:

- Theorems `Tags.step` and `Stages.step`: every step keeps them.
- Theorem `tags_outlived`: no tag outlives its session.
-/

namespace DtCore
namespace DAQ
namespace Service
namespace Listener

open Foundation

universe u v w x

variable {T : Type u} {M : Type v} {C : Type w} {R : Type x}

/-! ## Who holds a session -/

/-- The session that an `AddSession` holds and has not inserted. -/
def AddPc.holds : AddPc M → Option Nat
  | .request id | .lock id | .insert id => some id
  | .idle | .construct _ | .unlock _ => none

/-- The session whose completion the dispatcher handles. -/
def EventPc.handles : EventPc → Option Nat
  | .handle id _ | .adding id | .respond id | .finish id | .shutdown id | .lock id
  | .erase id => some id
  | .next | .unlock | .exited => none

/-- A shared pointer keeps the session alive: that of the map, or that of the
`AddSession` that makes it. -/
def State.Owned (s : State T M C R) (id : Nat) : Prop :=
  id ∈ s.sessions ∨ ∃ c, (s.starters c).holds = some id

/-- gRPC and the dispatcher only hold tags of sessions that are alive, and never both
the tag of one session. -/
structure Tags (s : State T M C R) : Prop where
  made : ∀ id, (s.session id).isSome = true ↔ 1 ≤ id ∧ id ≤ s.allocated
  held : ∀ c id, (s.starters c).holds = some id → 1 ≤ id ∧ id ≤ s.allocated
  listed : ∀ id ∈ s.sessions, 1 ≤ id ∧ id ≤ s.allocated
  distinct : ∀ c c' id, (s.starters c).holds = some id → (s.starters c').holds = some id →
    c = c'
  fresh : ∀ c id t, s.starters c = .request id → s.session id = some t →
    t.rpc = .idle ∧ s.dispatcher.handles ≠ some id
  busy : ∀ id t, s.session id = some t → t.rpc ≠ .idle →
    s.Owned id ∧ s.dispatcher.handles ≠ some id
  handled : ∀ id, s.dispatcher.handles = some id →
    s.Owned id ∧ ∃ t, s.session id = some t ∧ t.rpc = .idle

theorem tags_initial : Tags (State.initial : State T M C R) := by
  constructor <;> simp [State.initial, AddPc.holds, EventPc.handles]
  omega

/-- The threads and the map as before, the dispatcher with nothing new. -/
theorem Tags.frame {s s' : State T M C R} (h : Tags s) (hsession : s'.session = s.session)
    (hallocated : s'.allocated = s.allocated) (hsessions : s'.sessions = s.sessions)
    (hstarters : s'.starters = s.starters)
    (hhandles : ∀ id, s'.dispatcher.handles = some id → s.dispatcher.handles = some id) :
    Tags s' where
  made := by rw [hsession, hallocated]; exact h.made
  held := by rw [hstarters, hallocated]; exact h.held
  listed := by rw [hsessions, hallocated]; exact h.listed
  distinct := by rw [hstarters]; exact h.distinct
  fresh c id t hc ht := by
    rw [hstarters] at hc
    rw [hsession] at ht
    exact ⟨(h.fresh c id t hc ht).1, fun hid => (h.fresh c id t hc ht).2 (hhandles id hid)⟩
  busy id t ht hrpc := by
    rw [hsession] at ht
    rw [State.Owned, hsessions, hstarters]
    exact ⟨(h.busy id t ht hrpc).1, fun hid => (h.busy id t ht hrpc).2 (hhandles id hid)⟩
  handled id hid := by
    rw [State.Owned, hsessions, hstarters, hsession]
    exact h.handled id (hhandles id hid)

/-- One session changes, and the dispatcher may begin or end to handle it. -/
theorem Tags.setSession {s s' : State T M C R} (h : Tags s) {id : Nat} {t t' : Session M C}
    (ht : s.session id = some t) (hsession : s'.session = Function.update s.session id (some t'))
    (hallocated : s'.allocated = s.allocated) (hsessions : s'.sessions = s.sessions)
    (hstarters : s'.starters = s.starters)
    (hrpc : t'.rpc ≠ .idle → s.Owned id ∧ s'.dispatcher.handles ≠ some id ∧
      ∀ c, s.starters c ≠ .request id)
    (hhandles : ∀ id', s'.dispatcher.handles = some id' → s.dispatcher.handles = some id' ∨
      (id' = id ∧ s.Owned id ∧ t'.rpc = .idle ∧ ∀ c, s.starters c ≠ .request id)) :
    Tags s' := by
  have howned : ∀ id', s'.Owned id' ↔ s.Owned id' := by
    intro id'
    rw [State.Owned, State.Owned, hsessions, hstarters]
  constructor
  case made =>
    intro id'
    rw [hsession, hallocated, ← h.made]
    by_cases heq : id' = id
    · subst heq
      simp [ht]
    · rw [Function.update_of_ne heq]
  case held => rw [hstarters, hallocated]; exact h.held
  case listed => rw [hsessions, hallocated]; exact h.listed
  case distinct => rw [hstarters]; exact h.distinct
  case fresh =>
    intro c id' u hc hu
    rw [hstarters] at hc
    have hunhandled : s'.dispatcher.handles ≠ some id' := by
      intro hid
      rcases hhandles id' hid with hbefore | ⟨rfl, _, _, hnone⟩
      · rcases h.handled id' hbefore with ⟨_, w, hw, _⟩
        exact (h.fresh c id' w hc hw).2 hbefore
      · exact hnone c hc
    refine ⟨?_, hunhandled⟩
    by_cases heq : id' = id
    · subst heq
      rw [hsession, Function.update_self] at hu
      cases hu
      by_contra hbusy
      exact (hrpc hbusy).2.2 c hc
    · rw [hsession, Function.update_of_ne heq] at hu
      exact (h.fresh c id' u hc hu).1
  case busy =>
    intro id' u hu hbusy
    rw [howned]
    by_cases heq : id' = id
    · subst heq
      rw [hsession, Function.update_self] at hu
      cases hu
      exact ⟨(hrpc hbusy).1, (hrpc hbusy).2.1⟩
    · rw [hsession, Function.update_of_ne heq] at hu
      refine ⟨(h.busy id' u hu hbusy).1, fun hid => ?_⟩
      rcases hhandles id' hid with hbefore | ⟨hsame, _⟩
      · exact (h.busy id' u hu hbusy).2 hbefore
      · exact heq hsame
  case handled =>
    intro id' hid
    rw [howned, hsession]
    by_cases heq : id' = id
    · subst heq
      rw [Function.update_self]
      rcases hhandles id' hid with hbefore | ⟨_, howns, hidle, _⟩
      · refine ⟨(h.handled id' hbefore).1, t', rfl, ?_⟩
        by_contra hbusy
        exact (hrpc hbusy).2.1 hid
      · exact ⟨howns, t', rfl, hidle⟩
    · rw [Function.update_of_ne heq]
      rcases hhandles id' hid with hbefore | ⟨hsame, _⟩
      · exact h.handled id' hbefore
      · exact absurd hsame heq

theorem owned_setStarter [DecidableEq T] {s : State T M C R} {c : Starter T} {pc : AddPc M}
    (hholds : pc.holds = (s.starters c).holds) (id : Nat) :
    (s.setStarter c pc).Owned id ↔ s.Owned id := by
  have hsame : ∀ c', ((s.setStarter c pc).starters c').holds = (s.starters c').holds := by
    intro c'
    by_cases heq : c' = c
    · subst heq
      simp [State.setStarter, hholds]
    · simp [State.setStarter, heq]
  simp only [State.Owned, hsame]
  rfl

/-- An `AddSession` that holds the same session as before. -/
theorem Tags.setStarter [DecidableEq T] {s : State T M C R} (h : Tags s) (c : Starter T)
    (pc : AddPc M) (hholds : pc.holds = (s.starters c).holds) (hpc : ∀ id, pc ≠ .request id) :
    Tags (s.setStarter c pc) := by
  have hsame : ∀ c', ((s.setStarter c pc).starters c').holds = (s.starters c').holds := by
    intro c'
    by_cases heq : c' = c
    · subst heq
      simp [State.setStarter, hholds]
    · simp [State.setStarter, heq]
  have hrequest : ∀ c' id, (s.setStarter c pc).starters c' = .request id →
      s.starters c' = .request id := by
    intro c' id hc'
    by_cases heq : c' = c
    · subst heq
      simp only [State.setStarter, Function.update_self] at hc'
      exact absurd hc' (hpc id)
    · simpa [State.setStarter, heq] using hc'
  constructor
  case made => exact h.made
  case held =>
    intro c' id hid
    exact h.held c' id (by rw [← hsame]; exact hid)
  case listed => exact h.listed
  case distinct =>
    intro c₁ c₂ id h₁ h₂
    rw [hsame] at h₁ h₂
    exact h.distinct c₁ c₂ id h₁ h₂
  case fresh =>
    intro c' id t hc'
    exact h.fresh c' id t (hrequest c' id hc')
  case busy =>
    intro id t ht hbusy
    rw [owned_setStarter hholds]
    exact h.busy id t ht hbusy
  case handled =>
    intro id hid
    rw [owned_setStarter hholds]
    exact h.handled id hid

variable [DecidableEq T] [DecidableEq M] [DecidableEq C] {api : Api M C R}
  {s s' : State T M C R}

omit [DecidableEq M] [DecidableEq C] in
/-- A session is made. -/
theorem Tags.construct {c : Starter T} {m : M} (h : Tags s) (hpc : s.starters c = .construct m)
    (hfresh : s.allocated + 1 < 2 ^ 64) :
    Tags { (s.setSession ((s.allocated + 1) % 2 ^ 64) (.constructed m)).setStarter c
            (.request ((s.allocated + 1) % 2 ^ 64)) with
          allocated := (s.allocated + 1) % 2 ^ 64 } := by
  rw [Nat.mod_eq_of_lt hfresh]
  have hne : ∀ id, 1 ≤ id ∧ id ≤ s.allocated → id ≠ s.allocated + 1 := by
    intro id hid
    omega
  have hstarter : ∀ c', c' ≠ c → Function.update s.starters c (.request (s.allocated + 1)) c' =
      s.starters c' := fun c' heq => Function.update_of_ne heq _ _
  constructor
  case made =>
    intro id
    simp only [State.setStarter, State.setSession]
    by_cases heq : id = s.allocated + 1
    · subst heq
      simp
    · rw [Function.update_of_ne heq, h.made]
      omega
  case held =>
    intro c' id hid
    simp only [State.setStarter, State.setSession] at hid ⊢
    by_cases heq : c' = c
    · subst heq
      simp only [Function.update_self, AddPc.holds, Option.some.injEq] at hid
      omega
    · rw [hstarter c' heq] at hid
      have hle := h.held c' id hid
      omega
  case listed =>
    intro id hid
    have hle := h.listed id hid
    simp only
    omega
  case distinct =>
    intro c₁ c₂ id h₁ h₂
    simp only [State.setStarter, State.setSession] at h₁ h₂
    by_cases heq₁ : c₁ = c <;> by_cases heq₂ : c₂ = c
    · rw [heq₁, heq₂]
    · subst heq₁
      rw [hstarter c₂ heq₂] at h₂
      simp only [Function.update_self, AddPc.holds, Option.some.injEq] at h₁
      exact absurd h₁.symm (hne id (h.held c₂ id h₂))
    · subst heq₂
      rw [hstarter c₁ heq₁] at h₁
      simp only [Function.update_self, AddPc.holds, Option.some.injEq] at h₂
      exact absurd h₂.symm (hne id (h.held c₁ id h₁))
    · rw [hstarter c₁ heq₁] at h₁
      rw [hstarter c₂ heq₂] at h₂
      exact h.distinct c₁ c₂ id h₁ h₂
  case fresh =>
    intro c' id t hc' ht
    simp only [State.setStarter, State.setSession] at hc' ht ⊢
    by_cases heq : c' = c
    · subst heq
      simp only [Function.update_self, AddPc.request.injEq] at hc'
      subst hc'
      simp only [Function.update_self, Option.some.injEq] at ht
      subst ht
      refine ⟨rfl, fun hhandles => ?_⟩
      rcases h.handled _ hhandles with ⟨_, u, hu, _⟩
      have hle := (h.made (s.allocated + 1)).mp (by simp [hu])
      omega
    · rw [hstarter c' heq] at hc'
      have hle := h.held c' id (by rw [hc']; rfl)
      rw [Function.update_of_ne (hne id hle)] at ht
      exact h.fresh c' id t hc' ht
  case busy =>
    intro id t ht hbusy
    simp only [State.setStarter, State.setSession] at ht ⊢
    by_cases heq : id = s.allocated + 1
    · subst heq
      simp only [Function.update_self, Option.some.injEq] at ht
      subst ht
      exact absurd rfl hbusy
    · rw [Function.update_of_ne heq] at ht
      rcases h.busy id t ht hbusy with ⟨howned, hunhandled⟩
      refine ⟨howned.imp_right ?_, hunhandled⟩
      rintro ⟨c', hc'⟩
      have hne' : c' ≠ c := by
        rintro rfl
        simp [hpc, AddPc.holds] at hc'
      exact ⟨c', by simp only [hstarter c' hne']; exact hc'⟩
  case handled =>
    intro id hid
    rcases h.handled id hid with ⟨howned, t, ht, hidle⟩
    have hle := (h.made id).mp (by simp [ht])
    refine ⟨howned.imp_right ?_, t, ?_, hidle⟩
    · rintro ⟨c', hc'⟩
      have hne' : c' ≠ c := by
        rintro rfl
        simp [hpc, AddPc.holds] at hc'
      exact ⟨c', by simp only [State.setStarter, State.setSession, hstarter c' hne']; exact hc'⟩
    · simp only [State.setStarter, State.setSession]
      rw [Function.update_of_ne (hne id hle)]
      exact ht

omit [DecidableEq M] [DecidableEq C] in
/-- A session requests its call. -/
theorem Tags.request {c : Starter T} {id : Nat} {t t' : Session M C} (h : Tags s)
    (hpc : s.starters c = .request id) (ht : s.session id = some t) :
    Tags ((s.setSession id t').setStarter c (.lock id)) := by
  have hrest := h.setStarter c (.lock id) (by rw [hpc]; rfl) (by simp)
  have howned : s.Owned id := Or.inr ⟨c, by rw [hpc]; rfl⟩
  have hunhandled := (h.fresh c id t hpc ht).2
  refine hrest.setSession ht rfl rfl rfl rfl ?_ ?_
  · intro _
    refine ⟨(owned_setStarter (by rw [hpc]; rfl) id).mpr howned, hunhandled, ?_⟩
    intro c' hc'
    by_cases heq : c' = c
    · subst heq
      simp [State.setStarter] at hc'
    · simp only [State.setStarter, Function.update_of_ne heq] at hc'
      exact heq (h.distinct c' c id (by rw [hc']; rfl) (by rw [hpc]; rfl))
  · intro id' hid'
    exact Or.inl hid'

omit [DecidableEq M] [DecidableEq C] in
/-- A session is inserted into the map. -/
theorem Tags.insert {c : Starter T} {id : Nat} (h : Tags s) (hpc : s.starters c = .insert id) :
    Tags { s.setStarter c (.unlock id) with sessions := s.sessions.insert id } := by
  have hheld := h.held c id (by rw [hpc]; rfl)
  have hsame : ∀ c', c' ≠ c → (s.setStarter c (.unlock id)).starters c' = s.starters c' :=
    fun c' heq => Function.update_of_ne heq _ _
  have hself : (s.setStarter c (.unlock id)).starters c = .unlock id := Function.update_self ..
  have howned : ∀ id', s.Owned id' →
      State.Owned { s.setStarter c (.unlock id) with sessions := s.sessions.insert id } id' := by
    rintro id' (hmem | ⟨c', hc'⟩)
    · exact Or.inl (List.mem_insert_of_mem hmem)
    · by_cases heq : c' = c
      · subst heq
        rw [hpc] at hc'
        cases hc'
        exact Or.inl List.mem_insert_self
      · exact Or.inr ⟨c', by simp only [hsame c' heq]; exact hc'⟩
  have hholds : ∀ c' id', ((s.setStarter c (.unlock id)).starters c').holds = some id' →
      (s.starters c').holds = some id' := by
    intro c' id' hid'
    by_cases heq : c' = c
    · subst heq
      rw [hself] at hid'
      simp [AddPc.holds] at hid'
    · rwa [hsame c' heq] at hid'
  constructor
  case made => exact h.made
  case held =>
    intro c' id' hid'
    exact h.held c' id' (hholds c' id' hid')
  case listed =>
    intro id' hid'
    rcases List.mem_insert_iff.mp hid' with rfl | hmem
    · exact hheld
    · exact h.listed id' hmem
  case distinct =>
    intro c₁ c₂ id' h₁ h₂
    exact h.distinct c₁ c₂ id' (hholds c₁ id' h₁) (hholds c₂ id' h₂)
  case fresh =>
    intro c' id' t hc'
    by_cases heq : c' = c
    · subst heq
      rw [hself] at hc'
      contradiction
    · rw [hsame c' heq] at hc'
      exact h.fresh c' id' t hc'
  case busy =>
    intro id' t ht hbusy
    exact ⟨howned id' (h.busy id' t ht hbusy).1, (h.busy id' t ht hbusy).2⟩
  case handled =>
    intro id' hid'
    exact ⟨howned id' (h.handled id' hid').1, (h.handled id' hid').2⟩

omit [DecidableEq T] [DecidableEq M] [DecidableEq C] in
/-- The session that the dispatcher has done with is erased from the map. -/
theorem Tags.erase {id : Nat} (h : Tags s) (hpc : s.dispatcher = .erase id) :
    Tags { s with sessions := s.sessions.filter (· ≠ id), dispatcher := .unlock } := by
  have hhandles : s.dispatcher.handles = some id := by rw [hpc]; rfl
  constructor
  case made => exact h.made
  case held => exact h.held
  case listed =>
    intro id' hid'
    exact h.listed id' (List.mem_filter.mp hid').1
  case distinct => exact h.distinct
  case fresh =>
    intro c id' t hc ht
    exact ⟨(h.fresh c id' t hc ht).1, by simp [EventPc.handles]⟩
  case busy =>
    intro id' t ht hbusy
    rcases h.busy id' t ht hbusy with ⟨howned, hunhandled⟩
    have hne : id' ≠ id := by
      rintro rfl
      exact hunhandled hhandles
    refine ⟨howned.imp_left fun hmem => ?_, by simp [EventPc.handles]⟩
    exact List.mem_filter.mpr ⟨hmem, by simpa using hne⟩
  case handled => simp [EventPc.handles]

omit [DecidableEq T] [DecidableEq M] [DecidableEq C] in
theorem Tags.requested_of_busy {id : Nat} {t : Session M C} (h : Tags s)
    (ht : s.session id = some t) (hbusy : t.rpc ≠ .idle) (c : Starter T) :
    s.starters c ≠ .request id :=
  fun hc => hbusy (h.fresh c id t hc ht).1

omit [DecidableEq T] [DecidableEq M] [DecidableEq C] in
theorem Tags.requested_of_handled {id : Nat} (h : Tags s)
    (hhandles : s.dispatcher.handles = some id) (c : Starter T) : s.starters c ≠ .request id := by
  intro hc
  rcases h.handled id hhandles with ⟨_, t, ht, _⟩
  exact (h.fresh c id t hc ht).2 hhandles

omit [DecidableEq T] [DecidableEq M] [DecidableEq C] in
/-- The operation of a session that gRPC holds completes or changes its state. -/
theorem Tags.setBusy {s s' : State T M C R} {id : Nat} {t t' : Session M C} (h : Tags s)
    (ht : s.session id = some t) (hsession : s'.session = Function.update s.session id (some t'))
    (hallocated : s'.allocated = s.allocated) (hsessions : s'.sessions = s.sessions)
    (hstarters : s'.starters = s.starters) (hdispatcher : s'.dispatcher = s.dispatcher)
    (hrpc : t'.rpc ≠ .idle → t.rpc ≠ .idle) : Tags s' := by
  apply h.setSession ht hsession hallocated hsessions hstarters
  · intro hbusy
    rw [hdispatcher]
    exact ⟨(h.busy id t ht (hrpc hbusy)).1, (h.busy id t ht (hrpc hbusy)).2,
      h.requested_of_busy ht (hrpc hbusy)⟩
  · intro id' hid'
    rw [hdispatcher] at hid'
    exact Or.inl hid'

omit [DecidableEq T] [DecidableEq M] [DecidableEq C] in
/-- The dispatcher changes the session that it handles, and may be done with it. -/
theorem Tags.setHandled {s s' : State T M C R} {id : Nat} {t t' : Session M C} (h : Tags s)
    (hhandles : s.dispatcher.handles = some id) (ht : s.session id = some t)
    (hsession : s'.session = Function.update s.session id (some t'))
    (hallocated : s'.allocated = s.allocated) (hsessions : s'.sessions = s.sessions)
    (hstarters : s'.starters = s.starters)
    (hdispatcher : s'.dispatcher.handles = none ∨
      (s'.dispatcher.handles = some id ∧ t'.rpc = .idle)) : Tags s' := by
  apply h.setSession ht hsession hallocated hsessions hstarters
  · intro hbusy
    refine ⟨(h.handled id hhandles).1, ?_, h.requested_of_handled hhandles⟩
    rcases hdispatcher with hnone | ⟨_, hidle⟩
    · simp [hnone]
    · exact absurd hidle hbusy
  · intro id' hid'
    rcases hdispatcher with hnone | ⟨hsome, _⟩
    · simp [hnone] at hid'
    · rw [hsome, Option.some.injEq] at hid'
      subst hid'
      exact Or.inl hhandles

omit [DecidableEq T] [DecidableEq M] [DecidableEq C] in
theorem Tags.idle {id : Nat} {t : Session M C} (h : Tags s)
    (hhandles : s.dispatcher.handles = some id) (ht : s.session id = some t) :
    t.rpc = .idle := by
  rcases h.handled id hhandles with ⟨_, u, hu, hidle⟩
  rw [ht, Option.some.injEq] at hu
  rwa [hu]

omit [DecidableEq M] [DecidableEq C] in
theorem tryCancel_rpc (t : Session M C) : t.tryCancelCallAndShutdown.rpc = t.rpc := by
  unfold Session.tryCancelCallAndShutdown
  split <;> rfl

/-- What `start` leaves: the session with the operation, unless the queue refuses it. -/
structure Started (s s' : State T M C R) (id : Nat) (t t' : Session M C) (rpc : Rpc) :
    Prop where
  session : s'.session = Function.update s.session id (some t')
  allocated : s'.allocated = s.allocated
  sessions : s'.sessions = s.sessions
  starters : s'.starters = s.starters
  dispatcher : s'.dispatcher = s.dispatcher
  accepted : s'.accepted = s.accepted
  answers : s'.answers = s.answers
  after : t' = if s.cqShutdown = true then t else { t with rpc := rpc }

omit [DecidableEq T] [DecidableEq M] [DecidableEq C] in
theorem start_session (s : State T M C R) (id : Nat) (t : Session M C) (rpc : Rpc) :
    ∃ t', Started s (s.start id t rpc) id t t' rpc := by
  unfold State.start
  split
  · rename_i hcq
    exact ⟨t, rfl, rfl, rfl, rfl, rfl, rfl, rfl, by rw [if_pos hcq]⟩
  · rename_i hcq
    exact ⟨{ t with rpc := rpc }, rfl, rfl, rfl, rfl, rfl, rfl, rfl, by rw [if_neg hcq]⟩

/-- A handler runs `AddSession` only while the dispatcher waits for it. -/
def State.Nested (s : State T M C R) : Prop :=
  (∃ id, s.dispatcher = .adding id) ∨ s.starters .handler = .idle

omit [DecidableEq M] [DecidableEq C] in
theorem State.Nested.setStarter (h : s.Nested) (c : Starter T) (pc : AddPc M)
    (hpc : s.starters c ≠ .idle ∨ c ≠ .handler) : (s.setStarter c pc).Nested := by
  rcases h with hadding | hidle
  · exact Or.inl hadding
  · refine Or.inr ?_
    have hne : (Starter.handler : Starter T) ≠ c := by
      rintro rfl
      simp [hidle] at hpc
    simpa [State.setStarter, hne] using hidle

theorem State.Nested.step {l : Label T M C} (h : s.Nested) (hs : Listener.step api s l = some s') :
    s'.Nested := by
  have hidle : (∀ id, s.dispatcher ≠ .adding id) → s.starters .handler = .idle := by
    intro hnot
    exact h.resolve_left fun ⟨id, hid⟩ => hnot id hid
  cases step_moves hs with
  | enterAdd t m hpc => exact h.setStarter _ _ (Or.inr (by simp))
  | construct c m hpc => exact h.setStarter c _ (Or.inl (by simp [hpc]))
  | request c id t hpc ht =>
      have hset := h.setStarter c (.lock id) (Or.inl (by simp [hpc]))
      unfold State.start
      split <;> exact hset
  | lock c id hpc hfree => exact h.setStarter c _ (Or.inl (by simp [hpc]))
  | insert c id hpc => exact h.setStarter c _ (Or.inl (by simp [hpc]))
  | unlock c id hpc => exact h.setStarter c _ (Or.inl (by simp [hpc]))
  | cancel id ok t hpc ht =>
      unfold State.finishCall State.start
      split <;> exact Or.inr (hidle (by simp [hpc]))
  | finish id t hpc ht =>
      unfold State.finishCall State.start
      split <;> exact Or.inr (hidle (by simp [hpc]))
  | accept id ok t hpc => exact Or.inl ⟨id, rfl⟩
  | added id hpc hadded => exact Or.inr hadded
  | arrives | completes | enterStop | stopLock | visit | visited | running | server | wait
  | queue | join | drain | ignore => exact h
  | next id ok t hpc | handled id ok t hpc | done id ok t hpc | respond id t hpc
  | shutdown id t hpc | lockErase id hpc | erase id hpc | unlockErase hpc | exit hpc =>
      exact Or.inr (hidle (by simp [hpc]))

theorem Tags.step {l : Label T M C} (h : Tags s) (hnested : s.Nested) (hfresh : Fresh s l)
    (hs : Listener.step api s l = some s') : Tags s' := by
  cases step_moves hs with
  | enterAdd t m hpc => exact h.setStarter _ _ (by rw [hpc]; rfl) (by simp)
  | construct c m hpc => exact h.construct hpc (hfresh ⟨m, hpc⟩)
  | request c id t hpc ht =>
      have hset : ∀ t' : Session M C, Tags ((s.setSession id t').setStarter c (.lock id)) :=
        fun t' => h.request hpc ht
      unfold State.start
      split
      · exact (hset t).frame rfl rfl rfl rfl (fun _ hid => hid)
      · exact (hset _).frame rfl rfl rfl rfl (fun _ hid => hid)
  | lock c id hpc hfree =>
      have hset := h.setStarter c (.insert id) (by rw [hpc]; rfl) (by simp)
      exact hset.frame rfl rfl rfl rfl (fun _ hid => hid)
  | insert c id hpc => exact h.insert hpc
  | unlock c id hpc =>
      have hset := h.setStarter c AddPc.idle (by rw [hpc]; rfl) (by simp)
      exact hset.frame rfl rfl rfl rfl (fun _ hid => hid)
  | arrives id call t ht hrpc => exact h.setBusy ht rfl rfl rfl rfl rfl (by simp [hrpc])
  | completes id ok t ht hrpc =>
      refine h.setBusy ht rfl rfl rfl rfl rfl (fun _ => ?_)
      rcases hrpc with hrpc | hrpc <;> simp [hrpc]
  | next id ok t hpc ht hrpc =>
      have hbusy : t.rpc ≠ .idle := by simp [hrpc]
      refine h.setSession ht rfl rfl rfl rfl (by simp) ?_
      intro id' hid'
      simp only [EventPc.handles, Option.some.injEq] at hid'
      exact Or.inr ⟨hid'.symm, (h.busy id t ht hbusy).1, rfl, h.requested_of_busy ht hbusy⟩
  | handled id ok t hpc => exact h.frame rfl rfl rfl rfl (by simp [EventPc.handles])
  | done id ok t hpc => exact h.frame rfl rfl rfl rfl (by simp [hpc, EventPc.handles])
  | accept id ok t hpc =>
      have hidle : s.starters .handler = .idle := hnested.resolve_left (by simp [hpc])
      have hset := h.setStarter .handler (.construct t.method)
        (by rw [hidle]; rfl) (by simp)
      exact hset.frame rfl rfl rfl rfl (by simp [hpc, State.setStarter, EventPc.handles])
  | cancel id ok t hpc ht =>
      rcases start_session s id { t with callState := .waitFinish } .finishing with ⟨t', hset⟩
      exact h.setHandled (by rw [hpc]; rfl) ht hset.session hset.allocated hset.sessions
        hset.starters (Or.inl rfl)
  | added id hpc => exact h.frame rfl rfl rfl rfl (by simp [hpc, EventPc.handles])
  | respond id t hpc ht =>
      have hhandles : s.dispatcher.handles = some id := by rw [hpc]; rfl
      have hidle := h.idle hhandles ht
      exact h.setHandled hhandles ht rfl rfl rfl rfl (Or.inr ⟨rfl, hidle⟩)
  | finish id t hpc ht =>
      rcases start_session s id t .finishing with ⟨t', hset⟩
      exact h.setHandled (by rw [hpc]; rfl) ht hset.session hset.allocated hset.sessions
        hset.starters (Or.inl rfl)
  | shutdown id t hpc ht =>
      have hhandles : s.dispatcher.handles = some id := by rw [hpc]; rfl
      refine h.setHandled hhandles ht rfl rfl rfl rfl (Or.inr ⟨rfl, ?_⟩)
      rw [tryCancel_rpc]
      exact h.idle hhandles ht
  | lockErase id hpc => exact h.frame rfl rfl rfl rfl (by simp [hpc, EventPc.handles])
  | erase id hpc => exact h.erase hpc
  | unlockErase hpc => exact h.frame rfl rfl rfl rfl (by simp [EventPc.handles])
  | exit hpc => exact h.frame rfl rfl rfl rfl (by simp [EventPc.handles])
  | visit id rest t hpc ht =>
      exact h.setBusy ht rfl rfl rfl rfl rfl (by rw [tryCancel_rpc]; exact fun hbusy => hbusy)
  | ignore id ok t hpc ht => exact h.setBusy ht rfl rfl rfl rfl rfl (by simp)
  | enterStop | stopLock | visited | running | server | wait | queue | join | drain =>
      exact h.frame rfl rfl rfl rfl (fun _ hid => hid)

/-! ## How far a session has come -/

/-- The call state is one of the two that occur, and fits what gRPC holds. -/
structure Session.Sound (api : Api M C R) (t : Session M C) : Prop where
  served : t.callState = .waitConnect ∨ t.callState = .waitFinish
  connecting : t.rpc = .connecting → t.callState = .waitConnect ∧ t.request = none
  finishing : t.rpc = .finishing → t.callState = .waitFinish
  ready : ∀ ok, t.rpc = .ready ok →
    t.callState = .waitFinish ∨ (t.callState = .waitConnect ∧ (ok = true ↔ t.request.isSome = true))
  method : ∀ call, t.request = some call → api.method call = t.method

/-- What the dispatcher finds in the session that it handles. -/
def EventPc.Expects (t : Session M C) : EventPc → Prop
  | .handle _ ok =>
      t.callState = .waitFinish ∨ (t.callState = .waitConnect ∧ (ok = true ↔ t.request.isSome = true))
  | .adding _ | .respond _ => t.callState = .waitConnect ∧ t.request.isSome = true
  | .finish _ => t.callState = .waitFinish ∧ t.request.isSome = true
  | .shutdown _ | .lock _ | .erase _ =>
      t.callState = .waitFinish ∨ (t.callState = .waitConnect ∧ t.request = none)
  | .next | .unlock | .exited => True

/-- Every session is sound, and the dispatcher and `AddSession` find what they expect. -/
structure Stages (api : Api M C R) (s : State T M C R) : Prop where
  sound : ∀ id t, s.session id = some t → t.Sound api
  requested : ∀ c id t, s.starters c = .request id → s.session id = some t →
    t.callState = .waitConnect ∧ t.request = none
  expects : ∀ id t, s.dispatcher.handles = some id → s.session id = some t →
    s.dispatcher.Expects t

omit [DecidableEq T] [DecidableEq M] [DecidableEq C] in
theorem stages_initial : Stages api (State.initial : State T M C R) := by
  constructor <;> simp [State.initial]

omit [DecidableEq T] [DecidableEq M] [DecidableEq C] in
theorem Session.Sound.tryCancel {t : Session M C} (h : t.Sound api) :
    t.tryCancelCallAndShutdown = t := by
  have hcancels : ¬ t.callState.cancels := by
    rcases h.served with hserved | hserved <;> simp [CallState.cancels, hserved]
  rw [Session.tryCancelCallAndShutdown, if_neg hcancels]

omit [DecidableEq T] [DecidableEq M] [DecidableEq C] in
theorem setSession_self {id : Nat} {t : Session M C} (ht : s.session id = some t) :
    s.setSession id t = s := by
  rw [State.setSession, Function.update_eq_self_iff.mpr ht.symm]

omit [DecidableEq T] [DecidableEq M] [DecidableEq C] in
/-- The sessions and the threads that make them as before. -/
theorem Stages.frame {s s' : State T M C R} (h : Stages api s)
    (hsession : s'.session = s.session)
    (hstarters : ∀ c id, s'.starters c = .request id → s.starters c = .request id)
    (hexpects : ∀ id t, s'.dispatcher.handles = some id → s.session id = some t →
      s'.dispatcher.Expects t) : Stages api s' where
  sound := by rw [hsession]; exact h.sound
  requested c id t hc ht := by
    rw [hsession] at ht
    exact h.requested c id t (hstarters c id hc) ht
  expects id t hid ht := by
    rw [hsession] at ht
    exact hexpects id t hid ht

omit [DecidableEq T] [DecidableEq M] [DecidableEq C] in
/-- One session changes. -/
theorem Stages.setSession {s s' : State T M C R} {id : Nat} {t' : Session M C}
    (h : Stages api s) (hsession : s'.session = Function.update s.session id (some t'))
    (hsound : t'.Sound api)
    (hstarters : ∀ c id', s'.starters c = .request id' →
      (id' ≠ id ∧ s.starters c = .request id') ∨
        (id' = id ∧ t'.callState = .waitConnect ∧ t'.request = none))
    (hexpects : ∀ id' t, s'.dispatcher.handles = some id' →
      (id' ≠ id → s.session id' = some t → s'.dispatcher.Expects t) ∧
        (id' = id → s'.dispatcher.Expects t')) : Stages api s' := by
  constructor
  case sound =>
    intro id' u hu
    by_cases heq : id' = id
    · subst heq
      rw [hsession, Function.update_self, Option.some.injEq] at hu
      rwa [← hu]
    · rw [hsession, Function.update_of_ne heq] at hu
      exact h.sound id' u hu
  case requested =>
    intro c id' u hc hu
    rcases hstarters c id' hc with ⟨hne, hbefore⟩ | ⟨rfl, hstate, hrequest⟩
    · rw [hsession, Function.update_of_ne hne] at hu
      exact h.requested c id' u hbefore hu
    · rw [hsession, Function.update_self, Option.some.injEq] at hu
      rw [← hu]
      exact ⟨hstate, hrequest⟩
  case expects =>
    intro id' u hid' hu
    by_cases heq : id' = id
    · subst heq
      rw [hsession, Function.update_self, Option.some.injEq] at hu
      rw [← hu]
      exact (hexpects id' u hid').2 rfl
    · rw [hsession, Function.update_of_ne heq] at hu
      exact (hexpects id' u hid').1 heq hu

omit [DecidableEq T] [DecidableEq M] [DecidableEq C] in
/-- gRPC changes what it holds of a session that neither the dispatcher nor an
`AddSession` works on. -/
theorem Stages.setBusy {s s' : State T M C R} {id : Nat} {t t' : Session M C}
    (h : Stages api s) (htags : Tags s) (ht : s.session id = some t) (hbusy : t.rpc ≠ .idle)
    (hsession : s'.session = Function.update s.session id (some t'))
    (hstarters : s'.starters = s.starters) (hdispatcher : s'.dispatcher = s.dispatcher)
    (hsound : t'.Sound api) : Stages api s' := by
  apply h.setSession hsession hsound
  · intro c id' hc
    rw [hstarters] at hc
    refine Or.inl ⟨?_, hc⟩
    rintro rfl
    exact htags.requested_of_busy ht hbusy c hc
  · intro id' u hid'
    rw [hdispatcher] at hid' ⊢
    refine ⟨fun _ hu => h.expects id' u hid' hu, ?_⟩
    rintro rfl
    exact absurd hid' (htags.busy id' t ht hbusy).2

omit [DecidableEq T] [DecidableEq M] [DecidableEq C] in
/-- The dispatcher changes the session that it handles. -/
theorem Stages.setHandled {s s' : State T M C R} {id : Nat} {t' : Session M C}
    (h : Stages api s) (htags : Tags s) (hhandles : s.dispatcher.handles = some id)
    (hsession : s'.session = Function.update s.session id (some t'))
    (hstarters : s'.starters = s.starters) (hsound : t'.Sound api)
    (hexpects : s'.dispatcher.handles = none ∨
      (s'.dispatcher.handles = some id ∧ s'.dispatcher.Expects t')) : Stages api s' := by
  apply h.setSession hsession hsound
  · intro c id' hc
    rw [hstarters] at hc
    refine Or.inl ⟨?_, hc⟩
    rintro rfl
    exact htags.requested_of_handled hhandles c hc
  · intro id' u hid'
    rcases hexpects with hnone | ⟨hsome, hexpects⟩
    · simp [hnone] at hid'
    · rw [hsome, Option.some.injEq] at hid'
      exact ⟨fun hne => absurd hid'.symm hne, fun _ => hexpects⟩

omit [DecidableEq T] [DecidableEq M] [DecidableEq C] in
/-- A handler accepts a call or is done; the other branches never run. -/
theorem Session.Sound.reacts {t : Session M C} (h : t.Sound api) (ok : Bool) :
    (t.callState = .waitConnect ∧ ok = true ∧ onCompletionEvent t.callState ok = .accept) ∨
      ((t.callState = .waitFinish ∨ ok = false) ∧
        onCompletionEvent t.callState ok = .returns false) := by
  rcases h.served with hserved | hserved
  · cases ok <;> simp [hserved, onCompletionEvent]
  · simp [hserved, onCompletionEvent]

omit [DecidableEq M] [DecidableEq C] in
theorem Stages.construct {c : Starter T} {m : M} (h : Stages api s) (htags : Tags s)
    (hpc : s.starters c = .construct m) (hfresh : s.allocated + 1 < 2 ^ 64) :
    Stages api
      { (s.setSession ((s.allocated + 1) % 2 ^ 64) (.constructed m)).setStarter c
          (.request ((s.allocated + 1) % 2 ^ 64)) with
        allocated := (s.allocated + 1) % 2 ^ 64 } := by
  rw [Nat.mod_eq_of_lt hfresh]
  refine h.setSession rfl ?_ ?_ ?_
  · constructor <;> simp [Session.constructed]
  · intro c' id' hc'
    by_cases heq : c' = c
    · subst heq
      simp only [State.setStarter, Function.update_self, AddPc.request.injEq] at hc'
      exact Or.inr ⟨hc'.symm, rfl, rfl⟩
    · simp only [State.setStarter, State.setSession, Function.update_of_ne heq] at hc'
      have hle := htags.held c' id' (by rw [hc']; rfl)
      exact Or.inl ⟨by omega, hc'⟩
  · intro id' t hid'
    refine ⟨fun _ ht => h.expects id' t hid' ht, ?_⟩
    rintro rfl
    rcases htags.handled _ hid' with ⟨_, u, hu, _⟩
    have hle := (htags.made _).mp (by rw [hu]; rfl)
    omega

omit [DecidableEq M] [DecidableEq C] in
theorem Stages.request {c : Starter T} {id : Nat} {t : Session M C} (h : Stages api s)
    (htags : Tags s) (hpc : s.starters c = .request id) (ht : s.session id = some t) :
    Stages api ((s.start id t .connecting).setStarter c (.lock id)) := by
  rcases start_session s id t .connecting with ⟨t', hset⟩
  rcases h.requested c id t hpc ht with ⟨hstate, hrequest⟩
  have hsound : t'.Sound api := by
    rw [hset.after]
    split
    · exact h.sound id t ht
    · constructor <;> simp [hstate, hrequest]
  refine h.setSession hset.session hsound ?_ ?_
  · intro c' id' hc'
    by_cases heq : c' = c
    · subst heq
      simp [State.setStarter] at hc'
    · simp only [State.setStarter, Function.update_of_ne heq, hset.starters] at hc'
      refine Or.inl ⟨?_, hc'⟩
      rintro rfl
      exact heq (htags.distinct c' c id' (by rw [hc']; rfl) (by rw [hpc]; rfl))
  · intro id' u hid'
    have hdispatcher : s.dispatcher.handles = some id' := by
      simp only [State.setStarter, State.start] at hid'
      split at hid' <;> exact hid'
    have hsame : ((s.start id t .connecting).setStarter c (.lock id)).dispatcher =
        s.dispatcher := by
      simp only [State.setStarter, State.start]
      split <;> rfl
    rw [hsame]
    refine ⟨fun _ hu => h.expects id' u hdispatcher hu, ?_⟩
    rintro rfl
    exact absurd hdispatcher (htags.fresh c id' t hpc ht).2

theorem Stages.step {l : Label T M C} (h : Stages api s) (htags : Tags s) (hfresh : Fresh s l)
    (hs : Listener.step api s l = some s') : Stages api s' := by
  have hkeep : ∀ c pc, (∀ id, pc ≠ .request id) → ∀ c' id,
      (s.setStarter c pc).starters c' = .request id → s.starters c' = .request id := by
    intro c pc hpc c' id hc'
    by_cases heq : c' = c
    · subst heq
      simp only [State.setStarter, Function.update_self] at hc'
      exact absurd hc' (hpc id)
    · simpa only [State.setStarter, Function.update_of_ne heq] using hc'
  cases step_moves hs with
  | enterAdd t m hpc => exact h.frame rfl (hkeep _ _ (by simp)) h.expects
  | construct c m hpc => exact h.construct htags hpc (hfresh ⟨m, hpc⟩)
  | request c id t hpc ht =>
      exact (h.request htags hpc ht).frame rfl (fun _ _ hc => hc) (h.request htags hpc ht).expects
  | lock c id hpc hfree => exact h.frame rfl (hkeep _ _ (by simp)) h.expects
  | insert c id hpc => exact h.frame rfl (hkeep _ _ (by simp)) h.expects
  | unlock c id hpc => exact h.frame rfl (hkeep _ _ (by simp)) h.expects
  | arrives id call t ht hrpc hserver hmethod hnew =>
      have hsound := h.sound id t ht
      have hstate := (hsound.connecting hrpc).1
      refine h.setBusy htags ht (by simp [hrpc]) rfl rfl rfl ?_
      constructor <;> simp [hstate, hmethod]
  | completes id ok t ht hrpc =>
      have hsound := h.sound id t ht
      refine h.setBusy htags ht (by rcases hrpc with hrpc | hrpc <;> simp [hrpc]) rfl rfl rfl ?_
      refine ⟨hsound.served, by simp, by simp, ?_, hsound.method⟩
      intro ok' hok'
      rcases hrpc with hrpc | ⟨hrpc, _, hfailed⟩
      · exact Or.inl (hsound.finishing hrpc)
      · simp only [Rpc.ready.injEq] at hok'
        rcases hsound.connecting hrpc with ⟨hstate, hrequest⟩
        exact Or.inr ⟨hstate, by simp [← hok', hfailed, hrequest]⟩
  | next id ok t hpc ht hrpc =>
      have hsound := h.sound id t ht
      have hready := hsound.ready ok hrpc
      refine h.setSession rfl ⟨hsound.served, by simp, by simp, by simp, hsound.method⟩ ?_ ?_
      · intro c id' hc
        refine Or.inl ⟨?_, hc⟩
        rintro rfl
        exact htags.requested_of_busy ht (by simp [hrpc]) c hc
      · intro id' u hid'
        simp only [EventPc.handles, Option.some.injEq] at hid'
        exact ⟨fun hne => absurd hid'.symm hne, fun _ => hready⟩
  | handled id ok t hpc ht hreact =>
      exact h.frame rfl (fun _ _ hc => hc) (by simp [EventPc.handles])
  | done id ok t hpc ht hreact =>
      refine h.frame rfl (fun _ _ hc => hc) ?_
      intro id' u hid' hu
      simp only [EventPc.handles, Option.some.injEq] at hid'
      subst hid'
      rw [ht, Option.some.injEq] at hu
      subst hu
      have hexpects := h.expects id t (by rw [hpc]; rfl) ht
      rw [hpc] at hexpects
      rcases hexpects with hfinish | ⟨hstate, hrequest⟩
      · exact Or.inl hfinish
      · rcases (h.sound id t ht).reacts ok with ⟨_, _, haccept⟩ | ⟨hfailed | hfailed, _⟩
        · rw [haccept] at hreact
          contradiction
        · exact Or.inl hfailed
        · exact Or.inr ⟨hstate, by simpa [hfailed] using hrequest⟩
  | accept id ok t hpc ht hreact =>
      refine h.frame rfl (hkeep _ _ (by simp)) ?_
      intro id' u hid' hu
      simp only [EventPc.handles, Option.some.injEq] at hid'
      subst hid'
      rw [ht, Option.some.injEq] at hu
      subst hu
      have hexpects := h.expects id t (by rw [hpc]; rfl) ht
      rw [hpc] at hexpects
      rcases (h.sound id t ht).reacts ok with ⟨hstate, hok, _⟩ | ⟨_, hreturns⟩
      · rcases hexpects with hfinish | ⟨_, hrequest⟩
        · simp [hstate] at hfinish
        · exact ⟨hstate, hrequest.mp hok⟩
      · rw [hreturns] at hreact
        contradiction
  | cancel id ok t hpc ht hreact =>
      rcases (h.sound id t ht).reacts ok with ⟨_, _, haccept⟩ | ⟨_, hreturns⟩
      · rw [haccept] at hreact
        contradiction
      · rw [hreturns] at hreact
        contradiction
  | added id hpc hadded =>
      refine h.frame rfl (fun _ _ hc => hc) ?_
      intro id' u hid' hu
      have hexpects := h.expects id' u (by rw [hpc]; exact hid') hu
      rwa [hpc] at hexpects
  | respond id t hpc ht =>
      have hhandles : s.dispatcher.handles = some id := by rw [hpc]; rfl
      have hexpects := h.expects id t hhandles ht
      rw [hpc] at hexpects
      have hidle := htags.idle hhandles ht
      refine h.setHandled htags hhandles rfl rfl ?_ (Or.inr ⟨rfl, rfl, hexpects.2⟩)
      exact ⟨Or.inr rfl, by simp [hidle], fun _ => rfl, fun _ _ => Or.inl rfl,
        (h.sound id t ht).method⟩
  | finish id t hpc ht =>
      have hhandles : s.dispatcher.handles = some id := by rw [hpc]; rfl
      have hexpects := h.expects id t hhandles ht
      rw [hpc] at hexpects
      rcases start_session s id t .finishing with ⟨t', hset⟩
      refine h.setHandled htags hhandles hset.session hset.starters ?_ (Or.inl rfl)
      rw [hset.after]
      split
      · exact h.sound id t ht
      · exact ⟨Or.inr hexpects.1, by simp, fun _ => hexpects.1, fun _ _ => Or.inl hexpects.1,
          (h.sound id t ht).method⟩
  | shutdown id t hpc ht =>
      have hhandles : s.dispatcher.handles = some id := by rw [hpc]; rfl
      have hexpects := h.expects id t hhandles ht
      rw [hpc] at hexpects
      rw [(h.sound id t ht).tryCancel, setSession_self ht]
      refine h.frame rfl (fun _ _ hc => hc) ?_
      intro id' u hid' hu
      have hexpects := h.expects id' u (by rw [hpc]; exact hid') hu
      rwa [hpc] at hexpects
  | lockErase id hpc =>
      refine h.frame rfl (fun _ _ hc => hc) ?_
      intro id' u hid' hu
      have hexpects := h.expects id' u (by rw [hpc]; exact hid') hu
      rwa [hpc] at hexpects
  | erase id hpc => exact h.frame rfl (fun _ _ hc => hc) (by simp [EventPc.handles])
  | unlockErase hpc => exact h.frame rfl (fun _ _ hc => hc) (by simp [EventPc.handles])
  | exit hpc => exact h.frame rfl (fun _ _ hc => hc) (by simp [EventPc.handles])
  | visit id rest t hpc ht =>
      rw [(h.sound id t ht).tryCancel, setSession_self ht]
      exact h.frame rfl (fun _ _ hc => hc) h.expects
  | ignore id ok t hpc ht hrpc =>
      have hsound := h.sound id t ht
      exact h.setBusy htags ht (by simp [hrpc]) rfl rfl rfl
        ⟨hsound.served, by simp, by simp, by simp, hsound.method⟩
  | enterStop | stopLock | visited | running | server | wait | queue | join | drain =>
      exact h.frame rfl (fun _ _ hc => hc) h.expects

/-! ## Every reachable state -/

/-- What is known of every state. -/
structure Known (api : Api M C R) (s : State T M C R) : Prop where
  nested : s.Nested
  tags : Tags s
  stages : Stages api s

omit [DecidableEq T] [DecidableEq M] [DecidableEq C] in
theorem known_initial : Known api (State.initial : State T M C R) :=
  ⟨Or.inr rfl, tags_initial, stages_initial⟩

theorem Known.step {l : Label T M C} (h : Known api s) (hfresh : Fresh s l)
    (hs : Listener.step api s l = some s') : Known api s' :=
  ⟨h.nested.step hs, h.tags.step h.nested hfresh hs, h.stages.step h.tags hfresh hs⟩

theorem known_reachable (hr : Reach (Listener.step api) Fresh State.initial s) :
    Known api s := by
  apply hr.invariant known_initial
  intro t l t' ht hfresh hs
  exact ht.step hfresh hs

/-- A tag never outlives its session: while gRPC holds an operation of a session, or
the dispatcher handles its completion, a shared pointer keeps the session alive, and the
two never hold the tag of one session together. -/
theorem tags_outlived (hr : Reach (Listener.step api) Fresh State.initial s) (id : Nat) :
    (∀ t, s.session id = some t → t.rpc ≠ .idle →
      s.Owned id ∧ s.dispatcher.handles ≠ some id) ∧
      (s.dispatcher.handles = some id → s.Owned id ∧ ∃ t, s.session id = some t ∧ t.rpc = .idle) :=
  ⟨(known_reachable hr).tags.busy id, (known_reachable hr).tags.handled id⟩

/-- While the call of the first session is handled the map keeps the session alive. -/
theorem tags_outlived_handled : ∃ s : State Unit Method Call Response,
    Reach (Listener.step dtService) Fresh State.initial s ∧
      s.dispatcher.handles = some 1 ∧ s.Owned 1 := by
  have hrun : (run (Listener.step dtService) Fresh
      (State.initial : State Unit Method Call Response)
      (adds .command ++ [.arrives 1 (.command, 0), .next 1])).map
        (fun s => s.dispatcher.handles) = some (some 1) := by decide
  rcases exists_reach_of_run hrun with ⟨s, hs, hhandles⟩
  exact ⟨s, hs, hhandles, ((tags_outlived hs 1).2 hhandles).1⟩

end Listener
end Service
end DAQ
end DtCore
