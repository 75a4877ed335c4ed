import DtCore.DAQ.Service.Calls
import DtCore.Foundation.Mutex

/-!
# Calls that complete before they are inserted

`RemoveCall` erases what is in the map when it holds the mutex.  The constructor
of a call hands its RPC to gRPC before `StartCall` locks the mutex, so the last
completion can be handled first: the erasure then finds nothing, and the
insertion that follows is final.

Main results:

- Structure `Ledger`: where a call stands between its construction and its
  removal.
- Theorem `ledger_reachable`: every reachable state satisfies it.
- Theorem `forgets_completed_iff`: a completed call leaves the table exactly if it
  was inserted when `RemoveCall` erased it.
-/

namespace DtCore
namespace DAQ
namespace Service

open Foundation

variable {T : Type}

/-! ## Where a call stands -/

/-- The call that a `StartCall` has constructed and not yet inserted. -/
def StartPc.object : StartPc → Option Nat
  | .issue call => some call
  | .lock call => some call
  | .insert call => some call
  | _ => none

/-- The call whose completion the dispatcher handles. -/
def EventPc.call : EventPc → Option Nat
  | .handle call => some call
  | .shutdown call => some call
  | .lock call => some call
  | .erase call => some call
  | _ => none

/-- The call that the dispatcher is about to erase. -/
def EventPc.removing : EventPc → Option Nat
  | .shutdown call => some call
  | .lock call => some call
  | .erase call => some call
  | _ => none

/-- The dispatcher erases the call whose completion it handles. -/
theorem EventPc.call_of_removing {pc : EventPc} {call : Nat} (h : pc.removing = some call) :
    pc.call = some call := by
  cases pc with
  | next | handle | unlock => contradiction
  | shutdown | lock | erase => exact h

/-- A thread holds the mutex of the table. -/
def Inside (s : State T) : Owner T → Prop
  | .starter c => (∃ call, s.starters c = .insert call) ∨ ∃ call, s.starters c = .unlock call
  | .dispatcher => (∃ call, s.dispatcher = .erase call) ∨ ∃ call, s.dispatcher = .unlock call

/-- Some `StartCall` will still insert the call. -/
def Inserting (s : State T) (call : Nat) : Prop :=
  ∃ c, (s.starters c).object = some call

/-- What is known of the calls in every state. -/
structure Ledger (s : State T) : Prop where
  small : s.constructed < 2 ^ 64
  starting_le : ∀ call, Inserting s call → call ≤ s.constructed
  alive_le : ∀ call, call ∈ s.alive → call ≤ s.constructed
  stored : ∀ id call, s.calls id = some call →
    id = callId call ∧ call ≤ s.constructed ∧ ¬ Inserting s call
  unique : ∀ c c' call, (s.starters c).object = some call →
    (s.starters c').object = some call → c = c'
  unissued : ∀ c call, s.starters c = .issue call →
    call ∉ s.alive ∧ s.dispatcher.call ≠ some call
  handling : ∀ call, s.dispatcher = .handle call → call ∈ s.alive
  removing : ∀ call, s.dispatcher.removing = some call →
    call ∉ s.alive ∧ call ≤ s.constructed
  waiting : ∀ call, call ∈ s.alive ∨ s.dispatcher.removing = some call →
    Inserting s call ∨ s.calls (callId call) = some call

theorem callId_of_lt {call : Nat} (h : call < 2 ^ 64) : callId call = call :=
  Nat.mod_eq_of_lt h

theorem ledger_initial : Ledger (initial : State T) where
  small := by simp [initial]
  starting_le := by simp [initial, Inserting, StartPc.object]
  alive_le := by simp [initial]
  stored := by simp [initial]
  unique := by simp [initial, StartPc.object]
  unissued := by simp [initial]
  handling := by simp [initial]
  removing := by simp [initial, EventPc.removing]
  waiting := by simp [initial, EventPc.removing]

theorem Ledger.busy_le {s : State T} (h : Ledger s) {call : Nat}
    (hcall : s.dispatcher.call = some call) : call ≤ s.constructed := by
  cases hd : s.dispatcher with
  | next | unlock x => simp [hd, EventPc.call] at hcall
  | handle x =>
      have hx : x = call := by simpa [hd, EventPc.call] using hcall
      exact h.alive_le call (hx ▸ h.handling x hd)
  | shutdown x | lock x | erase x =>
      exact (h.removing call (by simpa [hd, EventPc.call, EventPc.removing] using hcall)).2

/-! ## Steps that move no call -/

/-- A step that constructs, inserts, completes and erases nothing. -/
structure Frame (s s' : State T) : Prop where
  constructed : s'.constructed = s.constructed
  calls : s'.calls = s.calls
  alive : s'.alive = s.alive
  object : ∀ c, (s'.starters c).object = (s.starters c).object
  issue : ∀ c call, s'.starters c = .issue call → s.starters c = .issue call
  call : ∀ call, s'.dispatcher.call = some call → s.dispatcher.call = some call
  handle : ∀ call, s'.dispatcher = .handle call → s.dispatcher = .handle call
  removing : ∀ call, s'.dispatcher.removing = some call → s.dispatcher.removing = some call

theorem Frame.inserting {s s' : State T} (hf : Frame s s') (call : Nat) :
    Inserting s' call ↔ Inserting s call := by
  simp only [Inserting, hf.object]

theorem Ledger.frame {s s' : State T} (h : Ledger s) (hf : Frame s s') : Ledger s' where
  small := by
    rw [hf.constructed]
    exact h.small
  starting_le := by
    intro call hcall
    rw [hf.constructed]
    exact h.starting_le call ((hf.inserting call).mp hcall)
  alive_le := by
    rw [hf.alive, hf.constructed]
    exact h.alive_le
  stored := by
    intro id call hcall
    rw [hf.calls] at hcall
    rw [hf.inserting, hf.constructed]
    exact h.stored id call hcall
  unique := by
    intro c c' call hc hc'
    rw [hf.object] at hc hc'
    exact h.unique c c' call hc hc'
  unissued := by
    intro c call hc
    rcases h.unissued c call (hf.issue c call hc) with ⟨halive, hbusy⟩
    rw [hf.alive]
    exact ⟨halive, fun hcall => hbusy (hf.call call hcall)⟩
  handling := by
    intro call hcall
    rw [hf.alive]
    exact h.handling call (hf.handle call hcall)
  removing := by
    intro call hcall
    rw [hf.alive, hf.constructed]
    exact h.removing call (hf.removing call hcall)
  waiting := by
    intro call hcall
    rw [hf.inserting, hf.calls]
    apply h.waiting
    rw [hf.alive] at hcall
    exact hcall.imp_right (hf.removing call)

section Starters

variable [DecidableEq T]

@[simp]
theorem setStarter_self (s : State T) (c : Starter T) (pc : StartPc) :
    (s.setStarter c pc).starters c = pc := by
  simp [State.setStarter]

theorem setStarter_ne (s : State T) {c c' : Starter T} (pc : StartPc) (hne : c' ≠ c) :
    (s.setStarter c pc).starters c' = s.starters c' := by
  simp [State.setStarter, hne]

/-- A `StartCall` moves on without another call in its hands. -/
theorem object_setStarter {s : State T} {c : Starter T} {pc : StartPc}
    (hpc : pc.object = (s.starters c).object) (c' : Starter T) :
    ((s.setStarter c pc).starters c').object = (s.starters c').object := by
  by_cases hne : c' = c
  · rw [hne, setStarter_self, hpc]
  · rw [setStarter_ne s pc hne]

theorem issue_setStarter {s : State T} {c c' : Starter T} {pc : StartPc} {call : Nat}
    (hpc : pc ≠ .issue call) (hc' : (s.setStarter c pc).starters c' = .issue call) :
    s.starters c' = .issue call := by
  by_cases hne : c' = c
  · rw [hne, setStarter_self] at hc'
    exact absurd hc' hpc
  · rwa [setStarter_ne s pc hne] at hc'

theorem Frame.starter {s s' : State T} {c : Starter T} {pc : StartPc}
    (hpc : pc.object = (s.starters c).object) (hissue : ∀ call, pc ≠ .issue call)
    (hstarters : s'.starters = (s.setStarter c pc).starters)
    (hconstructed : s'.constructed = s.constructed) (hcalls : s'.calls = s.calls)
    (halive : s'.alive = s.alive) (hdispatcher : s'.dispatcher = s.dispatcher) : Frame s s' where
  constructed := hconstructed
  calls := hcalls
  alive := halive
  object := by
    rw [hstarters]
    exact object_setStarter hpc
  issue := by
    intro c' call hc'
    rw [hstarters] at hc'
    exact issue_setStarter (hissue call) hc'
  call := by simp [hdispatcher]
  handle := by simp [hdispatcher]
  removing := by simp [hdispatcher]

/-! ## Construction, issue and insertion -/

theorem object_of_ne {s : State T} {c c' : Starter T} {pc : StartPc} {call : Nat}
    (hne : c' ≠ c) (hc' : ((s.setStarter c pc).starters c').object = some call) :
    (s.starters c').object = some call := by
  rwa [setStarter_ne s pc hne] at hc'

/-- A call in somebody's hands after one `StartCall` has moved on. -/
theorem inserting_setStarter {s : State T} {c : Starter T} {pc : StartPc} {call : Nat}
    (h : Inserting (s.setStarter c pc) call) : pc.object = some call ∨ Inserting s call := by
  rcases h with ⟨c', hc'⟩
  by_cases hne : c' = c
  · rw [hne, setStarter_self] at hc'
    exact .inl hc'
  · exact .inr ⟨c', object_of_ne hne hc'⟩

/-- The new call has a number that no call had before. -/
theorem Ledger.construct {s : State T} {c : Starter T} (h : Ledger s)
    (hc : s.starters c = .construct) (hfresh : s.constructed + 1 < 2 ^ 64) :
    Ledger { s.setStarter c (.issue (s.constructed + 1)) with
      constructed := s.constructed + 1 } := by
  have hnew : ∀ call, Inserting (s.setStarter c (.issue (s.constructed + 1))) call →
      call = s.constructed + 1 ∨ Inserting s call := by
    intro call hcall
    rcases inserting_setStarter hcall with hpc | hold
    · exact .inl (Option.some.inj hpc).symm
    · exact .inr hold
  have hkeep : ∀ call, Inserting s call →
      Inserting (s.setStarter c (.issue (s.constructed + 1))) call := by
    intro call hcall
    rcases hcall with ⟨c', hc'⟩
    have hne : c' ≠ c := by
      intro heq
      simp [heq, hc, StartPc.object] at hc'
    exact ⟨c', by rwa [setStarter_ne s _ hne]⟩
  have hlast : ∀ c', (s.starters c').object ≠ some (s.constructed + 1) := by
    intro c' hc'
    have hle := h.starting_le _ ⟨c', hc'⟩
    omega
  constructor
  case small => exact hfresh
  case starting_le =>
    intro call hcall
    rcases hnew call hcall with heq | hold
    · exact Nat.le_of_eq heq
    · exact Nat.le_succ_of_le (h.starting_le call hold)
  case alive_le =>
    intro call hcall
    exact Nat.le_succ_of_le (h.alive_le call hcall)
  case stored =>
    intro id call hcall
    rcases h.stored id call hcall with ⟨hid, hle, hgone⟩
    constructor
    · exact hid
    · constructor
      · exact Nat.le_succ_of_le hle
      · intro hcall'
        rcases hnew call hcall' with heq | hold
        · omega
        · exact hgone hold
  case unique =>
    intro c₁ c₂ call h₁ h₂
    by_cases hne₁ : c₁ = c <;> by_cases hne₂ : c₂ = c
    · rw [hne₁, hne₂]
    · rw [hne₁] at h₁
      have heq : s.constructed + 1 = call := by simpa [StartPc.object] using h₁
      exact absurd (object_of_ne hne₂ h₂) (heq ▸ hlast c₂)
    · rw [hne₂] at h₂
      have heq : s.constructed + 1 = call := by simpa [StartPc.object] using h₂
      exact absurd (object_of_ne hne₁ h₁) (heq ▸ hlast c₁)
    · exact h.unique c₁ c₂ call (object_of_ne hne₁ h₁) (object_of_ne hne₂ h₂)
  case unissued =>
    intro c' call hc'
    by_cases hne : c' = c
    · have heq : s.constructed + 1 = call := by
        rw [hne] at hc'
        simpa using hc'
      have halive : call ∉ s.alive := by
        intro hcall
        have hle := h.alive_le call hcall
        omega
      constructor
      · exact halive
      · intro hbusy
        have hle := h.busy_le hbusy
        omega
    · exact h.unissued c' call (by rwa [setStarter_ne s _ hne] at hc')
  case handling => exact h.handling
  case removing =>
    intro call hcall
    rcases h.removing call hcall with ⟨halive, hle⟩
    exact ⟨halive, Nat.le_succ_of_le hle⟩
  case waiting =>
    intro call hcall
    exact (h.waiting call hcall).imp_left (hkeep call)

/-- The RPC of a constructed call is handed to gRPC. -/
theorem Ledger.issue {s : State T} {c : Starter T} {call : Nat} (h : Ledger s)
    (hc : s.starters c = .issue call) :
    Ledger { s.setStarter c (.lock call) with alive := call :: s.alive } := by
  have hobject : (StartPc.lock call).object = (s.starters c).object := by
    rw [hc]
    rfl
  have hsame : ∀ x, Inserting (s.setStarter c (.lock call)) x ↔ Inserting s x := by
    intro x
    simp only [Inserting, object_setStarter hobject]
  have hcall : Inserting s call := ⟨c, by rw [hc]; rfl⟩
  rcases h.unissued c call hc with ⟨halive, hbusy⟩
  constructor
  case small => exact h.small
  case starting_le =>
    intro x hx
    exact h.starting_le x ((hsame x).mp hx)
  case alive_le =>
    intro x hx
    rcases List.mem_cons.mp hx with heq | hold
    · rw [heq]
      exact h.starting_le call hcall
    · exact h.alive_le x hold
  case stored =>
    intro id x hx
    rcases h.stored id x hx with ⟨hid, hle, hgone⟩
    exact ⟨hid, hle, fun hx' => hgone ((hsame x).mp hx')⟩
  case unique =>
    intro c₁ c₂ x h₁ h₂
    rw [object_setStarter hobject] at h₁ h₂
    exact h.unique c₁ c₂ x h₁ h₂
  case unissued =>
    intro c' x hc'
    have hold : s.starters c' = .issue x := issue_setStarter (by simp) hc'
    rcases h.unissued c' x hold with ⟨hx, hbusy'⟩
    constructor
    · intro hmem
      rcases List.mem_cons.mp hmem with heq | hx'
      · -- two threads would hold the call
        have hcc : c' = c := h.unique c' c call (by rw [hold, heq]; rfl) (by rw [hc]; rfl)
        rw [hcc] at hc'
        change (s.setStarter c (.lock call)).starters c = .issue x at hc'
        simp at hc'
      · exact hx hx'
    · exact hbusy'
  case handling =>
    intro x hx
    exact List.mem_cons_of_mem call (h.handling x hx)
  case removing =>
    intro x hx
    rcases h.removing x hx with ⟨hx', hle⟩
    constructor
    · intro hmem
      rcases List.mem_cons.mp hmem with heq | hold
      · have hremoving : s.dispatcher.removing = some call := by rw [← heq]; exact hx
        exact hbusy (EventPc.call_of_removing hremoving)
      · exact hx' hold
    · exact hle
  case waiting =>
    intro x hx
    rcases hx with hmem | hremoving
    · rcases List.mem_cons.mp hmem with heq | hold
      · exact .inl ((hsame x).mpr (heq ▸ hcall))
      · exact (h.waiting x (.inl hold)).imp_left (hsame x).mpr
    · exact (h.waiting x (.inr hremoving)).imp_left (hsame x).mpr

/-- The call is inserted into the map. -/
theorem Ledger.insert {s : State T} {c : Starter T} {call : Nat} (h : Ledger s)
    (hc : s.starters c = .insert call) :
    Ledger { s.setStarter c (.unlock call) with
      calls := Function.update s.calls (callId call) (some call) } := by
  have hobject : (s.starters c).object = some call := by
    rw [hc]
    rfl
  have hold : ∀ x, Inserting (s.setStarter c (.unlock call)) x → Inserting s x := by
    intro x hx
    rcases inserting_setStarter hx with hpc | hx'
    · contradiction
    · exact hx'
  have hdone : ¬ Inserting (s.setStarter c (.unlock call)) call := by
    intro hx
    rcases hx with ⟨c', hc'⟩
    by_cases hne : c' = c
    · rw [hne, setStarter_self] at hc'
      contradiction
    · exact hne (h.unique c' c call (object_of_ne hne hc') hobject)
  have hkeep : ∀ x, x ≠ call → Inserting s x →
      Inserting (s.setStarter c (.unlock call)) x := by
    intro x hx hins
    rcases hins with ⟨c', hc'⟩
    have hne : c' ≠ c := by
      intro heq
      rw [heq, hobject] at hc'
      exact hx (Option.some.inj hc').symm
    exact ⟨c', by rwa [setStarter_ne s _ hne]⟩
  have hlt := fun x (hx : x ≤ s.constructed) => callId_of_lt (Nat.lt_of_le_of_lt hx h.small)
  have hle := h.starting_le call ⟨c, hobject⟩
  constructor
  case small => exact h.small
  case starting_le =>
    intro x hx
    exact h.starting_le x (hold x hx)
  case alive_le => exact h.alive_le
  case stored =>
    intro id x hx
    by_cases hid : id = callId call
    · simp only [hid, Function.update_self, Option.some.injEq] at hx
      rw [← hx]
      exact ⟨hid, hle, hdone⟩
    · simp only [Function.update_of_ne hid] at hx
      rcases h.stored id x hx with ⟨hx', hxle, hgone⟩
      exact ⟨hx', hxle, fun hins => hgone (hold x hins)⟩
  case unique =>
    intro c₁ c₂ x h₁ h₂
    have hne : ∀ c', ((s.setStarter c (.unlock call)).starters c').object = some x →
        c' ≠ c := by
      intro c' hc' heq
      rw [heq, setStarter_self] at hc'
      contradiction
    exact h.unique c₁ c₂ x (object_of_ne (hne c₁ h₁) h₁) (object_of_ne (hne c₂ h₂) h₂)
  case unissued =>
    intro c' x hc'
    exact h.unissued c' x (issue_setStarter (by simp) hc')
  case handling => exact h.handling
  case removing => exact h.removing
  case waiting =>
    intro x hx
    by_cases heq : x = call
    · rw [heq]
      exact .inr (by simp)
    · rcases h.waiting x hx with hins | hstored
      · exact .inl (hkeep x heq hins)
      · have hxle := (h.stored _ x hstored).2.1
        have hid : callId x ≠ callId call := by
          rw [hlt x hxle, hlt call hle]
          exact heq
        exact .inr (by simpa [Function.update_of_ne hid] using hstored)

end Starters

/-! ## Completion and removal -/

theorem Ledger.deliver {s : State T} {call : Nat} (h : Ledger s) (hcall : call ∈ s.alive) :
    Ledger { s with dispatcher := .handle call } where
  small := h.small
  starting_le := h.starting_le
  alive_le := h.alive_le
  stored := h.stored
  unique := h.unique
  unissued := by
    intro c x hx
    rcases h.unissued c x hx with ⟨halive, _⟩
    constructor
    · exact halive
    · intro hbusy
      have heq : call = x := Option.some.inj hbusy
      exact halive (heq ▸ hcall)
  handling := by
    intro x hx
    cases hx
    exact hcall
  removing := by
    intro x hx
    contradiction
  waiting := by
    intro x hx
    rcases hx with halive | hremoving
    · exact h.waiting x (.inl halive)
    · contradiction

/-- The handler has returned `false`: no completion of the call follows. -/
theorem Ledger.finish {s : State T} {call : Nat} {pc : EventPc} (h : Ledger s)
    (hd : s.dispatcher = .handle call) (hpc : pc = .lock call ∨ pc = .shutdown call) :
    Ledger { s with dispatcher := pc, alive := s.alive.filter (· ≠ call) } := by
  have hmem : ∀ x, x ∈ s.alive.filter (· ≠ call) ↔ x ∈ s.alive ∧ x ≠ call := by
    intro x
    simp
  have hremoving : ∀ x, pc.removing = some x → x = call := by
    intro x hx
    rcases hpc with hpc | hpc
    · rw [hpc] at hx
      exact (Option.some.inj hx).symm
    · rw [hpc] at hx
      exact (Option.some.inj hx).symm
  have hbusy : ∀ x, pc.call = some x → s.dispatcher.call = some x := by
    intro x hx
    rcases hpc with hpc | hpc <;> rw [hpc] at hx <;> rw [hd] <;> exact hx
  have hcall := h.handling call hd
  constructor
  case small => exact h.small
  case starting_le => exact h.starting_le
  case alive_le =>
    intro x hx
    exact h.alive_le x ((hmem x).mp hx).1
  case stored => exact h.stored
  case unique => exact h.unique
  case unissued =>
    intro c x hx
    rcases h.unissued c x hx with ⟨halive, hold⟩
    exact ⟨fun hx' => halive ((hmem x).mp hx').1, fun hx' => hold (hbusy x hx')⟩
  case handling =>
    intro x hx
    change pc = .handle x at hx
    rcases hpc with hpc | hpc <;> rw [hpc] at hx <;> contradiction
  case removing =>
    intro x hx
    rw [hremoving x hx]
    exact ⟨fun hx' => ((hmem call).mp hx').2 rfl, h.alive_le call hcall⟩
  case waiting =>
    intro x hx
    apply h.waiting
    apply Or.inl
    rcases hx with halive | hx
    · exact ((hmem x).mp halive).1
    · rw [hremoving x hx]
      exact hcall

/-- The call is erased from the map. -/
theorem Ledger.erase {s : State T} {call : Nat} (h : Ledger s)
    (hd : s.dispatcher = .erase call) :
    Ledger { s with
      calls := Function.update s.calls (callId call) none
      dispatcher := .unlock call } := by
  rcases h.removing call (by rw [hd]; rfl) with ⟨hdead, hle⟩
  constructor
  case small => exact h.small
  case starting_le => exact h.starting_le
  case alive_le => exact h.alive_le
  case stored =>
    intro id x hx
    by_cases hid : id = callId call
    · simp [hid] at hx
    · exact h.stored id x (by simpa [Function.update_of_ne hid] using hx)
  case unique => exact h.unique
  case unissued =>
    intro c x hx
    exact ⟨(h.unissued c x hx).1, by simp [EventPc.call]⟩
  case handling =>
    intro x hx
    contradiction
  case removing =>
    intro x hx
    contradiction
  case waiting =>
    intro x hx
    rcases hx with halive | hremoving
    · rcases h.waiting x (.inl halive) with hins | hstored
      · exact .inl hins
      · have hne : x ≠ call := by
          intro heq
          exact hdead (heq ▸ halive)
        have hid : callId x ≠ callId call := by
          rw [callId_of_lt (Nat.lt_of_le_of_lt (h.alive_le x halive) h.small),
            callId_of_lt (Nat.lt_of_le_of_lt hle h.small)]
          exact hne
        exact .inr (by simpa [Function.update_of_ne hid] using hstored)
    · contradiction

/-! ## Every state of a table -/

section Runs

variable [DecidableEq T]

theorem Ledger.enterStart {s s' : State T} {c : Starter T} (h : Ledger s)
    (hs : s.enterStart c = some s') : Ledger s' := by
  unfold State.enterStart at hs
  split at hs <;> rename_i hpc <;> simp only [Option.some.injEq, reduceCtorEq] at hs <;>
    subst hs <;>
    exact h.frame (.starter (by rw [hpc]; rfl) (by simp) rfl rfl rfl rfl rfl)

theorem Ledger.startStep {s s' : State T} {c : Starter T} (h : Ledger s)
    (hfresh : s.starters c = .construct → s.constructed + 1 < 2 ^ 64)
    (hs : s.startStep c = some s') : Ledger s' := by
  unfold State.startStep at hs
  split at hs <;> rename_i hpc
  · contradiction
  · -- construct
    simp only [Option.some.injEq] at hs
    subst hs
    exact h.construct hpc (hfresh hpc)
  · -- issue
    simp only [Option.some.injEq] at hs
    subst hs
    exact h.issue hpc
  · -- lock
    split at hs <;> simp only [Option.some.injEq, reduceCtorEq] at hs
    subst hs
    exact h.frame (.starter (by rw [hpc]; rfl) (by simp) rfl rfl rfl rfl rfl)
  · -- insert
    simp only [Option.some.injEq] at hs
    subst hs
    exact h.insert hpc
  · -- unlock
    simp only [Option.some.injEq] at hs
    subst hs
    exact h.frame (.starter (by rw [hpc]; rfl) (by simp) rfl rfl rfl rfl rfl)

omit [DecidableEq T] in
/-- The dispatcher moves on without another call in its hands. -/
theorem Ledger.dispatch {s s' : State T} (h : Ledger s)
    (hconstructed : s'.constructed = s.constructed) (hcalls : s'.calls = s.calls)
    (halive : s'.alive = s.alive) (hstarters : s'.starters = s.starters)
    (hcall : ∀ call, s'.dispatcher.call = some call → s.dispatcher.call = some call)
    (hhandle : ∀ call, s'.dispatcher ≠ .handle call)
    (hremoving : ∀ call, s'.dispatcher.removing = some call →
      s.dispatcher.removing = some call) : Ledger s' :=
  h.frame ⟨hconstructed, hcalls, halive, fun c => by rw [hstarters],
    fun c call hc => by rwa [hstarters] at hc, hcall, fun call hd => absurd hd (hhandle call),
    hremoving⟩

omit [DecidableEq T] in
theorem Ledger.complete {kind : Kind} {s s' : State T} {again : Bool} (h : Ledger s)
    (hs : s.complete kind again = some s') : Ledger s' := by
  unfold State.complete at hs
  split at hs
  · rename_i call hd _
    split at hs <;> simp only [Option.some.injEq] at hs <;> subst hs
    · exact h.dispatch rfl rfl rfl rfl (by simp [EventPc.call]) (by simp)
        (by simp [EventPc.removing])
    · apply h.finish hd
      cases kind with
      | serviceCaller => exact .inl rfl
      | serviceListener => exact .inr rfl
  · contradiction

omit [DecidableEq T] in
theorem Ledger.eventStep {s s' : State T} (h : Ledger s) (hs : s.eventStep = some s') :
    Ledger s' := by
  unfold State.eventStep at hs
  split at hs <;> rename_i hd
  · contradiction
  · contradiction
  · -- shutdown
    simp only [Option.some.injEq] at hs
    subst hs
    exact h.dispatch rfl rfl rfl rfl (by simp [hd, EventPc.call]) (by simp)
      (by simp [hd, EventPc.removing])
  · -- lock
    split at hs <;> simp only [Option.some.injEq, reduceCtorEq] at hs
    subst hs
    exact h.dispatch rfl rfl rfl rfl (by simp [hd, EventPc.call]) (by simp)
      (by simp [hd, EventPc.removing])
  · -- erase
    simp only [Option.some.injEq] at hs
    subst hs
    exact h.erase hd
  · -- unlock
    simp only [Option.some.injEq] at hs
    subst hs
    exact h.dispatch rfl rfl rfl rfl (by simp [EventPc.call]) (by simp)
      (by simp [EventPc.removing])

omit [DecidableEq T] in
theorem deliver_spec {s s' : State T} {call : Nat} (hs : s.deliver call = some s') :
    call ∈ s.alive ∧ s' = { s with dispatcher := .handle call } := by
  unfold State.deliver at hs
  split at hs
  · split at hs
    · rename_i hcall
      exact ⟨hcall, (Option.some.inj hs).symm⟩
    · contradiction
  · contradiction

theorem Ledger.step {kind : Kind} {s s' : State T} {l : Label T} (h : Ledger s)
    (hok : FreshIds s l) (hs : step kind s l = some s') : Ledger s' := by
  cases l with
  | start c => exact h.enterStart hs
  | starter c => exact h.startStep hok hs
  | deliver call =>
      rcases deliver_spec hs with ⟨hcall, rfl⟩
      exact h.deliver hcall
  | complete again => exact h.complete hs
  | event => exact h.eventStep hs

theorem Ledger.reach {kind : Kind} {s t : State T} (h : Ledger s)
    (hr : Reach (Service.step kind) FreshIds s t) : Ledger t := by
  induction hr with
  | start => exact h
  | step _ hok hs ih => exact ih.step hok hs

theorem ledger_reachable {kind : Kind} {s : State T}
    (hr : Reach (step kind) FreshIds initial s) : Ledger s :=
  ledger_initial.reach hr

/-! ## The mutex -/

/-- The thread that a label moves. -/
def Label.mover : Label T → Owner T
  | .start c => .starter c
  | .starter c => .starter c
  | .deliver _ => .dispatcher
  | .complete _ => .dispatcher
  | .event => .dispatcher

theorem inside_other {kind : Kind} {s s' : State T} {l : Label T}
    (hs : step kind s l = some s') (o : Owner T) (hne : o ≠ l.mover) :
    Inside s' o ↔ Inside s o := by
  have hsame : s'.starters = s.starters ∧ l.mover = .dispatcher ∨
      (∃ c pc, s'.starters = (s.setStarter c pc).starters ∧ l.mover = .starter c ∧
        s'.dispatcher = s.dispatcher) := by
    cases l with
    | start c =>
        simp only [Service.step, State.enterStart] at hs
        split at hs <;> simp only [Option.some.injEq, reduceCtorEq] at hs <;> subst hs <;>
          exact .inr ⟨_, _, rfl, rfl, rfl⟩
    | starter c =>
        simp only [Service.step, State.startStep] at hs
        split at hs <;> (try split at hs) <;>
          simp only [Option.some.injEq, reduceCtorEq] at hs <;> subst hs <;>
          exact .inr ⟨c, _, rfl, rfl, rfl⟩
    | deliver call =>
        rcases deliver_spec hs with ⟨_, rfl⟩
        exact .inl ⟨rfl, rfl⟩
    | complete again =>
        simp only [Service.step, State.complete] at hs
        split at hs <;> (try split at hs) <;>
          simp only [Option.some.injEq, reduceCtorEq] at hs <;> subst hs <;>
          exact .inl ⟨rfl, rfl⟩
    | event =>
        simp only [Service.step, State.eventStep] at hs
        split at hs <;> (try split at hs) <;>
          simp only [Option.some.injEq, reduceCtorEq] at hs <;> subst hs <;>
          exact .inl ⟨rfl, rfl⟩
  rcases hsame with ⟨hstarters, hmover⟩ | ⟨c, pc, hstarters, hmover, hdispatcher⟩
  · cases o with
    | starter c => rw [Inside, Inside, hstarters]
    | dispatcher => exact absurd hmover.symm hne
  · cases o with
    | starter c' =>
        have hcc : c' ≠ c := by
          intro heq
          exact hne (by rw [hmover, heq])
        rw [Inside, Inside, hstarters, setStarter_ne s pc hcc]
    | dispatcher => rw [Inside, Inside, hdispatcher]

theorem mutex_step {kind : Kind} {s s' : State T} {l : Label T}
    (hs : step kind s l = some s') : MutexStep Inside State.callListMtx s s' l.mover := by
  cases l with
  | start c =>
      simp only [Service.step, State.enterStart] at hs
      split at hs <;> simp only [Option.some.injEq, reduceCtorEq] at hs <;> subst hs <;>
        exact .outside rfl (by simp [Inside, Label.mover])
  | starter c =>
      simp only [Service.step, State.startStep] at hs
      split at hs <;> rename_i hpc
      · contradiction
      · -- construct
        simp only [Option.some.injEq] at hs
        subst hs
        exact .outside rfl (by simp [Inside, Label.mover])
      · -- issue
        simp only [Option.some.injEq] at hs
        subst hs
        exact .outside rfl (by simp [Inside, Label.mover])
      · -- lock
        split at hs <;> simp only [Option.some.injEq, reduceCtorEq] at hs
        rename_i hfree
        subst hs
        exact .lock hfree rfl
      · -- insert
        simp only [Option.some.injEq] at hs
        subst hs
        exact .inside rfl (by simp [Inside, Label.mover, hpc])
      · -- unlock
        simp only [Option.some.injEq] at hs
        subst hs
        exact .unlock (by simp [Inside, Label.mover, hpc]) (by simp [Inside, Label.mover])
  | deliver call =>
      rcases deliver_spec hs with ⟨_, rfl⟩
      exact .outside rfl (by simp [Inside, Label.mover])
  | complete again =>
      simp only [Service.step, State.complete] at hs
      split at hs <;> (try split at hs) <;>
        simp only [Option.some.injEq, reduceCtorEq] at hs <;> subst hs <;>
        exact .outside rfl (by cases kind <;> simp [Inside, Label.mover])
  | event =>
      simp only [Service.step, State.eventStep] at hs
      split at hs <;> rename_i hd
      · contradiction
      · contradiction
      · -- shutdown
        simp only [Option.some.injEq] at hs
        subst hs
        exact .outside rfl (by simp [Inside, Label.mover])
      · -- lock
        split at hs <;> simp only [Option.some.injEq, reduceCtorEq] at hs
        rename_i hfree
        subst hs
        exact .lock hfree rfl
      · -- erase
        simp only [Option.some.injEq] at hs
        subst hs
        exact .inside rfl (by simp [Inside, Label.mover, hd])
      · -- unlock
        simp only [Option.some.injEq] at hs
        subst hs
        exact .unlock (by simp [Inside, Label.mover, hd]) (by simp [Inside, Label.mover])

theorem guarded_reachable {kind : Kind} {s : State T} {ok : State T → Label T → Prop}
    (hr : Reach (step kind) ok initial s) : Guarded Inside State.callListMtx s := by
  apply hr.invariant
  · intro o ho
    cases o <;> simp [Inside, initial] at ho
  · intro t l t' h _ hs
    exact h.step (inside_other hs) (mutex_step hs)

/-! ## Calls that are gone -/

/-- The call has left the table and nobody will insert it. -/
structure Gone (s : State T) (call : Nat) : Prop where
  le : call ≤ s.constructed
  not_inserting : ¬ Inserting s call
  not_stored : s.calls (callId call) ≠ some call

omit [DecidableEq T] in
theorem Gone.getCall {s : State T} {call : Nat} (h : Gone s call) (hledger : Ledger s) :
    s.getCall (callId call) = none := by
  cases hx : s.calls (callId call) with
  | none => exact hx
  | some x =>
      rcases hledger.stored _ x hx with ⟨hid, hle, _⟩
      rw [callId_of_lt (Nat.lt_of_le_of_lt h.le hledger.small),
        callId_of_lt (Nat.lt_of_le_of_lt hle hledger.small)] at hid
      exact absurd (hid ▸ hx) h.not_stored

/-- A `StartCall` that moves on without the call leaves it gone. -/
theorem Gone.setStarter {s t : State T} {c : Starter T} {pc : StartPc} {call : Nat}
    (h : Gone s call) (hstarters : t.starters = (s.setStarter c pc).starters)
    (hle : s.constructed ≤ t.constructed) (hobject : pc.object = some call → Inserting s call)
    (hstored : t.calls (callId call) ≠ some call) : Gone t call where
  le := Nat.le_trans h.le hle
  not_inserting := by
    intro hins
    have hins' : Inserting (s.setStarter c pc) call := by
      unfold Inserting at hins ⊢
      rw [← hstarters]
      exact hins
    rcases inserting_setStarter hins' with heq | hold
    · exact h.not_inserting (hobject heq)
    · exact h.not_inserting hold
  not_stored := hstored

/-- A step inserts only what some `StartCall` holds, and a `StartCall` gets only a
new call. -/
theorem Gone.startStep {s s' : State T} {c : Starter T} {call : Nat} (h : Gone s call)
    (hs : s.startStep c = some s') : Gone s' call := by
  unfold State.startStep at hs
  split at hs <;> rename_i hpc
  · contradiction
  · -- construct
    simp only [Option.some.injEq] at hs
    subst hs
    refine h.setStarter rfl (Nat.le_succ _) ?_ h.not_stored
    intro hnew
    have hcall : s.constructed + 1 = call := Option.some.inj hnew
    have hle := h.le
    omega
  · -- issue
    simp only [Option.some.injEq] at hs
    subst hs
    exact h.setStarter rfl (Nat.le_refl _) (fun heq => ⟨c, by rw [hpc]; exact heq⟩) h.not_stored
  · -- lock
    split at hs <;> simp only [Option.some.injEq, reduceCtorEq] at hs
    subst hs
    exact h.setStarter rfl (Nat.le_refl _) (fun heq => ⟨c, by rw [hpc]; exact heq⟩) h.not_stored
  · -- insert
    rename_i x
    simp only [Option.some.injEq] at hs
    subst hs
    refine h.setStarter rfl (Nat.le_refl _) (fun heq => by contradiction) ?_
    intro hstored
    by_cases hid : callId call = callId x
    · have hx : x = call := by simpa [hid] using hstored
      exact h.not_inserting ⟨c, by rw [hpc, hx]; rfl⟩
    · exact h.not_stored (by simpa [Function.update_of_ne hid] using hstored)
  · -- unlock
    simp only [Option.some.injEq] at hs
    subst hs
    exact h.setStarter rfl (Nat.le_refl _) (fun heq => by contradiction) h.not_stored

theorem Gone.step {kind : Kind} {s s' : State T} {l : Label T} {call : Nat}
    (h : Gone s call) (hs : step kind s l = some s') : Gone s' call := by
  cases l with
  | start c =>
      simp only [Service.step, State.enterStart] at hs
      split at hs <;> simp only [Option.some.injEq, reduceCtorEq] at hs <;> subst hs <;>
        exact ⟨h.le, fun hins => h.not_inserting
          ((inserting_setStarter hins).resolve_left (by simp [StartPc.object])), h.not_stored⟩
  | starter c => exact h.startStep hs
  | deliver x =>
      rcases deliver_spec hs with ⟨_, rfl⟩
      exact ⟨h.le, h.not_inserting, h.not_stored⟩
  | complete again =>
      simp only [Service.step, State.complete] at hs
      split at hs <;> (try split at hs) <;>
        simp only [Option.some.injEq, reduceCtorEq] at hs <;> subst hs <;>
        exact ⟨h.le, h.not_inserting, h.not_stored⟩
  | event =>
      simp only [Service.step, State.eventStep] at hs
      split at hs
      case h_5 x _ =>
        -- erase
        simp only [Option.some.injEq] at hs
        subst hs
        constructor
        · exact h.le
        · exact h.not_inserting
        · intro hstored
          by_cases hid : callId call = callId x
          · simp [hid] at hstored
          · exact h.not_stored (by simpa [Function.update_of_ne hid] using hstored)
      all_goals
        (try split at hs) <;> simp only [Option.some.injEq, reduceCtorEq] at hs <;>
          subst hs <;> exact ⟨h.le, h.not_inserting, h.not_stored⟩

theorem Gone.reach {kind : Kind} {ok : State T → Label T → Prop} {s t : State T} {call : Nat}
    (h : Gone s call) (hr : Reach (Service.step kind) ok s t) : Gone t call := by
  induction hr with
  | start => exact h
  | step _ _ hs ih => exact ih.step hs

/-- An erasure that finds the call leaves it gone. -/
theorem Ledger.gone {kind : Kind} {s s' : State T} {call : Nat} (h : Ledger s)
    (hd : s.dispatcher = .erase call) (hstored : s.calls (callId call) = some call)
    (hs : Service.step kind s .event = some s') : Gone s' call := by
  rcases h.stored _ call hstored with ⟨_, hle, hgone⟩
  simp only [Service.step, State.eventStep, hd, Option.some.injEq] at hs
  subst hs
  exact ⟨hle, hgone, by simp⟩

omit [DecidableEq T] in
/-- While the dispatcher erases a call that is not in the table, a `StartCall`
waits for the mutex to insert it. -/
theorem Ledger.waits {s : State T} {call : Nat} (h : Ledger s)
    (hmutex : Guarded Inside State.callListMtx s) (hd : s.dispatcher = .erase call)
    (hstored : s.calls (callId call) ≠ some call) : ∃ c, s.starters c = .lock call := by
  rcases h.waiting call (.inr (by rw [hd]; rfl)) with ⟨c, hc⟩ | hold
  · cases hpc : s.starters c with
    | idle | construct | unlock x => simp [hpc, StartPc.object] at hc
    | issue x =>
        have hx : x = call := by simpa [hpc, StartPc.object] using hc
        exact absurd (by rw [hd, hx]; rfl) (h.unissued c x hpc).2
    | lock x =>
        have hx : x = call := by simpa [hpc, StartPc.object] using hc
        exact ⟨c, by rw [hpc, hx]⟩
    | insert x =>
        have howner : Owner.starter c = .dispatcher :=
          hmutex.unique (.inl ⟨x, hpc⟩) (.inl ⟨call, hd⟩)
        contradiction
  · exact absurd hold hstored

/-- The `StartCall` that waits inserts the completed call for good. -/
theorem inserted_after {kind : Kind} {s s' : State T} {c : Starter T} {call : Nat}
    (hd : s.dispatcher = .erase call) (hc : s.starters c = .lock call)
    (hs : Service.step kind s .event = some s') :
    ∃ t, Reach (Service.step kind) FreshIds s' t ∧ call ∈ t.returned ∧ call ∈ t.handled ∧
      t.getCall (callId call) = some call := by
  simp only [Service.step, State.eventStep, hd, Option.some.injEq] at hs
  -- the dispatcher unlocks; the StartCall locks, inserts and returns
  have hrun : ∃ t, run (Service.step kind) FreshIds s'
      [.event, .starter c, .starter c, .starter c] = some t ∧
      call ∈ t.returned ∧ call ∈ t.handled ∧ t.getCall (callId call) = some call := by
    rw [← hs]
    simp [run, FreshIds, Service.step, State.eventStep, State.startStep, State.setStarter, hc,
      State.getCall]
  rcases hrun with ⟨t, ht, hreturned, hhandled, hget⟩
  exact ⟨t, reach_of_run Reach.start ht, hreturned, hhandled, hget⟩

/-- `RemoveCall` erases only calls that have been inserted. -/
def ErasesInserted (s : State T) : Label T → Prop
  | .event => ∀ call, s.dispatcher = .erase call → s.calls (callId call) = some call
  | _ => True

instance decidableErasesInserted (s : State T) : (l : Label T) → Decidable (ErasesInserted s l)
  | .event =>
      match hd : s.dispatcher with
      | .erase call =>
          decidable_of_iff (s.calls (callId call) = some call) (by simp [ErasesInserted, hd])
      | .next | .handle _ | .shutdown _ | .lock _ | .unlock _ =>
          isTrue (by simp [ErasesInserted, hd])
  | .start _ => inferInstanceAs (Decidable True)
  | .starter _ => inferInstanceAs (Decidable True)
  | .deliver _ => inferInstanceAs (Decidable True)
  | .complete _ => inferInstanceAs (Decidable True)

/-- The dispatcher has erased the call. -/
def Erased (s : State T) (call : Nat) : Prop :=
  call ∈ s.handled ∨ s.dispatcher = .unlock call

/-- A call is erased by the step that erases it. -/
theorem erased_step {kind : Kind} {s s' : State T} {l : Label T} {call : Nat}
    (hs : Service.step kind s l = some s') (h : Erased s' call) :
    Erased s call ∨ l = .event ∧ s.dispatcher = .erase call := by
  cases l with
  | start c =>
      simp only [Service.step, State.enterStart] at hs
      split at hs <;> simp only [Option.some.injEq, reduceCtorEq] at hs <;> subst hs <;>
        exact .inl h
  | starter c =>
      simp only [Service.step, State.startStep] at hs
      split at hs <;> (try split at hs) <;>
        simp only [Option.some.injEq, reduceCtorEq] at hs <;> subst hs <;> exact .inl h
  | deliver x =>
      rcases deliver_spec hs with ⟨_, rfl⟩
      exact .inl (.inl (h.resolve_right (by simp)))
  | complete again =>
      simp only [Service.step, State.complete] at hs
      split at hs <;> (try split at hs) <;>
        simp only [Option.some.injEq, reduceCtorEq] at hs <;> subst hs <;>
        exact .inl (.inl (h.resolve_right (by cases kind <;> simp)))
  | event =>
      simp only [Service.step, State.eventStep] at hs
      split at hs <;> rename_i hd <;> (try split at hs) <;>
        simp only [Option.some.injEq, reduceCtorEq] at hs <;> subst hs <;>
        simp_all [Erased]
      -- unlock
      rcases h with heq | hold
      · exact .inr heq.symm
      · exact .inl hold

theorem gone_of_erased {kind : Kind} {s : State T}
    (hr : Reach (Service.step kind) (fun s l => FreshIds s l ∧ ErasesInserted s l) initial s)
    {call : Nat} (hcall : Erased s call) : Gone s call := by
  have hinv : ∀ call, Erased s call → Gone s call := by
    apply hr.invariant_with (fun t ht => ledger_reachable (ht.mono (fun _ _ hok => hok.1)))
    · intro x hx
      simp [initial, Erased] at hx
    · intro t l t' hledger _ ih hok hs x hx
      rcases erased_step hs hx with hbefore | ⟨hl, hd⟩
      · exact (ih x hbefore).step hs
      · rw [hl] at hs hok
        exact hledger.gone hd (hok.2 x hd) hs
  exact hinv call hcall

/-- In every run, the erasure of a call keeps `GetCall` from finding it exactly if
the call was in the table by then; and in a run that erases no call before its
insertion, no call that has been returned and handled is found. -/
theorem forgets_completed_iff (kind : Kind) :
    (∀ (s s' : State T) (call : Nat), Reach (Service.step kind) FreshIds initial s →
      s.dispatcher = .erase call → Service.step kind s .event = some s' →
      ((∀ t, Reach (Service.step kind) FreshIds s' t → call ∈ t.returned →
          call ∈ t.handled → t.getCall (callId call) = none) ↔
        s.calls (callId call) = some call)) ∧
    (∀ s : State T,
      Reach (Service.step kind) (fun s l => FreshIds s l ∧ ErasesInserted s l) initial s →
      ∀ call, call ∈ s.returned → call ∈ s.handled → s.getCall (callId call) = none) := by
  apply And.intro
  · intro s s' call hr hd hs
    have hledger := ledger_reachable hr
    constructor
    · intro hforgets
      by_contra hstored
      rcases hledger.waits (guarded_reachable hr) hd hstored with ⟨c, hc⟩
      rcases inserted_after hd hc hs with ⟨t, ht, hreturned, hhandled, hget⟩
      rw [hforgets t ht hreturned hhandled] at hget
      contradiction
    · intro hstored t ht _ _
      have hgone := (hledger.gone hd hstored hs).reach ht
      have hok : FreshIds s (.event : Label T) := trivial
      exact hgone.getCall ((hledger.step hok hs).reach ht)
  · intro s hr call _ hhandled
    have hledger := ledger_reachable (hr.mono (fun _ _ hok => hok.1))
    exact (gone_of_erased hr (.inl hhandled)).getCall hledger

end Runs

/-! ## The two schedules -/

/-- A user thread runs a `StartCall` from its entry to its return. -/
def startsCall : List (Label Unit) :=
  .start (.user ()) :: List.replicate 5 (.starter (.user ()))

/-- The call completes after its insertion and is removed. -/
theorem forgets_completed_iff_inserted :
    (∃ s s' : State Unit, Reach (step .serviceCaller) FreshIds initial s ∧
      step .serviceCaller s .event = some s' ∧
      ∀ t, Reach (step .serviceCaller) FreshIds s' t → 1 ∈ t.returned → 1 ∈ t.handled →
        t.getCall (callId 1) = none) ∧
    (∃ s : State Unit, 1 ∈ s.returned ∧ 1 ∈ s.handled ∧ s.getCall (callId 1) = none) := by
  have hrun : ∃ s, run (step .serviceCaller) FreshIds initial
      (startsCall ++ [.deliver 1, .complete false, .event]) = some s ∧
      s.dispatcher = .erase 1 ∧ s.calls (callId 1) = some 1 :=
    ⟨_, rfl, rfl, rfl⟩
  have hguarded : ∃ s, run (step .serviceListener)
      (fun s l => FreshIds s l ∧ ErasesInserted s l) initial
      (startsCall ++ [.deliver 1, .complete false, .event, .event, .event, .event]) = some s ∧
      1 ∈ s.returned ∧ 1 ∈ s.handled :=
    ⟨_, rfl, by decide, by decide⟩
  apply And.intro
  · rcases hrun with ⟨s, hs, hd, hstored⟩
    have hr := reach_of_run Reach.start hs
    have hstep : step .serviceCaller s .event = some { s with
        calls := Function.update s.calls (callId 1) none
        dispatcher := .unlock 1 } := by
      simp [step, State.eventStep, hd]
    exact ⟨s, _, hr, hstep,
      ((forgets_completed_iff .serviceCaller).1 s _ 1 hr hd hstep).mpr hstored⟩
  · rcases hguarded with ⟨s, hs, hreturned, hhandled⟩
    have hr := reach_of_run Reach.start hs
    exact ⟨s, hreturned, hhandled,
      (forgets_completed_iff .serviceListener).2 s hr 1 hreturned hhandled⟩

/-- The completion comes while the `StartCall` is on its way to the mutex: after
both are done the call is in the table. -/
theorem completed_call_stays :
    (∃ s : State Unit, Reach (step .serviceCaller) FreshIds initial s ∧ 1 ∈ s.returned ∧
      1 ∈ s.handled ∧ s.getCall (callId 1) = some 1) ∧
    (∃ s : State Unit, Reach (step .serviceListener) FreshIds initial s ∧ 1 ∈ s.returned ∧
      1 ∈ s.handled ∧ s.getCall (callId 1) = some 1) := by
  have hcaller : ∃ s : State Unit, run (step .serviceCaller) FreshIds initial
      (startsCall.take 3 ++ [.deliver 1, .complete false, .event, .event, .event] ++
        startsCall.drop 3) = some s ∧
      1 ∈ s.returned ∧ 1 ∈ s.handled ∧ s.getCall (callId 1) = some 1 :=
    ⟨_, rfl, by decide, by decide, rfl⟩
  have hlistener : ∃ s : State Unit, run (step .serviceListener) FreshIds initial
      (startsCall.take 3 ++ [.deliver 1, .complete false, .event, .event, .event, .event] ++
        startsCall.drop 3) = some s ∧
      1 ∈ s.returned ∧ 1 ∈ s.handled ∧ s.getCall (callId 1) = some 1 :=
    ⟨_, rfl, by decide, by decide, rfl⟩
  apply And.intro
  · rcases hcaller with ⟨s, hs, hobs⟩
    exact ⟨s, reach_of_run Reach.start hs, hobs⟩
  · rcases hlistener with ⟨s, hs, hobs⟩
    exact ⟨s, reach_of_run Reach.start hs, hobs⟩

end Service
end DAQ
end DtCore
