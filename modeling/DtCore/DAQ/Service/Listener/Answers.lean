import DtCore.DAQ.Service.Listener.Sessions

/-!
# Calls and their answers

A session is matched with one call and answers it once.

Main definitions:

- `State.call`, `State.serving`: the call of a session, as long as it is to be answered.

Main results:

- Theorem `answers_once`: every call that was accepted is answered once, with the
  response of its method, or a session is about to answer it.
-/

namespace DtCore
namespace DAQ
namespace Service
namespace Listener

open Foundation

universe u v w x

variable {T : Type u} {M : Type v} {C : Type w} {R : Type x}

/-! ## The call of a session -/

/-- The call that a session was matched with. -/
def State.call (s : State T M C R) (id : Nat) : Option C :=
  (s.session id).bind Session.request

/-- Whether the dispatcher is about to call `Finish` for a session. -/
def EventPc.finishes : EventPc → Nat → Bool
  | .finish id, id' => id == id'
  | _, _ => false

/-- The call that a session has yet to answer. -/
def Session.serving (t : Session M C) (finishes : Bool) : Option C :=
  if t.callState = .waitConnect ∨ finishes = true then t.request else none

/-- The call that the session of a number has yet to answer. -/
def State.serving (s : State T M C R) (id : Nat) : Option C :=
  (s.session id).bind fun t => t.serving (s.dispatcher.finishes id)

theorem call_of_serving {s : State T M C R} {id : Nat} {call : C}
    (h : s.serving id = some call) : s.call id = some call := by
  unfold State.serving Session.serving at h
  unfold State.call
  cases ht : s.session id with
  | none => simp [ht] at h
  | some t =>
      simp only [ht, Option.bind_some] at h ⊢
      split at h
      · exact h
      · contradiction

/-- The calls that were accepted, those that were answered and those that are served. -/
structure Calls (api : Api M C R) (s : State T M C R) : Prop where
  known : ∀ id call, s.call id = some call → call ∈ s.accepted
  single : ∀ id id' call, s.call id = some call → s.call id' = some call → id = id'
  answered : ∀ call ∈ s.answers.map Prod.fst, ∃ id, s.call id = some call ∧ s.serving id = none
  pending : ∀ call ∈ s.accepted,
    call ∈ s.answers.map Prod.fst ∨ ∃ id, s.serving id = some call
  responses : ∀ a ∈ s.answers, a.2 = (.ok, api.response (api.method a.1))
  acceptedOnce : s.accepted.Nodup
  answeredOnce : (s.answers.map Prod.fst).Nodup

variable [DecidableEq T] [DecidableEq M] [DecidableEq C] {api : Api M C R}
  {s s' : State T M C R}

omit [DecidableEq T] [DecidableEq M] [DecidableEq C] in
theorem calls_initial : Calls api (State.initial : State T M C R) := by
  constructor <;> simp [State.initial, State.call]

omit [DecidableEq T] [DecidableEq M] [DecidableEq C] in
/-- A step that leaves the calls of the sessions alone. -/
theorem Calls.frame {s s' : State T M C R} (h : Calls api s) (hcall : ∀ id, s'.call id = s.call id)
    (hserving : ∀ id, s'.serving id = s.serving id) (haccepted : s'.accepted = s.accepted)
    (hanswers : s'.answers = s.answers) : Calls api s' where
  known id call hid := by
    rw [hcall] at hid
    rw [haccepted]
    exact h.known id call hid
  single id id' call hid hid' := by
    rw [hcall] at hid hid'
    exact h.single id id' call hid hid'
  answered call hmem := by
    rw [hanswers] at hmem
    rcases h.answered call hmem with ⟨id, hid, hnone⟩
    exact ⟨id, by rw [hcall]; exact hid, by rw [hserving]; exact hnone⟩
  pending call hmem := by
    rw [haccepted] at hmem
    rw [hanswers]
    refine (h.pending call hmem).imp_right ?_
    rintro ⟨id, hid⟩
    exact ⟨id, by rw [hserving]; exact hid⟩
  responses := by rw [hanswers]; exact h.responses
  acceptedOnce := by rw [haccepted]; exact h.acceptedOnce
  answeredOnce := by rw [hanswers]; exact h.answeredOnce

/-! ## Steps that leave the calls alone -/

omit [DecidableEq T] [DecidableEq M] [DecidableEq C] in
/-- One session changes, but not its call nor whether it has answered. -/
theorem calls_setSession {s s' : State T M C R} {id : Nat} {t' : Session M C}
    (hsession : s'.session = Function.update s.session id (some t'))
    (hcall : t'.request = s.call id)
    (hserving : t'.serving (s'.dispatcher.finishes id) = s.serving id)
    (hdispatcher : ∀ id', id' ≠ id → s'.dispatcher.finishes id' = s.dispatcher.finishes id')
    (id' : Nat) : s'.call id' = s.call id' ∧ s'.serving id' = s.serving id' := by
  by_cases heq : id' = id
  · subst heq
    rw [State.call, State.serving, hsession, Function.update_self]
    exact ⟨hcall, hserving⟩
  · simp only [State.call, State.serving, hsession, Function.update_of_ne heq,
      hdispatcher id' heq]
    exact ⟨trivial, trivial⟩

omit [DecidableEq T] [DecidableEq M] [DecidableEq C] in
/-- The sessions as before, the dispatcher not in `Finish`, before nor after. -/
theorem calls_same {s s' : State T M C R} (hsession : s'.session = s.session)
    (hdispatcher : ∀ id, s'.dispatcher.finishes id = s.dispatcher.finishes id) (id : Nat) :
    s'.call id = s.call id ∧ s'.serving id = s.serving id := by
  simp only [State.call, State.serving, hsession, hdispatcher]
  exact ⟨trivial, trivial⟩

/-! ## Accepting and answering a call -/

omit [DecidableEq T] [DecidableEq M] [DecidableEq C] in
/-- A call is matched with a session that had none. -/
theorem Calls.arrives {s s' : State T M C R} {id : Nat} {call : C} (h : Calls api s)
    (hcall : s.call id = none) (hself : s'.call id = some call)
    (hserves : s'.serving id = some call)
    (hother : ∀ id', id' ≠ id → s'.call id' = s.call id' ∧ s'.serving id' = s.serving id')
    (hnew : call ∉ s.accepted) (haccepted : s'.accepted = call :: s.accepted)
    (hanswers : s'.answers = s.answers) : Calls api s' := by
  have hserving : s.serving id = none := by
    by_contra hsome
    rcases Option.ne_none_iff_exists'.mp hsome with ⟨call', hid⟩
    rw [call_of_serving hid] at hcall
    contradiction
  constructor
  case known =>
    intro id' call' hid'
    by_cases heq : id' = id
    · subst heq
      rw [hself, Option.some.injEq] at hid'
      simp [haccepted, ← hid']
    · rw [(hother id' heq).1] at hid'
      rw [haccepted]
      exact List.mem_cons_of_mem _ (h.known id' call' hid')
  case single =>
    intro id₁ id₂ call' h₁ h₂
    by_cases heq₁ : id₁ = id <;> by_cases heq₂ : id₂ = id
    · rw [heq₁, heq₂]
    · subst heq₁
      rw [hself, Option.some.injEq] at h₁
      rw [(hother id₂ heq₂).1, ← h₁] at h₂
      exact absurd (h.known id₂ call h₂) hnew
    · subst heq₂
      rw [hself, Option.some.injEq] at h₂
      rw [(hother id₁ heq₁).1, ← h₂] at h₁
      exact absurd (h.known id₁ call h₁) hnew
    · rw [(hother id₁ heq₁).1] at h₁
      rw [(hother id₂ heq₂).1] at h₂
      exact h.single id₁ id₂ call' h₁ h₂
  case answered =>
    intro call' hmem
    rw [hanswers] at hmem
    rcases h.answered call' hmem with ⟨id', hid', hnone⟩
    have hne : id' ≠ id := by
      rintro rfl
      rw [hcall] at hid'
      contradiction
    exact ⟨id', by rw [(hother id' hne).1]; exact hid', by rw [(hother id' hne).2]; exact hnone⟩
  case pending =>
    intro call' hmem
    rw [haccepted, List.mem_cons] at hmem
    rw [hanswers]
    rcases hmem with rfl | hmem
    · exact Or.inr ⟨id, hserves⟩
    · refine (h.pending call' hmem).imp_right ?_
      rintro ⟨id', hid'⟩
      have hne : id' ≠ id := by
        rintro rfl
        rw [hserving] at hid'
        contradiction
      exact ⟨id', by rw [(hother id' hne).2]; exact hid'⟩
  case responses => rw [hanswers]; exact h.responses
  case acceptedOnce => rw [haccepted]; exact List.nodup_cons.mpr ⟨hnew, h.acceptedOnce⟩
  case answeredOnce => rw [hanswers]; exact h.answeredOnce

omit [DecidableEq T] [DecidableEq M] [DecidableEq C] in
/-- `Finish` answers the call of a session. -/
theorem Calls.finish {s s' : State T M C R} {id : Nat} {call : C} (h : Calls api s)
    (hserves : s.serving id = some call) (hcall : ∀ id', s'.call id' = s.call id')
    (hdone : s'.serving id = none) (hserving : ∀ id', id' ≠ id → s'.serving id' = s.serving id')
    (haccepted : s'.accepted = s.accepted)
    (hanswers : s'.answers = s.answers ++ [(call, .ok, api.response (api.method call))]) :
    Calls api s' := by
  have hself := call_of_serving hserves
  have hnew : call ∉ s.answers.map Prod.fst := by
    intro hmem
    rcases h.answered call hmem with ⟨id', hid', hnone⟩
    rw [h.single id' id call hid' hself, hserves] at hnone
    contradiction
  have hmap : s'.answers.map Prod.fst = s.answers.map Prod.fst ++ [call] := by
    rw [hanswers, List.map_append]
    rfl
  constructor
  case known =>
    intro id' call' hid'
    rw [hcall] at hid'
    rw [haccepted]
    exact h.known id' call' hid'
  case single =>
    intro id₁ id₂ call' h₁ h₂
    rw [hcall] at h₁ h₂
    exact h.single id₁ id₂ call' h₁ h₂
  case answered =>
    intro call' hmem
    rw [hmap, List.mem_append, List.mem_singleton] at hmem
    rcases hmem with hmem | rfl
    · rcases h.answered call' hmem with ⟨id', hid', hnone⟩
      refine ⟨id', by rw [hcall]; exact hid', ?_⟩
      by_cases heq : id' = id
      · rw [heq]
        exact hdone
      · rw [hserving id' heq]
        exact hnone
    · exact ⟨id, by rw [hcall]; exact hself, hdone⟩
  case pending =>
    intro call' hmem
    rw [haccepted] at hmem
    rw [hmap, List.mem_append, List.mem_singleton]
    rcases h.pending call' hmem with hanswered | ⟨id', hid'⟩
    · exact Or.inl (Or.inl hanswered)
    · by_cases heq : id' = id
      · rw [heq, hserves, Option.some.injEq] at hid'
        exact Or.inl (Or.inr hid'.symm)
      · exact Or.inr ⟨id', by rw [hserving id' heq]; exact hid'⟩
  case responses =>
    intro a ha
    rw [hanswers, List.mem_append, List.mem_singleton] at ha
    rcases ha with ha | rfl
    · exact h.responses a ha
    · rfl
  case acceptedOnce => rw [haccepted]; exact h.acceptedOnce
  case answeredOnce =>
    rw [hmap]
    exact List.nodup_append.mpr ⟨h.answeredOnce, List.nodup_singleton _, fun a ha b hb => by
      rw [List.mem_singleton.mp hb]
      rintro rfl
      exact hnew ha⟩

theorem Calls.step {l : Label T M C} (h : Calls api s) (hknown : Known api s) (hfresh : Fresh s l)
    (hs : Listener.step api s l = some s') : Calls api s' := by
  have hsame : ∀ u : State T M C R, u.session = s.session → u.accepted = s.accepted →
      u.answers = s.answers →
      (∀ id, u.dispatcher.finishes id = s.dispatcher.finishes id) → Calls api u := by
    intro u hsession haccepted hanswers hdispatcher
    exact h.frame (fun id => (calls_same hsession hdispatcher id).1)
      (fun id => (calls_same hsession hdispatcher id).2) haccepted hanswers
  have hchange : ∀ (u : State T M C R) (id : Nat) (t : Session M C),
      u.session = Function.update s.session id (some t) → t.request = s.call id →
      t.serving (u.dispatcher.finishes id) = s.serving id →
      (∀ id', id' ≠ id → u.dispatcher.finishes id' = s.dispatcher.finishes id') →
      u.accepted = s.accepted → u.answers = s.answers → Calls api u := by
    intro u id t hsession hcall hserving hdispatcher haccepted hanswers
    have hcalls := calls_setSession hsession hcall hserving hdispatcher
    exact h.frame (fun id => (hcalls id).1) (fun id => (hcalls id).2) haccepted hanswers
  cases step_moves hs with
  | construct c m hpc =>
      have hmod : (s.allocated + 1) % 2 ^ 64 = s.allocated + 1 := Nat.mod_eq_of_lt (hfresh ⟨m, hpc⟩)
      have hnone : s.session (s.allocated + 1) = none := by
        by_contra hsome
        rw [← ne_eq, Option.ne_none_iff_isSome] at hsome
        have hle := (hknown.tags.made _).mp hsome
        omega
      rw [hmod]
      exact hchange _ _ _ rfl (by simp [State.call, hnone, Session.constructed])
        (by simp [State.serving, hnone, Session.constructed, Session.serving]) (fun _ _ => rfl) rfl rfl
  | request c id t hpc ht =>
      rcases start_session s id t .connecting with ⟨t', hset⟩
      have hdispatcher := hset.dispatcher
      have hafter := hset.after
      refine hchange _ id t' hset.session ?_ ?_ ?_ hset.accepted hset.answers
      · rw [hafter]
        split <;> simp [State.call, ht]
      · simp only [State.setStarter, hdispatcher, State.serving, ht, Option.bind_some]
        rw [hafter]
        split <;> rfl
      · intro id' _
        simp only [State.setStarter, hdispatcher]
  | arrives id call t ht hrpc hserver hmethod hnew =>
      rcases (hknown.stages.sound id t ht).connecting hrpc with ⟨hstate, hrequest⟩
      have hcall : s.call id = none := by simp [State.call, ht, hrequest]
      refine h.arrives hcall (by simp [State.call, State.setSession])
        (by simp [State.serving, State.setSession, Session.serving, hstate]) ?_ hnew rfl rfl
      intro id' hne
      simp only [State.call, State.serving, State.setSession, Function.update_of_ne hne]
      exact ⟨trivial, trivial⟩
  | completes id ok t ht hrpc =>
      exact hchange _ id _ rfl (by simp [State.call, ht])
        (by simp only [State.serving, ht, Option.bind_some]; rfl) (fun _ _ => rfl) rfl rfl
  | next id ok t hpc ht hrpc =>
      exact hchange _ id _ rfl (by simp [State.call, ht])
        (by simp [State.serving, ht, hpc, Session.serving, EventPc.finishes])
        (by simp [hpc, EventPc.finishes]) rfl rfl
  | cancel id ok t hpc ht hreact =>
      rcases (hknown.stages.sound id t ht).reacts ok with ⟨_, _, haccept⟩ | ⟨_, hreturns⟩
      · rw [haccept] at hreact
        contradiction
      · rw [hreturns] at hreact
        contradiction
  | respond id t hpc ht =>
      have hexpects := hknown.stages.expects id t (by rw [hpc]; rfl) ht
      rw [hpc] at hexpects
      refine hchange _ id _ rfl (by simp [State.call, ht])
        (by simp [State.serving, ht, hexpects.1, Session.serving, EventPc.finishes]) ?_ rfl rfl
      intro id' hne
      simp [hpc, hne.symm, EventPc.finishes]
  | finish id t hpc ht =>
      rcases start_session s id t .finishing with ⟨t', hset⟩
      have hexpects := hknown.stages.expects id t (by rw [hpc]; rfl) ht
      rw [hpc] at hexpects
      rcases Option.isSome_iff_exists.mp hexpects.2 with ⟨call, hcall⟩
      have hmethod := (hknown.stages.sound id t ht).method call hcall
      have hafter : t'.request = t.request ∧ t'.callState = t.callState := by
        rw [hset.after]
        split <;> exact ⟨rfl, rfl⟩
      have hserves : s.serving id = some call := by
        simp [State.serving, ht, hpc, Session.serving, EventPc.finishes, hcall]
      refine h.finish hserves ?_ ?_ ?_ hset.accepted ?_
      · intro id'
        simp only [State.finishCall, State.call, hset.session]
        by_cases heq : id' = id
        · subst heq
          simp [ht, hafter.1]
        · rw [Function.update_of_ne heq]
      · simp [State.finishCall, State.serving, hset.session, Session.serving, EventPc.finishes,
          hafter.2, hexpects.1]
      · intro id' hne
        simp only [State.finishCall, State.serving, hset.session, Function.update_of_ne hne, hpc,
          EventPc.finishes, beq_eq_false_iff_ne.mpr hne.symm]
      · simp [State.finishCall, hcall, hmethod]
  | shutdown id t hpc ht =>
      rw [(hknown.stages.sound id t ht).tryCancel, setSession_self ht]
      exact hsame _ rfl rfl rfl (by simp [hpc, EventPc.finishes])
  | visit id rest t hpc ht =>
      rw [(hknown.stages.sound id t ht).tryCancel, setSession_self ht]
      exact hsame _ rfl rfl rfl (fun _ => rfl)
  | ignore id ok t hpc ht =>
      exact hchange _ id _ rfl (by simp [State.call, ht])
        (by simp only [State.serving, ht, Option.bind_some]; rfl) (fun _ _ => rfl) rfl rfl
  | enterAdd | lock | insert | unlock | enterStop | stopLock | visited | running | server | wait
  | queue | join | drain => exact hsame _ rfl rfl rfl (fun _ => rfl)
  | handled id ok t hpc | done id ok t hpc | accept id ok t hpc | added id hpc
  | lockErase id hpc | erase id hpc | unlockErase hpc | exit hpc =>
      exact hsame _ rfl rfl rfl (by simp [hpc, EventPc.finishes])

theorem calls_reachable (hr : Reach (Listener.step api) Fresh State.initial s) :
    Calls api s := by
  apply hr.invariant_with (fun t ht => known_reachable ht) calls_initial
  intro t l t' hknown _ hcalls hfresh hs
  exact hcalls.step hknown hfresh hs

/-- Every call that was accepted is answered once, with the response of its method, or one
session has yet to answer it; nothing else is answered. -/
theorem answers_once (hr : Reach (Listener.step api) Fresh State.initial s) :
    (s.answers.map Prod.fst).Nodup ∧
      (∀ a ∈ s.answers, a.2 = (.ok, api.response (api.method a.1))) ∧
      ∀ call, (call ∈ s.accepted ↔ call ∈ s.answers.map Prod.fst ∨ ∃ id, s.serving id = some call) ∧
        (call ∈ s.answers.map Prod.fst → ∀ id, s.serving id ≠ some call) ∧
        ∀ id id', s.serving id = some call → s.serving id' = some call → id = id' := by
  have h := calls_reachable hr
  refine ⟨h.answeredOnce, h.responses, fun call => ⟨⟨h.pending call, ?_⟩, ?_, ?_⟩⟩
  · rintro (hanswered | ⟨id, hid⟩)
    · rcases h.answered call hanswered with ⟨id, hid, _⟩
      exact h.known id call hid
    · exact h.known id call (call_of_serving hid)
  · intro hanswered id hid
    rcases h.answered call hanswered with ⟨id', hid', hnone⟩
    rw [h.single id' id call hid' (call_of_serving hid), hid] at hnone
    contradiction
  · intro id id' hid hid'
    exact h.single id id' call (call_of_serving hid) (call_of_serving hid')

/-- Two calls, of which the first was answered and the second is served. -/
theorem answers_once_two : ∃ s : State Unit Method Call Response,
    Reach (Listener.step dtService) Fresh State.initial s ∧
      s.accepted = [(.requestRobotInfo, 1), (.requestRobotInfo, 0)] ∧
      (.requestRobotInfo, 0) ∈ s.answers.map Prod.fst ∧
      (∀ a ∈ s.answers, a.2 = (.ok, dtService.response a.1.1)) ∧
      ∃ id, s.serving id = some (.requestRobotInfo, 1) := by
  have hrun : (run (Listener.step dtService) Fresh
      (State.initial : State Unit Method Call Response)
      (adds .requestRobotInfo ++ accepts 1 (.requestRobotInfo, 0) ++
        [.arrives 2 (.requestRobotInfo, 1)])).map
        (fun s => (s.accepted, s.answers.map Prod.fst)) =
      some ([(.requestRobotInfo, 1), (.requestRobotInfo, 0)], [(.requestRobotInfo, 0)]) := by
    decide
  rcases exists_reach_of_run hrun with ⟨s, hs, hobserved⟩
  rw [Prod.mk.injEq] at hobserved
  rcases answers_once hs with ⟨_, hresponses, hcalls⟩
  refine ⟨s, hs, hobserved.1, by rw [hobserved.2]; exact List.mem_singleton_self _, hresponses, ?_⟩
  refine ((hcalls (.requestRobotInfo, 1)).1.mp (by rw [hobserved.1]; simp)).resolve_left ?_
  rw [hobserved.2]
  decide

end Listener
end Service
end DAQ
end DtCore
