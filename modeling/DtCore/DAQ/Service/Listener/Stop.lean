import DtCore.DAQ.Service.Listener.Answers
import DtCore.DAQ.Service.Listener.Listening
import DtCore.Foundation.Mutex

/-!
# Stopping the listener

`Stop` shuts the server down, which accepts no call from then on, waits for the calls
that were accepted, and shuts the completion queue down, upon which nothing may be
started.  The dispatcher runs on meanwhile.  A user thread adds sessions before `Stop`
only, and calls `Stop` when its calls of `AddSession` have returned.

Main definitions:

- `Orderly`: how the threads of the user use the listener.

Main results:

- Theorem `stop_clean`: nothing is started on a queue that was shut down, and after
  `Stop` every accepted call has been answered and gRPC holds no tag.
-/

namespace DtCore
namespace DAQ
namespace Service
namespace Listener

open Foundation

universe u v w x

variable {T : Type u} {M : Type v} {C : Type w} {R : Type x}

/-- A user thread adds sessions before `Stop` only, and its calls have returned when
`Stop` is called. -/
def Orderly (s : State T M C R) (l : Label T M C) : Prop :=
  Fresh s l ∧ match l with
    | .enterAdd _ _ => s.stopper = .idle ∧ s.serverShutdown = false
    | .enterStop => ∀ t, s.starters (.user t) = .idle
    | _ => True

/-- Whether a thread is outside `AddSession`. -/
def AddPc.isIdle : AddPc M → Bool
  | .idle => true
  | _ => false

theorem AddPc.isIdle_iff (pc : AddPc M) : pc.isIdle = true ↔ pc = .idle := by
  cases pc <;> simp [AddPc.isIdle]

instance decidableOrderly [Fintype T] (s : State T M C R) (l : Label T M C) :
    Decidable (Orderly s l) :=
  match l with
  | .enterAdd _ _ => inferInstanceAs (Decidable (_ ∧ (_ ∧ _)))
  | .enterStop =>
      decidable_of_iff (True ∧ ∀ t, (s.starters (.user t)).isIdle = true)
        (and_congr_right fun _ => forall_congr' fun _ => AddPc.isIdle_iff _)
  | .add _ | .arrives _ _ | .completes _ _ | .next _ | .event | .exit | .stop | .ignore _ =>
      inferInstanceAs (Decidable (_ ∧ True))

/-- What holds from the beginning of `Stop` on. -/
structure Stopping (s : State T M C R) : Prop where
  users : (s.stopper ≠ .idle ∨ s.serverShutdown = true) → ∀ t, s.starters (.user t) = .idle
  settled : (s.stopper = .queue ∨ s.stopper = .join ∨ s.stopper = .drain ∨
    s.cqShutdown = true) → s.Settled
  clean : s.misused = false
  exited : s.dispatcher = .exited → s.cqShutdown = true ∧ s.Drained
  joined : s.joined = true → s.dispatcher = .exited
  drain : s.stopper = .drain → s.joined = true

variable [DecidableEq T] [DecidableEq M] [DecidableEq C] {api : Api M C R}
  {s s' : State T M C R}

omit [DecidableEq T] [DecidableEq M] [DecidableEq C] in
theorem stopping_initial : Stopping (State.initial : State T M C R) := by
  constructor <;> simp [State.initial]

omit [DecidableEq T] [DecidableEq M] [DecidableEq C] in
/-- When every accepted call was answered no session has yet to answer one. -/
theorem Calls.unserved (h : Calls api s) (hsettled : s.Settled) (id : Nat) :
    s.serving id = none := by
  by_contra hserves
  rcases Option.ne_none_iff_exists'.mp hserves with ⟨call, hcall⟩
  have hself := call_of_serving hcall
  rcases h.answered call (hsettled call (h.known id call hself)) with ⟨id', hid', hnone⟩
  rw [h.single id' id call hid' hself, hcall] at hnone
  contradiction

omit [DecidableEq T] [DecidableEq M] [DecidableEq C] in
/-- The dispatcher does not work on a call when every accepted call was answered. -/
theorem Known.unserved (hknown : Known api s) (hcalls : Calls api s) (hsettled : s.Settled)
    (id : Nat) : s.dispatcher ≠ .adding id ∧ s.dispatcher ≠ .respond id ∧
      s.dispatcher ≠ .finish id := by
  have hunserved := hcalls.unserved hsettled id
  have hfind : s.dispatcher.handles = some id → ∃ t, s.session id = some t ∧
      s.dispatcher.Expects t := by
    intro hhandles
    rcases hknown.tags.handled id hhandles with ⟨_, t, ht, _⟩
    exact ⟨t, ht, hknown.stages.expects id t hhandles ht⟩
  refine ⟨fun hpc => ?_, fun hpc => ?_, fun hpc => ?_⟩ <;>
    rcases hfind (by rw [hpc]; rfl) with ⟨t, ht, hexpects⟩ <;> rw [hpc] at hexpects <;>
    simp [State.serving, ht, Session.serving, hpc, hexpects.1, EventPc.finishes] at hunserved <;>
    simp [EventPc.Expects, hunserved] at hexpects

omit [DecidableEq T] [DecidableEq M] [DecidableEq C] in
/-- Nothing requests a call after the queue was shut down. -/
theorem Stopping.unrequested (h : Stopping s) (hknown : Known api s) (hcalls : Calls api s)
    (hflags : Flags s) (hcq : s.cqShutdown = true) (c : Starter T) (id : Nat) :
    s.starters c ≠ .request id := by
  intro hpc
  cases c with
  | user t =>
      rw [h.users (Or.inr (hflags.queue hcq)) t] at hpc
      contradiction
  | handler =>
      rcases hknown.nested with ⟨id₀, hadding⟩ | hidle
      · exact (hknown.unserved hcalls (h.settled (by simp [hcq])) id₀).1 hadding
      · rw [hidle] at hpc
        contradiction

omit [DecidableEq T] [DecidableEq M] [DecidableEq C] in
/-- A step that is none of `Stop` and answers calls at most. -/
theorem Stopping.frame {s s' : State T M C R} (h : Stopping s)
    (hstarters : ∀ t, s.starters (.user t) = .idle → s'.starters (.user t) = .idle)
    (hstopper : s'.stopper = s.stopper) (hserver : s'.serverShutdown = s.serverShutdown)
    (hcq : s'.cqShutdown = s.cqShutdown) (hjoined : s'.joined = s.joined)
    (haccepted : s'.accepted = s.accepted)
    (hanswers : ∀ call ∈ s.answers.map Prod.fst, call ∈ s'.answers.map Prod.fst)
    (hclean : s'.misused = s.misused)
    (hexited : s.dispatcher = .exited → s'.dispatcher = .exited)
    (hdrained : s'.dispatcher = .exited → s.dispatcher = .exited ∧ (s.Drained → s'.Drained)) :
    Stopping s' where
  users hstop t := by
    rw [hstopper, hserver] at hstop
    exact hstarters t (h.users hstop t)
  settled hstop call hcall := by
    rw [hstopper, hcq] at hstop
    rw [haccepted] at hcall
    exact hanswers call (h.settled hstop call hcall)
  clean := by rw [hclean]; exact h.clean
  exited hpc := by
    rw [hcq]
    have hbefore := h.exited (hdrained hpc).1
    exact ⟨hbefore.1, (hdrained hpc).2 hbefore.2⟩
  joined htrue := by
    rw [hjoined] at htrue
    exact hexited (h.joined htrue)
  drain hpc := by
    rw [hstopper] at hpc
    rw [hjoined]
    exact h.drain hpc

omit [DecidableEq T] [DecidableEq M] [DecidableEq C] in
/-- The dispatcher moves. -/
theorem Stopping.dispatch {s s' : State T M C R} (h : Stopping s)
    (hstarters : ∀ t, s'.starters (.user t) = s.starters (.user t))
    (hstopper : s'.stopper = s.stopper) (hserver : s'.serverShutdown = s.serverShutdown)
    (hcq : s'.cqShutdown = s.cqShutdown) (hjoined : s'.joined = s.joined)
    (haccepted : s'.accepted = s.accepted)
    (hanswers : ∀ call ∈ s.answers.map Prod.fst, call ∈ s'.answers.map Prod.fst)
    (hclean : s'.misused = s.misused) (hbefore : s.dispatcher ≠ .exited)
    (hafter : s'.dispatcher ≠ .exited) : Stopping s' :=
  h.frame (fun t ht => by rw [hstarters, ht]) hstopper hserver hcq hjoined haccepted hanswers
    hclean (fun hpc => absurd hpc hbefore) (fun hpc => absurd hpc hafter)

omit [DecidableEq M] [DecidableEq C] in
/-- An `AddSession` moves that is not idle. -/
theorem setStarter_user (c : Starter T) (pc : AddPc M) (hpc : s.starters c ≠ .idle) (t : T)
    (ht : s.starters (.user t) = .idle) :
    Function.update s.starters c pc (.user t) = .idle := by
  by_cases heq : Starter.user t = c
  · rw [heq] at ht
    exact absurd ht hpc
  · rw [Function.update_of_ne heq]
    exact ht

theorem Stopping.step {l : Label T M C} (h : Stopping s) (hknown : Known api s)
    (hcalls : Calls api s) (hflags : Flags s) (horderly : Orderly s l)
    (hs : Listener.step api s l = some s') : Stopping s' := by
  have hserver : ∀ {p : Prop}, s.serverShutdown = false → s.cqShutdown = true → p := by
    intro p hopen hqueue
    rw [hflags.queue hqueue] at hopen
    contradiction
  cases step_moves hs with
  | enterAdd t m hpc =>
      rcases horderly.2 with ⟨hidle, hopen⟩
      refine ⟨fun hstop => ?_, h.settled, h.clean, h.exited, h.joined, h.drain⟩
      have hstop : s.stopper ≠ .idle ∨ s.serverShutdown = true := hstop
      simp [hidle, hopen] at hstop
  | construct c m hpc =>
      refine h.frame (setStarter_user c _ (by simp [hpc])) rfl rfl rfl rfl rfl (fun _ hc => hc)
        rfl (fun hd => hd) (fun hd => ⟨hd, fun hdrained => ?_⟩)
      rw [Nat.mod_eq_of_lt (horderly.1 ⟨m, hpc⟩)]
      intro id hid t ht
      simp only [State.setStarter, State.setSession] at ht hid
      by_cases heq : id = s.allocated + 1
      · subst heq
        rw [Function.update_self, Option.some.injEq] at ht
        rw [← ht]
        rfl
      · rw [Function.update_of_ne heq] at ht
        exact hdrained id (by omega) t ht
  | request c id t hpc ht =>
      have hcq : s.cqShutdown ≠ true := by
        intro hqueue
        exact h.unrequested hknown hcalls hflags hqueue c id hpc
      rw [State.start, if_neg hcq]
      exact h.frame (setStarter_user c _ (by simp [hpc])) rfl rfl rfl rfl rfl (fun _ hc => hc)
        rfl (fun hd => hd) (fun hd => absurd (h.exited hd).1 hcq)
  | lock c id hpc | insert c id hpc | unlock c id hpc =>
      exact h.frame (setStarter_user c _ (by simp [hpc])) rfl rfl rfl rfl rfl (fun _ hc => hc)
        rfl (fun hd => hd) (fun hd => ⟨hd, fun hdrained => hdrained⟩)
  | arrives id call t ht hrpc hopen =>
      refine ⟨h.users, fun hstop => ?_, h.clean, fun hd => hserver hopen (h.exited hd).1,
        h.joined, h.drain⟩
      rcases hstop with hpc | hpc | hpc | hqueue
      · simp [hflags.stopper (Or.inr (Or.inl hpc))] at hopen
      · simp [hflags.stopper (Or.inr (Or.inr (Or.inl hpc)))] at hopen
      · simp [hflags.stopper (Or.inr (Or.inr (Or.inr hpc)))] at hopen
      · exact hserver hopen hqueue
  | completes id ok t ht hrpc =>
      refine h.frame (fun _ hidle => hidle) rfl rfl rfl rfl rfl (fun _ hc => hc) rfl
        (fun hd => hd) (fun hd => ⟨hd, fun hdrained => ?_⟩)
      have hidle := hdrained id ((hknown.tags.made id).mp (by rw [ht]; rfl)).2 t ht
      rcases hrpc with hrpc | hrpc <;> simp [hidle] at hrpc
  | next id ok t hpc ht =>
      exact h.dispatch (fun _ => rfl) rfl rfl rfl rfl rfl (fun _ hc => hc) rfl (by simp [hpc])
        (by simp)
  | accept id ok t hpc ht =>
      exact h.dispatch (fun t => by simp [State.setStarter]) rfl rfl rfl rfl rfl
        (fun _ hc => hc) rfl (by simp [hpc]) (by simp)
  | cancel id ok t hpc ht hreact =>
      rcases (hknown.stages.sound id t ht).reacts ok with ⟨_, _, haccept⟩ | ⟨_, hreturns⟩
      · rw [haccept] at hreact
        contradiction
      · rw [hreturns] at hreact
        contradiction
  | finish id t hpc ht =>
      have hcq : s.cqShutdown ≠ true := by
        intro hqueue
        exact (hknown.unserved hcalls (h.settled (by simp [hqueue])) id).2.2 hpc
      rw [State.finishCall, State.start, if_neg hcq]
      refine h.dispatch (fun _ => rfl) rfl rfl rfl rfl rfl (fun call hc => ?_) rfl (by simp [hpc])
        (by simp)
      rw [List.map_append]
      exact List.mem_append_left _ hc
  | handled id ok t hpc | done id ok t hpc | added id hpc | respond id t hpc
  | shutdown id t hpc | lockErase id hpc | erase id hpc | unlockErase hpc =>
      exact h.dispatch (fun _ => rfl) rfl rfl rfl rfl rfl (fun _ hc => hc) rfl (by simp [hpc])
        (by simp)
  | exit hpc hqueue hdrained =>
      exact ⟨h.users, h.settled, h.clean, fun _ => ⟨hqueue, hdrained⟩, fun _ => rfl, h.drain⟩
  | enterStop hpc =>
      refine ⟨fun _ => horderly.2, fun hstop => ?_, h.clean, h.exited, h.joined, by simp⟩
      exact h.settled (Or.inr (Or.inr (Or.inr (by simpa using hstop))))
  | stopLock hpc | visited hpc | running hpc =>
      refine ⟨fun _ => h.users (Or.inl (by simp [hpc])), fun hstop => ?_, h.clean, h.exited,
        h.joined, by simp⟩
      exact h.settled (Or.inr (Or.inr (Or.inr (by simpa using hstop))))
  | visit id rest t hpc ht =>
      rw [(hknown.stages.sound id t ht).tryCancel, setSession_self ht]
      refine ⟨fun _ => h.users (Or.inl (by simp [hpc])), fun hstop => ?_, h.clean, h.exited,
        h.joined, by simp⟩
      exact h.settled (Or.inr (Or.inr (Or.inr (by simpa using hstop))))
  | server hpc =>
      refine ⟨fun _ => h.users (Or.inl (by simp [hpc])), fun hstop => ?_, h.clean, h.exited,
        h.joined, by simp⟩
      exact h.settled (Or.inr (Or.inr (Or.inr (by simpa using hstop))))
  | wait hpc hsettled =>
      exact ⟨fun _ => h.users (Or.inl (by simp [hpc])), fun _ => hsettled, h.clean, h.exited,
        h.joined, by simp⟩
  | queue hpc =>
      exact ⟨fun _ => h.users (Or.inl (by simp [hpc])), fun _ => h.settled (by simp [hpc]),
        h.clean, fun hd => ⟨rfl, (h.exited hd).2⟩, h.joined, by simp⟩
  | join hpc hexited =>
      exact ⟨fun _ => h.users (Or.inl (by simp [hpc])), fun _ => h.settled (by simp [hpc]),
        h.clean, h.exited, fun _ => hexited.elim h.joined (fun hd => hd), fun _ => rfl⟩
  | drain hpc hdrained =>
      exact ⟨fun _ => h.users (Or.inl (by simp [hpc])), fun _ => h.settled (by simp [hpc]),
        h.clean, h.exited, h.joined, by simp⟩
  | ignore id ok t hpc ht hrpc =>
      have hdrained := (h.exited (h.joined (h.drain hpc))).2
      have hidle := hdrained id ((hknown.tags.made id).mp (by rw [ht]; rfl)).2 t ht
      simp [hidle] at hrpc

/-- What is known of every state of an orderly run. -/
structure InOrder (api : Api M C R) (s : State T M C R) : Prop where
  known : Known api s
  calls : Calls api s
  flags : Flags s
  stopping : Stopping s

theorem InOrder.step {l : Label T M C} (h : InOrder api s) (horderly : Orderly s l)
    (hs : Listener.step api s l = some s') : InOrder api s' where
  known := h.known.step horderly.1 hs
  calls := h.calls.step h.known horderly.1 hs
  flags := h.flags.step hs
  stopping := h.stopping.step h.known h.calls h.flags horderly hs

theorem inOrder_reachable (hr : Reach (Listener.step api) Orderly State.initial s) :
    InOrder api s := by
  apply hr.invariant
  · exact ⟨known_initial, calls_initial, flags_initial, stopping_initial⟩
  · intro t l t' ht horderly hs
    exact ht.step horderly hs

/-- Nothing is started on a queue that was shut down; when `Stop` has joined the dispatcher,
every accepted call has been answered and gRPC holds no operation of a session. -/
theorem stop_clean (hr : Reach (Listener.step api) Orderly State.initial s) :
    s.misused = false ∧ (s.joined = true → s.dispatcher = .exited ∧ s.Drained ∧
      ∀ call, call ∈ s.accepted ↔ call ∈ s.answers.map Prod.fst) := by
  have h := inOrder_reachable hr
  refine ⟨h.stopping.clean, fun hjoined => ?_⟩
  have hexited := h.stopping.joined hjoined
  rcases h.stopping.exited hexited with ⟨hcq, hdrained⟩
  refine ⟨hexited, hdrained, fun call => ⟨h.stopping.settled (by simp [hcq]) call, ?_⟩⟩
  intro hanswered
  rcases h.calls.answered call hanswered with ⟨id, hid, _⟩
  exact h.calls.known id call hid

/-- `Stop` goes on to the shutdown of the server. -/
def closes (sessions : Nat) : List (Label Unit M C) :=
  [.enterStop, .stop] ++ List.replicate (sessions + 3) .stop

/-- `Stop` waits for the calls, shuts the queue down and joins the dispatcher, which takes
the failed request of a session. -/
def ends (id : Nat) : List (Label Unit M C) :=
  [.completes id false, .next id, .event, .event, .event, .event, .event, .stop, .stop, .exit,
    .stop, .stop]

/-- A listener that has answered a call is stopped. -/
theorem stop_clean_answered : ∃ s : State Unit Method Call Response,
    Reach (Listener.step dtService) Orderly State.initial s ∧ s.joined = true ∧
      s.accepted = [(.command, 0)] ∧ s.dispatcher = .exited ∧
      (.command, 0) ∈ s.answers.map Prod.fst := by
  have hrun : (run (Listener.step dtService) Orderly
      (State.initial : State Unit Method Call Response)
      (adds .command ++ accepts 1 (.command, 0) ++ erases 1 ++ closes 1 ++ ends 2)).map
        (fun s => (s.joined, s.accepted)) = some (true, [(.command, 0)]) := by decide
  rcases exists_reach_of_run hrun with ⟨s, hs, hobserved⟩
  rw [Prod.mk.injEq] at hobserved
  rcases (stop_clean hs).2 hobserved.1 with ⟨hexited, _, hanswered⟩
  refine ⟨s, hs, hobserved.1, hobserved.2, hexited, (hanswered _).mp ?_⟩
  rw [hobserved.2]
  exact List.mem_singleton_self _

end Listener
end Service
end DAQ
end DtCore
