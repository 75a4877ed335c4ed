import DtCore.DAQ.Publisher.Cancel
import DtCore.DAQ.Publisher.Stream

/-!
# The order of the written messages

Whatever the cancellers do, a session writes messages in the order in which they were
published.  A finished session can write again, and it loses what is published in between,
but it never writes a new message before a queued one: the state `READY_TO_WRITE` is only
stored while the queue is empty, and a message is only queued in the state
`WAIT_WRITE_DONE`.

Main results:

- Structure `InOrder`: what the threads keep up, cancellers included.
- Theorem `written_in_order`: the written messages are a subsequence of the published ones.
- Theorem `AllMessages.step`: a session publishes nothing but what it was given.
-/

namespace DtCore
namespace DAQ
namespace Publisher

open Foundation

variable {P K Msg : Type}

/-- The line of the session is ordered, and no thread is about to overtake the queue. -/
structure InOrder (s : State P K Msg) : Prop where
  line : s.line.Ordered
  fresh : s.callState = .waitConnect → s.msgQueue = []
  ready : s.callState = .readyToWrite → s.msgQueue = []
  store_ready : s.dispatcher = .storeReady → s.msgQueue = []
  write : ∀ p msg, s.publishers p = .write msg → s.msgQueue = []
  enqueue : ∀ p msg, s.publishers p = .enqueue msg → s.callState = .waitWriteDone

theorem inOrder_initial : InOrder (initial : State P K Msg) where
  line := by
    rw [line_initial]
    exact Line.ordered_empty
  fresh _ := rfl
  ready _ := rfl
  store_ready _ := rfl
  write _ _ _ := rfl
  enqueue p msg hp := by simp [initial] at hp

/-! ## The thread that moves -/

/-- `READY_TO_WRITE` is stored while the queue is empty. -/
theorem InOrder.stores_ready {s : State P K Msg} (h : InOrder s) (hlocks : Locks s)
    {o : Owner P K} (hc : stored s o = some .readyToWrite) : s.msgQueue = [] := by
  cases o with
  | publisher p => cases hpc : s.publishers p <;> simp [stored, hpc] at hc
  | dispatcher =>
      cases hpc : s.dispatcher with
      | storeConnected => exact h.fresh (hlocks.connecting (by simp [hpc, EventPc.connecting]))
      | storeReady => exact h.store_ready hpc
      | _ => simp [stored, hpc] at hc
  | canceller k => cases hpc : s.cancellers k <;> simp [stored, hpc] at hc

/-- The dispatcher goes to store `READY_TO_WRITE` after it has seen an empty queue. -/
theorem seen_empty {s s' : State P K Msg} (hs : s.eventStep = some s')
    (hd : s'.dispatcher = .storeReady) : s'.msgQueue = [] := by
  unfold State.eventStep at hs
  split at hs <;> (try split at hs) <;>
    simp only [Option.some.injEq, reduceCtorEq] at hs <;> subst hs <;> simp_all

section Steps

variable [DecidableEq P]

/-- A `Publish` call goes to queue its message only in the state `WAIT_WRITE_DONE`. -/
theorem seen_waitWriteDone {queueSize : Int} {s s' : State P K Msg} {p : P} {msg : Msg}
    (hs : s.publishStep queueSize p = some s') (hp : s'.publishers p = .enqueue msg) :
    s'.callState = .waitWriteDone := by
  unfold State.publishStep at hs
  split at hs <;> (try split at hs) <;>
    simp only [Option.some.injEq, reduceCtorEq] at hs <;> subst hs <;> simp_all

variable [DecidableEq K]

omit [DecidableEq P] in
theorem cancelStep_line {s s' : State P K Msg} {k : K} (hs : s.cancelStep k = some s') :
    s'.line = s.line := by
  unfold State.cancelStep at hs
  split at hs <;> (try split at hs) <;>
    simp only [Option.some.injEq, reduceCtorEq] at hs <;> subst hs <;> rfl

/-- Only a `Publish` call that has seen `WAIT_WRITE_DONE` makes an empty queue longer. -/
theorem queue_stays_empty {queueSize : Int} {s s' : State P K Msg} {l : Label P K Msg}
    (hs : step queueSize s l = some s') :
    (s.msgQueue = [] → s'.msgQueue = []) ∨
      ∃ p msg, l = .publisher p ∧ s.publishers p = .enqueue msg := by
  cases l with
  | publish p msg =>
      left
      rw [enterPublish_eq hs]
      exact id
  | publisher p =>
      cases hpc : s.publishers p with
      | enqueue msg => exact Or.inr ⟨p, msg, rfl, hpc⟩
      | _ =>
          left
          simp only [step, State.publishStep, hpc] at hs
          try split at hs
          all_goals simp only [Option.some.injEq, reduceCtorEq] at hs
          all_goals subst hs
          all_goals exact id
  | deliver op =>
      left
      simp only [step, State.deliver] at hs
      split at hs <;> (try split at hs) <;>
        simp only [Option.some.injEq, reduceCtorEq] at hs <;> subst hs <;> exact id
  | event =>
      left
      intro hempty
      simp only [step, State.eventStep] at hs
      split at hs <;> (try split at hs) <;>
        simp only [Option.some.injEq, reduceCtorEq] at hs <;> subst hs <;> simp_all
  | cancel k =>
      left
      simp only [step, State.cancelStep] at hs
      split at hs <;> (try split at hs) <;>
        simp only [Option.some.injEq, reduceCtorEq] at hs <;> subst hs <;> exact id

/-! ## One step -/

omit [DecidableEq K] in
/-- The line stays ordered: a message that cannot be queued or written is refused. -/
theorem InOrder.publishStep_line {queueSize : Int} {s s' : State P K Msg} {p : P}
    (h : InOrder s) (hlocks : Locks s) (hs : s.publishStep queueSize p = some s') :
    s'.line.Ordered := by
  have hin : (s.publishers p).locked = true → s.dispatcher.locked = false := by
    intro hp
    by_contra hd
    rw [Bool.not_eq_false] at hd
    have hinside : Inside s (.publisher p) := hp
    have heq := hlocks.holds.unique hinside (show Inside s .dispatcher from hd)
    contradiction
  unfold State.publishStep at hs
  split at hs <;> rename_i hpc
  · contradiction
  · split at hs <;> simp only [Option.some.injEq, reduceCtorEq] at hs
    subst hs
    exact h.line
  · -- testState
    rename_i msg
    split at hs <;> simp only [Option.some.injEq] at hs <;> subst hs
    · exact h.line
    · exact h.line
    · by_cases hconn : s.connected = true
      · simp only [hconn]
        exact h.line.refuse msg
      · simp only [hconn]
        exact h.line
  · -- enqueue
    rename_i msg
    split at hs <;> rename_i hsize <;> simp only [Option.some.injEq] at hs <;> subst hs
    · exact h.line.refuse msg
    · exact (enqueue_line (hin (by rw [hpc]; rfl)) hsize).ordered h.line
  · simp only [Option.some.injEq] at hs
    subst hs
    exact h.line
  · -- write
    rename_i msg
    simp only [Option.some.injEq] at hs
    subst hs
    have hempty : s.line.waiting = [] := by
      simp [State.line, State.waiting, h.write p msg hpc]
    exact h.line.sendNow hempty msg
  · simp only [Option.some.injEq] at hs
    subst hs
    exact h.line

theorem InOrder.step_line {queueSize : Int} {s s' : State P K Msg} {l : Label P K Msg}
    (h : InOrder s) (hlocks : Locks s) (hs : step queueSize s l = some s') :
    s'.line.Ordered := by
  cases l with
  | publish p msg =>
      rw [enterPublish_line hs]
      exact h.line
  | publisher p => exact h.publishStep_line hlocks hs
  | deliver op =>
      rw [deliver_line hs]
      exact h.line
  | event =>
      rcases eventStep_line hs with heq | hsend
      · rw [heq]
        exact h.line
      · rw [hsend]
        exact h.line.sendNext
  | cancel k =>
      rw [cancelStep_line hs]
      exact h.line

/-- A step that does not fill an empty queue. -/
theorem InOrder.of_stays_empty {queueSize : Int} {s s' : State P K Msg} {l : Label P K Msg}
    (h : InOrder s) (hlocks : Locks s) (hs : Publisher.step queueSize s l = some s')
    (hqueue : s.msgQueue = [] → s'.msgQueue = []) : InOrder s' := by
  have ht := turn hs
  constructor
  case line => exact h.step_line hlocks hs
  case fresh =>
    intro hstate
    apply hqueue
    rw [ht.callState] at hstate
    cases hc : stored s l.mover with
    | none =>
        rw [hc] at hstate
        exact h.fresh hstate
    | some c =>
        rw [hc] at hstate
        exact absurd hstate (stored_ne_waitConnect hc)
  case ready =>
    intro hstate
    apply hqueue
    rw [ht.callState] at hstate
    cases hc : stored s l.mover with
    | none =>
        rw [hc] at hstate
        exact h.ready hstate
    | some c =>
        rw [hc] at hstate
        exact h.stores_ready hlocks (hc.trans (congrArg some hstate))
  case store_ready =>
    intro hd
    rcases dispatcher_cases hs with ⟨_, hsame⟩ | htest | hstep
    · rw [hsame] at hd
      exact hqueue (h.store_ready hd)
    · rw [htest] at hd
      contradiction
    · exact seen_empty hstep hd
  case write =>
    intro p msg hp
    apply hqueue
    rcases publisher_cases hs p with ⟨_, hsame⟩ | ⟨m, _, hlock⟩ | hstep
    · rw [hsame] at hp
      exact h.write p msg hp
    · rw [hlock] at hp
      contradiction
    · exact h.ready (hlocks.publisher_ready p msg (stored_before_write hstep hp))
  case enqueue =>
    intro p msg hp
    rcases publisher_cases hs p with ⟨hmove, hsame⟩ | ⟨m, _, hlock⟩ | hstep
    · rw [hsame] at hp
      have hin : Inside s (.publisher p) := by simp [Inside, hp, PublishPc.locked]
      rw [ht.keeps_callState hlocks hin hmove]
      exact h.enqueue p msg hp
    · rw [hlock] at hp
      contradiction
    · exact seen_waitWriteDone hstep hp

/-- A message is queued: the state says so, and no other thread is inside. -/
theorem InOrder.of_enqueue {queueSize : Int} {s s' : State P K Msg} {p : P} {msg : Msg}
    (h : InOrder s) (hlocks : Locks s) (hp : s.publishers p = .enqueue msg)
    (hs : Publisher.step queueSize s (.publisher p) = some s') : InOrder s' := by
  have ht := turn hs
  have hin : Inside s (.publisher p) := by simp [Inside, hp, PublishPc.locked]
  have hstate : s'.callState = .waitWriteDone := by
    rw [ht.callState]
    simp [stored, Label.mover, hp, h.enqueue p msg hp]
  have hleaves : s'.publishers p = .unlock := by
    simp only [Publisher.step, State.publishStep, hp] at hs
    split at hs <;> simp only [Option.some.injEq] at hs <;> subst hs <;> simp
  constructor
  case line => exact h.step_line hlocks hs
  case fresh =>
    intro hfresh
    rw [hstate] at hfresh
    contradiction
  case ready =>
    intro hready
    rw [hstate] at hready
    contradiction
  case store_ready =>
    intro hd
    rw [ht.dispatcher (by simp [Label.mover])] at hd
    have hdisp : Inside s .dispatcher := by simp [Inside, hd, EventPc.locked]
    have heq := hlocks.holds.unique hin hdisp
    contradiction
  case write =>
    intro r m hr
    by_cases hmove : r = p
    · rw [hmove, hleaves] at hr
      contradiction
    · rw [ht.publishers r (by simp [Label.mover, hmove])] at hr
      have hother : Inside s (.publisher r) := by simp [Inside, hr, PublishPc.locked]
      have heq := hlocks.holds.unique hother hin
      exact absurd (Owner.publisher.inj heq) hmove
  case enqueue =>
    intro r m hr
    exact hstate

theorem InOrder.step {queueSize : Int} {s s' : State P K Msg} {l : Label P K Msg}
    (h : InOrder s) (hlocks : Locks s) (hs : Publisher.step queueSize s l = some s') :
    InOrder s' := by
  rcases queue_stays_empty hs with hqueue | ⟨p, msg, rfl, hp⟩
  · exact h.of_stays_empty hlocks hs hqueue
  · exact h.of_enqueue hlocks hp hs

/-! ## All runs -/

/-- In every run, with or without cancellers, the written messages are published
ones in the order of publishing. -/
theorem written_in_order {queueSize : Int} {ok : State P K Msg → Label P K Msg → Prop}
    {s : State P K Msg} (hr : Reach (Publisher.step queueSize) ok initial s) :
    (s.written.map Numbered.msg).Sublist s.published := by
  have h : InOrder s := by
    apply hr.invariant_with (fun t ht => locks_reachable ht)
    · exact inOrder_initial
    · intro t l t' hlocks _ ht _ hs
      exact ht.step hlocks hs
  exact h.line.sent_subsequence

/-! ## Where the messages come from -/

/-- The message that a `Publish` call has still to write, to queue or to give up. -/
def PublishPc.msg? : PublishPc Msg → Option Msg
  | .lock msg => some msg
  | .testState msg => some msg
  | .enqueue msg => some msg
  | .storeWait msg => some msg
  | .write msg => some msg
  | .idle => none
  | .unlock => none

omit [DecidableEq K] in
/-- A `Publish` call publishes its own message or nothing. -/
theorem publishStep_published {queueSize : Int} {s s' : State P K Msg} {p : P}
    (hs : s.publishStep queueSize p = some s') :
    s'.published = s.published ∨
      ∃ msg, (s.publishers p).msg? = some msg ∧ s'.published = s.published ++ [msg] := by
  unfold State.publishStep at hs
  split at hs <;> rename_i hpc <;> rw [hpc]
  case h_3 msg =>
    -- testState
    split at hs <;> simp only [Option.some.injEq] at hs <;> subst hs
    · exact Or.inl rfl
    · exact Or.inl rfl
    · by_cases hconn : s.connected = true
      · simp only [hconn]
        exact Or.inr ⟨msg, rfl, rfl⟩
      · simp only [hconn]
        exact Or.inl rfl
  case h_4 msg =>
    -- enqueue
    split at hs <;> simp only [Option.some.injEq] at hs <;> subst hs <;>
      exact Or.inr ⟨msg, rfl, rfl⟩
  case h_6 msg =>
    -- write
    simp only [Option.some.injEq] at hs
    subst hs
    exact Or.inr ⟨msg, rfl, rfl⟩
  all_goals
    try split at hs
    all_goals simp only [Option.some.injEq, reduceCtorEq] at hs
    all_goals subst hs
    all_goals exact Or.inl rfl

/-- Messages are published one at a time, each by the call that it was given to. -/
theorem published_step {queueSize : Int} {s s' : State P K Msg} {l : Label P K Msg}
    (hs : Publisher.step queueSize s l = some s') :
    s'.published = s.published ∨
      ∃ p msg, (s.publishers p).msg? = some msg ∧ s'.published = s.published ++ [msg] := by
  cases l with
  | publish p msg => exact Or.inl (congrArg Line.published (enterPublish_line hs))
  | publisher p =>
      rcases publishStep_published hs with hsame | hnew
      · exact Or.inl hsame
      · exact Or.inr ⟨p, hnew⟩
  | deliver op => exact Or.inl (congrArg Line.published (deliver_line hs))
  | event =>
      left
      rcases eventStep_line hs with hsame | hsend
      · exact congrArg Line.published hsame
      · exact (congrArg Line.published hsend).trans (Line.published_sendNext s.line)
  | cancel k => exact Or.inl (congrArg Line.published (cancelStep_line hs))

/-- Steps only add to the published messages. -/
theorem published_grows {queueSize : Int} {s s' : State P K Msg} {l : Label P K Msg}
    (hs : Publisher.step queueSize s l = some s') : s.published.Sublist s'.published := by
  rcases published_step hs with hsame | ⟨p, msg, _, hnew⟩
  · rw [hsame]
  · rw [hnew]
    exact List.sublist_append_left _ _

/-- A call keeps its message until it is done with it, and gets none but its own. -/
theorem msg?_step {queueSize : Int} {s s' : State P K Msg} {l : Label P K Msg} {p : P}
    {msg : Msg} (hs : Publisher.step queueSize s l = some s')
    (hmsg : (s'.publishers p).msg? = some msg) :
    l = .publish p msg ∨ (s.publishers p).msg? = some msg := by
  rcases publisher_cases hs p with ⟨_, hsame⟩ | ⟨m, rfl, hlock⟩ | hstep
  · rw [hsame] at hmsg
    exact Or.inr hmsg
  · rw [hlock] at hmsg
    cases hmsg
    exact Or.inl rfl
  · right
    unfold State.publishStep at hstep
    split at hstep <;> (try split at hstep) <;>
      simp only [Option.some.injEq, reduceCtorEq] at hstep <;> subst hstep <;>
      simp_all [PublishPc.msg?]

/-- Every message of the session, published or not, is one of `good`. -/
structure AllMessages (good : Msg → Prop) (s : State P K Msg) : Prop where
  published : ∀ msg ∈ s.published, good msg
  calls : ∀ p msg, (s.publishers p).msg? = some msg → good msg

omit [DecidableEq P] [DecidableEq K] in
theorem allMessages_initial (good : Msg → Prop) :
    AllMessages good (initial : State P K Msg) where
  published := by simp [initial]
  calls := by simp [initial, PublishPc.msg?]

theorem AllMessages.step {good : Msg → Prop} {queueSize : Int} {s s' : State P K Msg}
    {l : Label P K Msg} (h : AllMessages good s)
    (hnew : ∀ p msg, l = .publish p msg → good msg)
    (hs : Publisher.step queueSize s l = some s') : AllMessages good s' where
  published := by
    intro msg hmsg
    rcases published_step hs with hsame | ⟨p, m, hcall, happ⟩
    · rw [hsame] at hmsg
      exact h.published msg hmsg
    · rw [happ, List.mem_append, List.mem_singleton] at hmsg
      rcases hmsg with hold | rfl
      · exact h.published msg hold
      · exact h.calls p msg hcall
  calls := by
    intro p msg hmsg
    rcases msg?_step hs hmsg with heq | hold
    · exact hnew p msg heq
    · exact h.calls p msg hold

end Steps

end Publisher
end DAQ
end DtCore
