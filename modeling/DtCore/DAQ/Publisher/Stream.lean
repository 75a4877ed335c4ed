import DtCore.DAQ.Publisher.Control

/-!
# The stream of a publisher session

A session is a line of messages whose capacity is the queue size: a message is
written at once while no write is in flight, waits in `_msg_queue` otherwise,
and a full queue makes room by dropping its oldest message.

Main results:

- Theorem `step_line`: every step of an uncancelled session is a move of its
  line or leaves the line alone.
- Structure `StreamsInOrder` and theorem `session_streams_in_order`: one write in
  flight, the order of publishing, and the losses that each queue size allows.
-/

namespace DtCore
namespace DAQ
namespace Publisher

open Foundation

variable {P K Msg : Type}

/-! ## The session as a line -/

/-- The messages still to be written: the front of the queue stays in place until
its write was issued. -/
def State.waiting (s : State P K Msg) : List (Numbered Msg) :=
  if s.dispatcher = .popFront then s.msgQueue.tail else s.msgQueue

/-- The line of messages behind a session. -/
def State.line (s : State P K Msg) : Line Msg where
  published := s.published
  sent := s.written
  waiting := s.waiting
  entered := s.queued

theorem waiting_eq {s : State P K Msg} (h : s.dispatcher.locked = false) :
    s.waiting = s.msgQueue := by
  have hne : s.dispatcher ≠ .popFront := by
    intro heq
    simp [heq, EventPc.locked] at h
  simp [State.waiting, hne]

theorem line_initial : (initial : State P K Msg).line = Line.empty :=
  rfl

theorem deliver_line {s s' : State P K Msg} {op : Operation} (hs : s.deliver op = some s') :
    s'.line = s.line := by
  unfold State.deliver at hs
  split at hs
  · rename_i hnext
    split at hs <;> simp only [Option.some.injEq, reduceCtorEq] at hs
    subst hs
    simp [State.line, State.waiting, hnext]
  · rename_i hnext
    split at hs <;> simp only [Option.some.injEq, reduceCtorEq] at hs
    subst hs
    simp [State.line, State.waiting, hnext]
  · contradiction

/-- The dispatcher leaves the line alone except that it sends the front. -/
theorem eventStep_line {s s' : State P K Msg} (hs : s.eventStep = some s') :
    s'.line = s.line ∨ s'.line = s.line.sendNext := by
  unfold State.eventStep at hs
  split at hs <;> rename_i hpc
  · contradiction
  · simp only [Option.some.injEq] at hs
    subst hs
    left
    split <;> simp [State.line, State.waiting, hpc]
  · simp only [Option.some.injEq] at hs
    subst hs
    left
    split <;> simp [State.line, State.waiting, hpc]
  · simp only [Option.some.injEq] at hs
    subst hs
    left
    split <;> simp [State.line, State.waiting, hpc]
  · simp only [Option.some.injEq] at hs
    subst hs
    simp [State.line, State.waiting, hpc]
  · split at hs <;> simp only [Option.some.injEq, reduceCtorEq] at hs
    subst hs
    simp [State.line, State.waiting, hpc]
  · simp only [Option.some.injEq] at hs
    subst hs
    simp [State.line, State.waiting, hpc]
  · split at hs <;> simp only [Option.some.injEq, reduceCtorEq] at hs
    subst hs
    simp [State.line, State.waiting, hpc]
  · split at hs <;> simp only [Option.some.injEq] at hs <;> subst hs <;>
      simp [State.line, State.waiting, hpc]
  · simp only [Option.some.injEq] at hs
    subst hs
    simp [State.line, State.waiting, hpc]
  · -- writeFront
    split at hs <;> rename_i hqueue <;> simp only [Option.some.injEq, reduceCtorEq] at hs
    subst hs
    right
    simp [State.line, State.waiting, hpc, hqueue, Line.sendNext]
  · simp only [Option.some.injEq] at hs
    subst hs
    simp [State.line, State.waiting, hpc]
  · simp only [Option.some.injEq] at hs
    subst hs
    simp [State.line, State.waiting, hpc]
  · simp only [Option.some.injEq] at hs
    subst hs
    simp [State.line, State.waiting, hpc]
  · simp only [Option.some.injEq] at hs
    subst hs
    simp [State.line, State.waiting, hpc]

section Steps

variable [DecidableEq P]

@[simp]
theorem line_setPublisher (s : State P K Msg) (p : P) (pc : PublishPc Msg) :
    (s.setPublisher p pc).line = s.line :=
  rfl

theorem enterPublish_line {s s' : State P K Msg} {p : P} {msg : Msg}
    (hs : s.enterPublish p msg = some s') : s'.line = s.line := by
  rw [enterPublish_eq hs, line_setPublisher]

/-- Queueing a message is a move of the line whether or not the queue is full. -/
theorem enqueue_line {queueSize : Int} {s : State P K Msg} {p : P} {msg : Msg}
    (hdisp : s.dispatcher.locked = false) (hsize : queueSize ≠ 0) :
    Line.Step queueSize s.line ({ s.setPublisher p .unlock with
      msgQueue := makeRoom queueSize s.msgQueue ++ [s.number msg]
      published := s.published ++ [msg]
      queued := s.queued ++ [s.published.length] } : State P K Msg).line := by
  have hne : s.dispatcher ≠ .popFront := by
    intro heq
    simp [heq, EventPc.locked] at hdisp
  by_cases hfull : queueSize > 0 ∧ (s.msgQueue.length : Int) ≥ queueSize
  · have hline : ({ s.setPublisher p .unlock with
        msgQueue := makeRoom queueSize s.msgQueue ++ [s.number msg]
        published := s.published ++ [msg]
        queued := s.queued ++ [s.published.length] } : State P K Msg).line =
          s.line.dropOldest.enter msg := by
      simp [State.line, State.waiting, makeRoom, hfull, hne, Line.dropOldest, Line.enter,
        Line.number, State.number]
    rw [hline]
    apply Line.Step.replace hfull.1
    simpa [State.line, waiting_eq hdisp] using hfull.2
  · have hline : ({ s.setPublisher p .unlock with
        msgQueue := makeRoom queueSize s.msgQueue ++ [s.number msg]
        published := s.published ++ [msg]
        queued := s.queued ++ [s.published.length] } : State P K Msg).line =
          s.line.enter msg := by
      simp [State.line, State.waiting, makeRoom, hfull, hne, Line.enter, Line.number,
        State.number]
    rw [hline]
    exact Line.Step.enter hsize msg

theorem publishStep_line {queueSize : Int} {s s' : State P K Msg} {p : P} (h : Control s)
    (hs : s.publishStep queueSize p = some s') : Line.Step queueSize s.line s'.line := by
  have hholds := h.publisher_holds p
  have hok := h.publisher_ok p
  have hphase := h.phase
  unfold State.publishStep at hs
  split at hs <;> rename_i hpc
  · contradiction
  · split at hs <;> simp only [Option.some.injEq, reduceCtorEq] at hs
    subst hs
    exact Line.Step.idle
  · split at hs <;> simp only [Option.some.injEq] at hs <;> subst hs
    · exact Line.Step.idle
    · exact Line.Step.idle
    · -- no message is given up after the connection
      have hconn : s.connected = false := by
        cases hc : s.callState <;> simp_all [PhaseOk]
      simp only [hconn]
      exact Line.Step.idle
  · -- enqueue
    rename_i msg
    have hdisp := h.dispatcher_unlocked (hholds (by rw [hpc]; rfl))
    split at hs <;> rename_i hsize <;> simp only [Option.some.injEq] at hs <;> subst hs
    · exact Line.Step.refuse hsize msg
    · exact enqueue_line hdisp hsize
  · simp only [Option.some.injEq] at hs
    subst hs
    exact Line.Step.idle
  · -- write
    rename_i msg
    simp only [Option.some.injEq] at hs
    subst hs
    rw [hpc] at hok
    rcases hok with ⟨_, _, hnext, hqueue⟩
    apply Line.Step.sendNow _ msg
    simp [State.line, State.waiting, hqueue]
  · simp only [Option.some.injEq] at hs
    subst hs
    exact Line.Step.idle

/-- A session is a line whose capacity is the queue size. -/
theorem step_line [DecidableEq K] {queueSize : Int} {s s' : State P K Msg}
    {l : Label P K Msg} (h : Control s) (hok : NeverCancelled s l)
    (hs : step queueSize s l = some s') : Line.Step queueSize s.line s'.line := by
  cases l with
  | publish p msg =>
      rw [enterPublish_line hs]
      exact Line.Step.idle
  | publisher p => exact publishStep_line h hs
  | deliver op =>
      rw [deliver_line hs]
      exact Line.Step.idle
  | event =>
      rcases eventStep_line hs with heq | hsend
      · rw [heq]
        exact Line.Step.idle
      · rw [hsend]
        exact Line.Step.sendNext
  | cancel k => exact hok.elim

theorem line_good [DecidableEq K] (queueSize : Int) {s : State P K Msg}
    (h : Reach (step queueSize) NeverCancelled initial s) : Line.Good queueSize s.line := by
  apply h.invariant_with (fun _ => control_reachable queueSize)
  · rw [line_initial]
    exact Line.good_empty queueSize
  · intro s l s' hctl _ hgood hok hs
    exact (step_line hctl hok hs).good hgood

end Steps

/-! ## The length of the queue -/

/-- The bound that the queue size sets. -/
def QueueFits (queueSize : Int) (queue : List (Numbered Msg)) : Prop :=
  (0 < queueSize → (queue.length : Int) ≤ queueSize) ∧ (queueSize = 0 → queue = [])

theorem QueueFits.tail {queueSize : Int} {queue : List (Numbered Msg)}
    (h : QueueFits queueSize queue) : QueueFits queueSize queue.tail := by
  constructor
  · intro hpos
    have hlen := h.1 hpos
    rw [List.length_tail]
    omega
  · intro hzero
    rw [h.2 hzero]
    rfl

/-- `Publish` makes room before it queues. -/
theorem QueueFits.enqueue {queueSize : Int} {queue : List (Numbered Msg)}
    (h : QueueFits queueSize queue) (hsize : queueSize ≠ 0) (x : Numbered Msg) :
    QueueFits queueSize (makeRoom queueSize queue ++ [x]) := by
  constructor
  · intro hpos
    have hlen := h.1 hpos
    unfold makeRoom
    split
    · rename_i hfull
      rw [List.length_append, List.length_tail, List.length_singleton]
      omega
    · rename_i hroom
      rw [List.length_append, List.length_singleton]
      omega
  · intro hzero
    contradiction

theorem queueFits_step [DecidableEq P] [DecidableEq K] {queueSize : Int}
    {s s' : State P K Msg} {l : Label P K Msg} (h : QueueFits queueSize s.msgQueue)
    (hs : step queueSize s l = some s') : QueueFits queueSize s'.msgQueue := by
  cases l with
  | publish p msg =>
      rw [enterPublish_eq hs]
      exact h
  | publisher p =>
      simp only [step, State.publishStep] at hs
      split at hs
      · contradiction
      · split at hs <;> simp only [Option.some.injEq, reduceCtorEq] at hs
        subst hs
        exact h
      · split at hs <;> simp only [Option.some.injEq] at hs <;> subst hs <;> exact h
      · split at hs <;> rename_i hsize <;> simp only [Option.some.injEq] at hs <;> subst hs
        · exact h
        · exact h.enqueue hsize _
      · simp only [Option.some.injEq] at hs
        subst hs
        exact h
      · simp only [Option.some.injEq] at hs
        subst hs
        exact h
      · simp only [Option.some.injEq] at hs
        subst hs
        exact h
  | deliver op =>
      simp only [step, State.deliver] at hs
      split at hs
      · split at hs <;> simp only [Option.some.injEq, reduceCtorEq] at hs
        subst hs
        exact h
      · split at hs <;> simp only [Option.some.injEq, reduceCtorEq] at hs
        subst hs
        exact h
      · contradiction
  | event =>
      simp only [step, State.eventStep] at hs
      split at hs <;> try split at hs
      all_goals simp only [Option.some.injEq, reduceCtorEq] at hs
      all_goals subst hs
      all_goals first | exact h | exact h.tail
  | cancel k =>
      simp only [step, State.cancelStep] at hs
      split at hs <;> try split at hs
      all_goals simp only [Option.some.injEq, reduceCtorEq] at hs
      all_goals subst hs
      all_goals exact h

theorem queueFits_reachable [DecidableEq P] [DecidableEq K] (queueSize : Int)
    {s : State P K Msg} (h : Reach (step queueSize) NeverCancelled initial s) :
    QueueFits queueSize s.msgQueue := by
  apply h.invariant
  · constructor
    · intro hpos
      simp only [initial, List.length_nil]
      omega
    · intro _
      rfl
  · intro s l s' hfits _ hs
    exact queueFits_step hfits hs

/-! ## The stream -/

/-- Message `i` was written or is still queued. -/
def State.Delivers (s : State P K Msg) (i : Nat) : Prop :=
  ∃ x ∈ s.written ++ s.msgQueue, x.seq = i ∧ s.published[i]? = some x.msg

/-- What a session guarantees in every state.  `published` lists the messages
published since the connection, and `queued` the numbers of those that were
queued. -/
structure StreamsInOrder (queueSize : Int) (s : State P K Msg) : Prop where
  one_write : s.outstanding ≤ 1
  subsequence : (s.written.map Numbered.msg).Sublist s.published
  written_published : ∀ x ∈ s.written, s.published[x.seq]? = some x.msg
  written_once : (s.written.map Numbered.seq).Pairwise (· < ·)
  ready : s.callState = .readyToWrite → s.outstanding = 0 ∧ s.msgQueue = []
  queued_published : s.queued.Sublist (List.range s.published.length)
  unlimited : queueSize < 0 → ∀ i, i < s.published.length → s.Delivers i
  bounded : 0 < queueSize → (s.msgQueue.length : Int) ≤ queueSize
  discards_oldest : 0 < queueSize → ∀ i, i < s.published.length →
    s.Delivers i ∨ queueSize ≤ ((s.queued.filter (i < ·)).length : Int)
  unqueued : queueSize = 0 → s.msgQueue = []

theorem Control.one_write {s : State P K Msg} (h : Control s) : s.outstanding ≤ 1 := by
  have hphase := h.phase
  cases hc : s.callState <;> simp_all [PhaseOk]

theorem delivers_of_keeps {s : State P K Msg} (h : s.line.Ordered) {i : Nat}
    (hi : s.line.Keeps i) : s.Delivers i := by
  rcases hi with ⟨x, hx, rfl⟩
  apply Exists.intro x
  constructor
  · have hsub : s.waiting.Sublist s.msgQueue := by
      unfold State.waiting
      split
      · exact List.tail_sublist _
      · exact List.Sublist.refl _
    exact ((List.Sublist.refl s.written).append hsub).mem hx
  · exact ⟨rfl, h.indexed x hx⟩

/-- A session that is never cancelled streams in order with at most one write in
flight, for every queue size and every interleaving. -/
theorem session_streams_in_order [DecidableEq P] [DecidableEq K] (queueSize : Int)
    (s : State P K Msg) (h : Reach (step queueSize) NeverCancelled initial s) :
    StreamsInOrder queueSize s := by
  have hctl := control_reachable queueSize h
  have hgood := line_good queueSize h
  have hfits := queueFits_reachable queueSize h
  have hord := hgood.ordered
  constructor
  · exact hctl.one_write
  · exact hord.sent_subsequence
  · intro x hx
    exact hord.indexed x (List.mem_append_left _ hx)
  · exact hord.sent_increasing
  · intro hready
    have hphase := hctl.phase
    rw [hready] at hphase
    exact ⟨hphase.2.1, hphase.2.2.1⟩
  · exact hord.entered_published
  · intro hneg i hi
    exact delivers_of_keeps hord (hgood.unlimited hneg i hi)
  · exact hfits.1
  · intro hpos i hi
    rcases hgood.limited hpos i hi with hkeep | hover
    · exact Or.inl (delivers_of_keeps hord hkeep)
    · right
      have hle : queueSize.toNat ≤ (s.queued.filter (i < ·)).length := hover
      omega
  · exact hfits.2

/-- Two threads publish three messages into a queue of one while the first write
is in flight: the second message is dropped for the third, which is written when
the completion arrives. -/
def dropSchedule : List (Label Nat Nat Nat) :=
  [.deliver .connect, .event, .event, .event, .event, .event, .publish 0 10, .publish 1 20,
    .publisher 0, .publisher 0, .publisher 0, .publisher 0, .publisher 0, .publisher 1,
    .publisher 1, .publisher 1, .publisher 1, .publish 0 30, .publisher 0, .publisher 0,
    .deliver .write, .event, .event, .publisher 0, .publisher 0, .event, .event, .event,
    .event, .event, .event]

theorem session_streams_in_order_dropping :
    ∃ s : State Nat Nat Nat, s.published = [10, 20, 30] ∧
      s.written.map Numbered.msg = [10, 30] ∧ StreamsInOrder 1 s := by
  have hrun : (run (step 1) NeverCancelled (initial : State Nat Nat Nat) dropSchedule).map
      (fun s => (s.published, s.written.map Numbered.msg)) =
        some ([10, 20, 30], [10, 30]) := by decide
  rcases exists_reach_of_run hrun with ⟨s, hs, hobs⟩
  simp only [Prod.mk.injEq] at hobs
  exact ⟨s, hobs.1, hobs.2, session_streams_in_order 1 s hs⟩

end Publisher
end DAQ
end DtCore
