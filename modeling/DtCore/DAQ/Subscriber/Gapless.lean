import DtCore.DAQ.Publisher.Stream
import DtCore.DAQ.Subscriber.Stream

/-!
# A stream without gaps

With a queue of unlimited size a publisher session that is never cancelled loses
nothing, and a subscriber whose handler is registered hands over every message
before it asks for the next one.  Together the values that the handler has seen are
always the first ones that were published, and while the subscriber still reads,
each of the others is at one known place on its way.

Main definitions:

- `Session.Reads`: no side has ended the call of the subscriber.
- `Listens`: the runs in which a handler is registered for every message.
- `Gapless`: where the published values are.

Main results:

- Theorem `Handled.step`: the subscriber hands over what it received, in order and
  without gaps.
- Theorem `stream_gapless`: the values are handled, unread, handed to gRPC or queued.
-/

namespace DtCore
namespace DAQ
namespace Subscriber

open Foundation

variable {T P K : Type} {Value : T → Type} {Pub Sub : T}

/-! ## The subscriber -/

/-- The call waits for its start or for the next message. -/
def Session.Reads (s : Session Value Sub) : Prop :=
  s.callState = .waitStart ∨ s.callState = .waitReadDone

instance decidableReads (s : Session Value Sub) : Decidable s.Reads :=
  inferInstanceAs (Decidable (_ ∨ _))

/-- The message that was read and not handled. -/
def Session.unread (s : Session Value Sub) : List (Any Value) :=
  if s.Unread then s.msg.toList else []

theorem unread_of_receiver {s : Session Value Sub} (h : s.receiver ≠ .event) :
    s.unread = [] := by
  simp [Session.unread, Session.Unread, h]

theorem unread_of_waitStart {s : Session Value Sub} (h : s.callState = .waitStart) :
    s.unread = [] := by
  simp [Session.unread, Session.Unread, h]

theorem Session.Unread.reads {s : Session Value Sub} (h : s.Unread) : s.Reads :=
  Or.inr h.2

/-- A call that ends is never read again. -/
theorem reads_tryCancelCallAndShutdown {s : Session Value Sub}
    (h : s.tryCancelCallAndShutdown.Reads) :
    s.callState = .waitStart ∧ s.tryCancelCallAndShutdown = s := by
  unfold Session.tryCancelCallAndShutdown at h ⊢
  split at h
  · simp [Session.Reads] at h
  · rename_i hstate
    rw [if_neg hstate]
    constructor
    · rcases h with hstart | hread
      · exact hstart
      · simp [hread] at hstate
    · rfl

/-- The subscriber has handed over what it received, up to the message that it is
about to handle and as long as it reads. -/
structure Handled (s : Session Value Sub) (received : List (Any Value)) : Prop where
  control : Control s
  status : s.Reads → s.statusOk = true
  arrived : s.Unread → ∃ msg, s.msg = some msg
  in_order : s.seen.map packFrom <+: received
  all : s.Reads → s.seen.map packFrom ++ s.unread = received

theorem handled_initial : Handled (Session.initial : Session Value Sub) [] where
  control := control_initial
  status _ := rfl
  arrived h := by simp [Session.initial, Session.Unread] at h
  in_order := by simp [Session.initial]
  all _ := by simp [Session.initial, Session.unread, Session.Unread]

/-- gRPC hands over a message when the one before it was handled. -/
theorem Handled.receive {s s' : Session Value Sub} {received : List (Any Value)}
    {msg : Any Value} (h : Handled s received) (hs : s.receive msg = some s') :
    Handled s' (received ++ [msg]) := by
  have hcontrol := h.control.receive hs
  unfold Session.receive at hs
  split at hs <;> simp only [Option.some.injEq, reduceCtorEq] at hs
  rename_i hnext
  subst hs
  constructor
  case control => exact hcontrol
  case status => exact h.status
  case arrived => simp
  case in_order => exact h.in_order.trans (List.prefix_append _ _)
  case all =>
    intro hreads
    have hbefore : s.unread = [] := unread_of_receiver (by simp [hnext.1])
    have hall := h.all hreads
    have hstate : s.callState = .waitReadDone := by
      rcases hreads with hstart | hread
      · exact absurd hstart (h.control.read hnext.2)
      · exact hread
    rw [hbefore, List.append_nil] at hall
    simp [Session.unread, Session.Unread, hstate, hall]

section Steps

variable [DecidableEq T] [∀ t, Inhabited (Value t)]

/-- What the event does while the call is read. -/
theorem onCompletionEvent_reads {s : Session Value Sub} (hstatus : s.Reads → s.statusOk = true)
    (h : s.onCompletionEvent.2.Reads) :
    s.Reads ∧ s.onCompletionEvent.1 = true ∧ s.onCompletionEvent.2.statusOk = true := by
  have hreads : s.Reads := by
    unfold Session.onCompletionEvent at h
    split at h <;> rename_i hstate
    · exact Or.inl hstate
    · exact Or.inr hstate
    · simp [Session.Reads] at h
    · exact h
  have hok := hstatus hreads
  rcases hreads with hstart | hread
  · simp [Session.onCompletionEvent, Session.startRead, Session.Reads, hstart, hok]
  · unfold Session.onCompletionEvent Session.handle Session.startRead
    by_cases hhandler : s.handler = true <;> simp [Session.Reads, hread, hok, hhandler]

/-- The calls of a step and what is unread after it are what was unread before. -/
structure Hands (s s' : Session Value Sub) (l : SessionLabel) : Prop where
  reads : s.Reads
  status : s'.statusOk = true
  unread : (s.calls l).map packFrom ++ s'.unread = s.unread

theorem Handled.hands_receiver {s s' : Session Value Sub} {received : List (Any Value)}
    (h : Handled s received) (htyped : ∀ msg ∈ received, msg.typeUrl = Sub)
    (hlistens : s.Unread → s.handler = true)
    (hs : s.receiverStep = some s') (hreads : s'.Reads) : Hands s s' .receiver := by
  unfold Session.receiverStep at hs
  split at hs <;> rename_i hpc
  · -- the event
    have hafter : s.onCompletionEvent.2.Reads := by
      split at hs <;> rename_i heq <;> simp only [Option.some.injEq] at hs <;> subst hs <;>
        rw [heq] <;> exact hreads
    rcases onCompletionEvent_reads h.status hafter with ⟨hbefore, htrue, hok⟩
    have hnone : s'.unread = [] ∧ s'.statusOk = true := by
      split at hs <;> rename_i heq <;> simp only [Option.some.injEq] at hs <;> subst hs <;>
        rw [heq] at htrue hok
      · exact ⟨unread_of_receiver (by simp), hok⟩
      · contradiction
    refine ⟨hbefore, hnone.2, ?_⟩
    rw [hnone.1, List.append_nil]
    by_cases hunread : s.Unread
    · -- the message is handled
      have hover : s.HandsOver := ⟨hunread, h.status hbefore, hlistens hunread⟩
      rcases h.arrived hunread with ⟨msg, hmsg⟩
      have hmem : msg ∈ received := by
        rw [← h.all hbefore]
        simp [Session.unread, hunread, hmsg]
      rw [Session.calls, if_pos hover, hmsg, List.map_singleton,
        packFrom_unpackTo msg (htyped msg hmem)]
      simp [Session.unread, hunread, hmsg]
    · have hover : ¬ s.HandsOver := fun hover => hunread hover.1
      simp [Session.calls, hover, Session.unread, hunread]
  · -- the end of the loop
    simp only [Option.some.injEq] at hs
    subst hs
    rcases reads_tryCancelCallAndShutdown hreads with ⟨hstart, hsame⟩
    have hover : ¬ s.HandsOver := by simp [Session.HandsOver, Session.Unread, hpc]
    refine ⟨Or.inl hstart, ?_, ?_⟩
    · simp only [hsame]
      exact h.status (Or.inl hstart)
    · rw [unread_of_receiver (by simp), unread_of_waitStart hstart]
      simp [Session.calls, hover]
  · contradiction

theorem Handled.hands {s s' : Session Value Sub} {received : List (Any Value)}
    {l : SessionLabel} (h : Handled s received)
    (htyped : ∀ msg ∈ received, msg.typeUrl = Sub)
    (hlistens : l = .receiver → s.Unread → s.handler = true)
    (hs : s.step l = some s') (hreads : s'.Reads) : Hands s s' l := by
  cases l with
  | complete c =>
      simp only [Session.step, Session.complete] at hs
      split at hs <;> (try split at hs) <;>
        simp only [Option.some.injEq, reduceCtorEq] at hs <;> rename_i hnext hpend <;> subst hs
      · -- the call has started
        have hstart := h.control.start hpend
        refine ⟨hreads, h.status hreads, ?_⟩
        rw [unread_of_waitStart hstart, unread_of_waitStart (by exact hstart)]
        rfl
      · refine ⟨hreads, h.status hreads, ?_⟩
        rw [unread_of_receiver (by simp), unread_of_receiver (by simp [hnext])]
        rfl
      · -- the end of the call
        exfalso
        rcases h.control.finish hpend with hend | hend <;> simp [Session.Reads, hend] at hreads
  | receiver => exact h.hands_receiver htyped (hlistens rfl) hs hreads
  | drained =>
      simp only [Session.step] at hs
      split at hs <;> simp only [Option.some.injEq, reduceCtorEq] at hs
      rename_i hnext
      subst hs
      refine ⟨hreads, h.status hreads, ?_⟩
      rw [unread_of_receiver (by simp), unread_of_receiver (by simp [hnext.1])]
      rfl
  | stop =>
      simp only [Session.step, Session.stopStep] at hs
      split at hs <;> (try split at hs) <;>
        simp only [Option.some.injEq, reduceCtorEq] at hs <;> subst hs
      · rcases reads_tryCancelCallAndShutdown hreads with ⟨hstart, hsame⟩
        refine ⟨Or.inl hstart, ?_, ?_⟩
        · simp only [hsame]
          exact h.status (Or.inl hstart)
        · rw [unread_of_waitStart hstart, unread_of_waitStart (by simp only [hsame, hstart])]
          rfl
      · exact ⟨hreads, h.status hreads, rfl⟩
      · exact ⟨hreads, h.status hreads, rfl⟩
  | register handler =>
      simp only [Session.step, Option.some.injEq] at hs
      subst hs
      exact ⟨hreads, h.status hreads, rfl⟩

/-- Every step of the subscriber hands over in order and without gaps. -/
theorem Handled.step {s s' : Session Value Sub} {received : List (Any Value)}
    {l : SessionLabel} (h : Handled s received)
    (htyped : ∀ msg ∈ received, msg.typeUrl = Sub)
    (hlistens : l = .receiver → s.Unread → s.handler = true)
    (hs : s.step l = some s') : Handled s' received := by
  have hseen := Session.step_seen hs
  constructor
  case control => exact h.control.step hs
  case status =>
    intro hreads
    exact (h.hands htyped hlistens hs hreads).status
  case arrived =>
    intro hunread
    rcases h.control.unread hs hunread with ⟨hbefore, hmsg, _⟩
    rw [hmsg]
    exact h.arrived hbefore
  case in_order =>
    rw [hseen, List.map_append]
    rcases Session.calls_cases s l with hnone | ⟨hunread, hcall⟩
    · rw [hnone, List.map_nil, List.append_nil]
      exact h.in_order
    · rcases h.arrived hunread with ⟨msg, hmsg⟩
      have hall := h.all hunread.reads
      rw [Session.unread, if_pos hunread, hmsg, Option.toList_some] at hall
      have hmem : msg ∈ received := by simp [← hall]
      rw [hcall, hmsg, List.map_singleton, packFrom_unpackTo msg (htyped msg hmem)]
      exact ⟨[], (List.append_nil _).trans hall⟩
  case all =>
    intro hreads
    have hhands := h.hands htyped hlistens hs hreads
    rw [hseen, List.map_append, List.append_assoc, hhands.unread]
    exact h.all hhands.reads

end Steps

/-! ## The stream -/

/-- No canceller of the publisher moves, and a handler is registered whenever a
message is about to be handled. -/
def Listens (s : Stream P K Value Sub) : Label P K Value Pub → Prop
  | .publisher (.cancel _) => False
  | .subscriber .receiver => s.subscriber.Unread → s.subscriber.handler = true
  | _ => True

instance decidableListens (s : Stream P K Value Sub) :
    (l : Label P K Value Pub) → Decidable (Listens s l)
  | .publisher (.publish _ _) => inferInstanceAs (Decidable True)
  | .publisher (.publisher _) => inferInstanceAs (Decidable True)
  | .publisher (.deliver _) => inferInstanceAs (Decidable True)
  | .publisher .event => inferInstanceAs (Decidable True)
  | .publisher (.cancel _) => inferInstanceAs (Decidable False)
  | .read => inferInstanceAs (Decidable True)
  | .subscriber .receiver =>
      inferInstanceAs (Decidable (s.subscriber.Unread → s.subscriber.handler = true))
  | .subscriber (.complete _) => inferInstanceAs (Decidable True)
  | .subscriber .drained => inferInstanceAs (Decidable True)
  | .subscriber .stop => inferInstanceAs (Decidable True)
  | .subscriber (.register _) => inferInstanceAs (Decidable True)

/-- The values that were handed to gRPC and not to the subscriber. -/
def Stream.inFlight (s : Stream P K Value Sub) : List (Any Value) :=
  (s.publisher.written.drop s.taken).map Numbered.msg

/-- The values that wait for their write. -/
def Stream.queued (s : Stream P K Value Sub) : List (Any Value) :=
  s.publisher.waiting.map Numbered.msg

/-- The handler has seen the first values of those that were published, and as long
as the subscriber reads, the others are on their way in their order. -/
structure Gapless (s : Stream P K Value Sub) : Prop where
  in_order : s.subscriber.seen.map packFrom <+: s.publisher.published
  conserved : s.subscriber.Reads → s.publisher.published =
    s.subscriber.seen.map packFrom ++ s.subscriber.unread ++ s.inFlight ++ s.queued

section Runs

variable [DecidableEq T] [∀ t, Inhabited (Value t)] [DecidableEq P] [DecidableEq K]

omit [DecidableEq T] [∀ t, Inhabited (Value t)] in
theorem received_publisher {queueSize : Int} {s : Stream P K Value Sub}
    {t : Publisher.State P K (Any Value)} {l : Publisher.Label P K (Any Value)}
    (htaken : s.taken ≤ s.publisher.written.length)
    (hs : Publisher.step queueSize s.publisher l = some t) :
    ({ s with publisher := t } : Stream P K Value Sub).received = s.received := by
  simp only [Stream.received, (Publisher.turn hs).written]
  rw [List.take_append_of_le_length htaken]

/-- Nothing is taken that was not written. -/
theorem taken_le {queueSize : Int} {ok : Stream P K Value Sub → Label P K Value Pub → Prop}
    {s : Stream P K Value Sub} (hr : Reach (step queueSize) ok Stream.initial s) :
    s.taken ≤ s.publisher.written.length := by
  refine @Reach.invariant _ _ (step queueSize) ok Stream.initial
    (fun t => t.taken ≤ t.publisher.written.length) ?_ ?_ _ hr
  · exact Nat.zero_le _
  · intro t l t' ht _ hs
    cases l with
    | publisher l =>
        simp only [step, Option.map_eq_some_iff] at hs
        rcases hs with ⟨u, hu, rfl⟩
        simp only [(Publisher.turn hu).written, List.length_append]
        omega
    | read =>
        simp only [step, Stream.read] at hs
        split at hs <;> simp only [reduceCtorEq, Option.map_eq_some_iff] at hs
        rename_i x hx
        rcases hs with ⟨u, hu, rfl⟩
        exact (List.getElem?_eq_some_iff.mp hx).1
    | subscriber l =>
        simp only [step, Option.map_eq_some_iff] at hs
        rcases hs with ⟨u, hu, rfl⟩
        exact ht

theorem handled_reachable {queueSize : Int} {s : Stream P K Value Pub}
    (hr : Reach (step queueSize) (fun t (l : Label P K Value Pub) => Listens t l)
      Stream.initial s) : Handled s.subscriber s.received := by
  apply hr.invariant_with (fun t ht => ht)
  · exact handled_initial
  · intro t l t' ht _ hinv hok hs
    cases l with
    | publisher l =>
        simp only [step, Option.map_eq_some_iff] at hs
        rcases hs with ⟨u, hu, rfl⟩
        rw [received_publisher (taken_le ht) hu]
        exact hinv
    | read =>
        simp only [step, Stream.read] at hs
        split at hs <;> simp only [reduceCtorEq, Option.map_eq_some_iff] at hs
        rename_i x hx
        rcases hs with ⟨u, hu, rfl⟩
        have hreceived : (⟨t.publisher, t.taken + 1, u⟩ : Stream P K Value Pub).received =
            t.received ++ [x.msg] := by
          simp [Stream.received, List.take_add_one, hx]
        rw [hreceived]
        exact hinv.receive hu
    | subscriber l =>
        simp only [step, Option.map_eq_some_iff] at hs
        rcases hs with ⟨u, hu, rfl⟩
        apply hinv.step _ _ hu
        · intro msg hmsg
          exact published_typed (publisher_reach ht) msg ((received_published ht).mem hmsg)
        · intro hl
          subst hl
          exact hok

/-- The publisher of such a run is never cancelled. -/
theorem never_cancelled {queueSize : Int} {s : Stream P K Value Sub}
    (hr : Reach (step queueSize) (fun t (l : Label P K Value Pub) => Listens t l)
      Stream.initial s) :
    Reach (Publisher.step queueSize) Publisher.NeverCancelled Publisher.initial s.publisher := by
  apply hr.project Stream.publisher
  intro s l s' hok hs
  cases l with
  | publisher l =>
      right
      simp only [step, Option.map_eq_some_iff] at hs
      rcases hs with ⟨t, ht, rfl⟩
      refine ⟨pack l, ?_, ht⟩
      cases l with
      | cancel k => exact hok.elim
      | publish | publisher | deliver | event => trivial
  | read =>
      left
      simp only [step, Stream.read] at hs
      split at hs <;> simp only [reduceCtorEq, Option.map_eq_some_iff] at hs
      rcases hs with ⟨t, ht, rfl⟩
      rfl
  | subscriber l =>
      left
      simp only [step, Option.map_eq_some_iff] at hs
      rcases hs with ⟨t, ht, rfl⟩
      rfl

/-- With a queue of unlimited size, no cancellation and a registered handler the
handler sees the published values from the first one on, without a gap. -/
theorem stream_gapless {queueSize : Int} (hsize : queueSize < 0) {s : Stream P K Value Pub}
    (hr : Reach (step queueSize) (fun t (l : Label P K Value Pub) => Listens t l)
      Stream.initial s) : Gapless s := by
  have hgood := Publisher.line_good queueSize (never_cancelled hr)
  have hkept := (hgood.unlimited hsize).kept_eq hgood.ordered
  have hpublished : s.received ++ s.inFlight ++ s.queued = s.publisher.published := by
    rw [Stream.received, Stream.inFlight, Stream.queued, ← List.map_append,
      List.take_append_drop, ← List.map_append]
    exact hkept
  have hhandled := handled_reachable hr
  constructor
  · rw [← hpublished, List.append_assoc]
    exact hhandled.in_order.trans (List.prefix_append _ _)
  · intro hreads
    rw [hhandled.all hreads, hpublished]

end Runs

/-- Three messages: the first is handled, the second read and the third queued. -/
def threeMessages : List (Label Unit Unit TwoTypes true) :=
  oneMessage true ++ [.publisher (.publish () 8), .publisher (.publisher ()),
    .publisher (.publisher ()), .publisher (.publisher ()), .publisher (.publisher ()),
    .publisher (.publish () 9), .publisher (.publisher ()), .publisher (.publisher ()),
    .publisher (.publisher ()), .publisher (.publisher ()), .publisher (.deliver .write),
    .publisher .event, .publisher .event, .publisher .event, .publisher .event,
    .publisher .event, .publisher .event, .read]

theorem stream_gapless_three :
    ∃ s : Stream Unit Unit TwoTypes true, s.subscriber.seen = [7] ∧
      s.publisher.published.map Any.value = [7, 8, 9] ∧ Gapless s := by
  have hrun : (run (step (-1)) (fun t (l : Label Unit Unit TwoTypes true) => Listens t l)
      (Stream.initial : Stream Unit Unit TwoTypes true) threeMessages).map
        (fun s => (s.subscriber.seen, s.publisher.published.map Any.value)) =
          some ([7], [7, 8, 9]) := by decide
  rcases exists_reach_of_run hrun with ⟨s, hs, hobserved⟩
  simp only [Prod.mk.injEq] at hobserved
  exact ⟨s, hobserved.1, hobserved.2, stream_gapless (by decide) hs⟩

end Subscriber
end DAQ
end DtCore
