import DtCore.DAQ.Publisher.Order
import DtCore.DAQ.Subscriber.Session

/-!
# From a publisher to a subscriber

A stream connects one session of a `StatePublisherGrpc<Pub>` with the session of a
`StateSubscriberGrpc<Sub>`.  Nothing compares the two message types when the call is set up.
`Publish` packs each message, gRPC hands the written messages to the reads of the subscriber
in their order, and the subscriber unpacks what it reads without a look at the result of
`UnpackTo`.

A write that fails stays outstanding here, and the `TryCancelCallAndShutdown` that follows it
is one of the cancellers' calls.  `Reconnect` makes a new session, which reads another stream.

Main definitions:

- `Stream` and `step`: both sessions and the messages between them.
- `SeesPublished`: the handler has only seen what was published.

Main results:

- Theorem `handler_sees_published`: between equal types the handler sees a subsequence of the
  published values.
- Theorem `sees_published_iff`: which steps keep `SeesPublished`.
-/

namespace DtCore
namespace DAQ
namespace Subscriber

open Foundation

variable {T P K : Type} {Value : T → Type} {Pub Sub : T}

/-! ## Both ends -/

/-- Pack what a `Publish` call is given. -/
def pack : Publisher.Label P K (Value Pub) → Publisher.Label P K (Any Value)
  | .publish p value => .publish p (packFrom value)
  | .publisher p => .publisher p
  | .deliver op => .deliver op
  | .event => .event
  | .cancel k => .cancel k

/-- A publisher session, a subscriber session, and the number of written messages that gRPC
has handed over. -/
structure Stream (P K : Type) (Value : T → Type) (Sub : T) where
  publisher : Publisher.State P K (Any Value)
  taken : Nat
  subscriber : Session Value Sub

/-- Both sessions are new. -/
def Stream.initial : Stream P K Value Sub where
  publisher := Publisher.initial
  taken := 0
  subscriber := Session.initial

/-- Which side moves. -/
inductive Label (P K : Type) (Value : T → Type) (Pub : T) where
  | publisher (l : Publisher.Label P K (Value Pub))
  | read
  | subscriber (l : SessionLabel)

/-- gRPC completes a read with the next written message. -/
def Stream.read (s : Stream P K Value Sub) : Option (Stream P K Value Sub) :=
  match s.publisher.written[s.taken]? with
  | none => none
  | some x =>
      (s.subscriber.receive x.msg).map (fun t =>
        { s with taken := s.taken + 1, subscriber := t })

/-- The step function of both sessions. -/
def step [DecidableEq T] [∀ t, Inhabited (Value t)] [DecidableEq P] [DecidableEq K]
    (queueSize : Int) (s : Stream P K Value Sub) :
    Label P K Value Pub → Option (Stream P K Value Sub)
  | .publisher l =>
      (Publisher.step queueSize s.publisher (pack l)).map (fun t => { s with publisher := t })
  | .read => s.read
  | .subscriber l => (s.subscriber.step l).map (fun t => { s with subscriber := t })

/-! ## What the handler sees -/

/-- The handler was called with published values only, in their order, and not at all if its
type is not the published one. -/
structure SeesPublished (Pub : T) (s : Stream P K Value Sub) : Prop where
  subsequence : (s.subscriber.seen.map packFrom).Sublist s.publisher.published
  same_type : Pub ≠ Sub → s.subscriber.seen = []

/-- The step calls the handler. -/
def HandsOver (s : Stream P K Value Sub) : Label P K Value Pub → Prop
  | .subscriber .receiver => s.subscriber.HandsOver
  | _ => False

/-- The messages that gRPC has handed over. -/
def Stream.received (s : Stream P K Value Sub) : List (Any Value) :=
  (s.publisher.written.take s.taken).map Numbered.msg

/-! ## The published messages -/

/-- Every message given to `Publish` packs a value of type `Pub`. -/
def Packs (Pub : T) (_ : Publisher.State P K (Any Value))
    (l : Publisher.Label P K (Any Value)) : Prop :=
  ∀ p msg, l = .publish p msg → msg.typeUrl = Pub

theorem pack_packs (s : Publisher.State P K (Any Value)) (l : Publisher.Label P K (Value Pub)) :
    Packs Pub s (pack l) := by
  intro p msg hl
  cases l with
  | publish r value =>
      cases hl
      rfl
  | publisher | deliver | event | cancel => cases hl

theorem published_typed [DecidableEq P] [DecidableEq K] {queueSize : Int}
    {s : Publisher.State P K (Any Value)}
    (hr : Reach (Publisher.step queueSize) (Packs Pub) Publisher.initial s) :
    ∀ msg ∈ s.published, msg.typeUrl = Pub := by
  have h : Publisher.AllMessages (fun msg : Any Value => msg.typeUrl = Pub) s := by
    apply hr.invariant
    · exact Publisher.allMessages_initial _
    · intro t l t' ht hok hs
      exact ht.step hok hs
  exact h.published

/-! ## Between equal types -/

/-- The handler has seen a part of what was handed over, and a message that waits to be handled
comes after that. -/
structure Delivered (s : Stream P K Value Sub) : Prop where
  control : Control s.subscriber
  seen : (s.subscriber.seen.map packFrom).Sublist s.received
  unread : s.subscriber.Unread → ∃ msg, s.subscriber.msg = some msg ∧
    (s.subscriber.seen.map packFrom ++ [msg]).Sublist s.received

theorem delivered_initial : Delivered (Stream.initial : Stream P K Value Sub) where
  control := control_initial
  seen := by simp [Stream.initial, Session.initial]
  unread h := by simp [Stream.initial, Session.initial, Session.Unread] at h

/-- The publisher writes at the end. -/
theorem Delivered.publisher [DecidableEq P] [DecidableEq K] {queueSize : Int}
    {s : Stream P K Value Sub}
    {t : Publisher.State P K (Any Value)} {l : Publisher.Label P K (Any Value)}
    (h : Delivered s) (hs : Publisher.step queueSize s.publisher l = some t) :
    Delivered { s with publisher := t } := by
  have hgrow : s.received.Sublist ({ s with publisher := t } : Stream P K Value Sub).received := by
    simp only [Stream.received, (Publisher.turn hs).written, List.take_append, List.map_append]
    exact List.sublist_append_left _ _
  constructor
  case control => exact h.control
  case seen => exact h.seen.trans hgrow
  case unread =>
    intro hunread
    rcases h.unread hunread with ⟨msg, hmsg, hsub⟩
    exact ⟨msg, hmsg, hsub.trans hgrow⟩

/-- A read takes the next written message. -/
theorem Delivered.read {s s' : Stream P K Value Sub} (h : Delivered s)
    (hs : s.read = some s') : Delivered s' := by
  unfold Stream.read at hs
  split at hs <;> simp only [reduceCtorEq, Option.map_eq_some_iff] at hs
  rename_i x hx
  rcases hs with ⟨t, ht, rfl⟩
  have hseen := receive_seen ht
  have hreceived : (⟨s.publisher, s.taken + 1, t⟩ : Stream P K Value Sub).received =
      s.received ++ [x.msg] := by
    simp [Stream.received, List.take_add_one, hx]
  constructor
  case control => exact h.control.receive ht
  case seen =>
    rw [hreceived]
    simp only [hseen]
    exact h.seen.trans (List.sublist_append_left _ _)
  case unread =>
    intro _
    rw [hreceived]
    simp only [hseen, receive_msg ht]
    exact ⟨x.msg, rfl, h.seen.append (List.Sublist.refl _)⟩

/-- The subscriber hands the unread message over or keeps it. -/
theorem Delivered.subscriber [DecidableEq T] [∀ t, Inhabited (Value t)]
    {s : Stream P K Value Sub} {t : Session Value Sub}
    {l : SessionLabel} (h : Delivered s) (htyped : ∀ msg ∈ s.received, msg.typeUrl = Sub)
    (hs : s.subscriber.step l = some t) : Delivered { s with subscriber := t } := by
  have hseen := Session.step_seen hs
  constructor
  case control => exact h.control.step hs
  case seen =>
    simp only [hseen, List.map_append]
    rcases Session.calls_cases s.subscriber l with hnone | ⟨hunread, hcall⟩
    · rw [hnone, List.map_nil, List.append_nil]
      exact h.seen
    · rcases h.unread hunread with ⟨msg, hmsg, hsub⟩
      have hmem : msg ∈ s.received := hsub.mem (by simp)
      rw [hcall, hmsg, List.map_singleton, packFrom_unpackTo msg (htyped msg hmem)]
      exact hsub
  case unread =>
    intro hunread
    rcases h.control.unread hs hunread with ⟨hbefore, hmsg, hsame⟩
    simp only [hmsg, hsame]
    exact h.unread hbefore

/-! ## All runs -/

section Runs

variable [DecidableEq T] [∀ t, Inhabited (Value t)] [DecidableEq P] [DecidableEq K]

/-- The publisher of a stream is a publisher session of its own. -/
theorem publisher_reach {queueSize : Int}
    {ok : Stream P K Value Sub → Label P K Value Pub → Prop} {s : Stream P K Value Sub}
    (hr : Reach (step queueSize) ok Stream.initial s) :
    Reach (Publisher.step queueSize) (Packs Pub) Publisher.initial s.publisher := by
  apply hr.project Stream.publisher
  intro s l s' _ hs
  cases l with
  | publisher l =>
      right
      simp only [step, Option.map_eq_some_iff] at hs
      rcases hs with ⟨t, ht, rfl⟩
      exact ⟨pack l, pack_packs s.publisher l, ht⟩
  | read =>
      left
      simp only [step, Stream.read] at hs
      split at hs <;> simp only [reduceCtorEq, Option.map_eq_some_iff] at hs
      rcases hs with ⟨t, ht, rfl⟩
      rfl
  | subscriber l =>
      left
      simp only [step, Option.map_eq_some_iff] at hs
      rcases hs with ⟨t, ht, rfl⟩
      rfl

/-- What gRPC hands over was published, in that order. -/
theorem received_published {queueSize : Int}
    {ok : Stream P K Value Sub → Label P K Value Pub → Prop} {s : Stream P K Value Sub}
    (hr : Reach (step queueSize) ok Stream.initial s) :
    s.received.Sublist s.publisher.published := by
  have hwritten := Publisher.written_in_order (publisher_reach hr)
  exact ((List.take_sublist s.taken s.publisher.written).map Numbered.msg).trans hwritten

/-- Between equal types the handler sees a subsequence of the published values. -/
theorem handler_sees_published {queueSize : Int}
    {ok : Stream P K Value Pub → Label P K Value Pub → Prop} {s : Stream P K Value Pub}
    (hr : Reach (step queueSize) ok Stream.initial s) : SeesPublished Pub s := by
  have hdelivered : Delivered s := by
    apply hr.invariant_with (fun t ht => ht)
    · exact delivered_initial
    · intro t l t' ht _ hinv _ hs
      cases l with
      | publisher l =>
          simp only [step, Option.map_eq_some_iff] at hs
          rcases hs with ⟨u, hu, rfl⟩
          exact hinv.publisher hu
      | read => exact hinv.read hs
      | subscriber l =>
          simp only [step, Option.map_eq_some_iff] at hs
          rcases hs with ⟨u, hu, rfl⟩
          apply hinv.subscriber _ hu
          intro msg hmsg
          exact published_typed (publisher_reach ht) msg ((received_published ht).mem hmsg)
  constructor
  case subsequence => exact hdelivered.seen.trans (received_published hr)
  case same_type =>
    intro hne
    contradiction

/-! ## Between any types -/

/-- A step calls the handler with at most one value, and only if it hands a message over. -/
theorem seen_step {queueSize : Int} {s s' : Stream P K Value Sub} {l : Label P K Value Pub}
    (hs : step queueSize s l = some s') :
    (HandsOver s l ∧ ∃ value, s'.subscriber.seen = s.subscriber.seen ++ [value]) ∨
      (¬ HandsOver s l ∧ s'.subscriber.seen = s.subscriber.seen) := by
  cases l with
  | publisher l =>
      right
      simp only [step, Option.map_eq_some_iff] at hs
      rcases hs with ⟨t, ht, rfl⟩
      exact ⟨id, rfl⟩
  | read =>
      right
      simp only [step, Stream.read] at hs
      split at hs <;> simp only [reduceCtorEq, Option.map_eq_some_iff] at hs
      rcases hs with ⟨t, ht, rfl⟩
      exact ⟨id, receive_seen ht⟩
  | subscriber l =>
      simp only [step, Option.map_eq_some_iff] at hs
      rcases hs with ⟨t, ht, rfl⟩
      have hseen := Session.step_seen ht
      cases l with
      | receiver =>
          by_cases hover : s.subscriber.HandsOver
          · left
            rw [Session.calls, if_pos hover] at hseen
            exact ⟨hover, _, hseen⟩
          · right
            rw [Session.calls, if_neg hover, List.append_nil] at hseen
            exact ⟨hover, hseen⟩
      | complete | drained | stop | register =>
          right
          exact ⟨id, hseen.trans (List.append_nil _)⟩

theorem published_step {queueSize : Int} {s s' : Stream P K Value Sub}
    {l : Label P K Value Pub} (hs : step queueSize s l = some s') :
    s.publisher.published.Sublist s'.publisher.published := by
  cases l with
  | publisher l =>
      simp only [step, Option.map_eq_some_iff] at hs
      rcases hs with ⟨t, ht, rfl⟩
      exact Publisher.published_grows ht
  | read =>
      simp only [step, Stream.read] at hs
      split at hs <;> simp only [reduceCtorEq, Option.map_eq_some_iff] at hs
      rcases hs with ⟨t, ht, rfl⟩
      exact List.Sublist.refl _
  | subscriber l =>
      simp only [step, Option.map_eq_some_iff] at hs
      rcases hs with ⟨t, ht, rfl⟩
      exact List.Sublist.refl _

/-- A step that calls no handler only adds published values. -/
theorem SeesPublished.of_no_call {queueSize : Int} {s s' : Stream P K Value Sub}
    {l : Label P K Value Pub} (h : SeesPublished Pub s) (hs : step queueSize s l = some s')
    (hseen : s'.subscriber.seen = s.subscriber.seen) : SeesPublished Pub s' where
  subsequence := by
    rw [hseen]
    exact h.subsequence.trans (published_step hs)
  same_type := by
    rw [hseen]
    exact h.same_type

/-- The types are equal, or the step hands no message over. -/
def Safe (s : Stream P K Value Sub) (l : Label P K Value Pub) : Prop :=
  Pub = Sub ∨ ¬ HandsOver s l

/-- A step from a state in which the handler has only seen published values keeps it so exactly
if it is safe. -/
theorem SeesPublished.step_iff {queueSize : Int} {s s' : Stream P K Value Sub}
    {l : Label P K Value Pub}
    (hr : Reach (step queueSize) (fun _ (_ : Label P K Value Pub) => True) Stream.initial s)
    (h : SeesPublished Pub s) (hs : step queueSize s l = some s') :
    SeesPublished Pub s' ↔ Safe s l := by
  by_cases htype : Pub = Sub
  · subst htype
    have hafter := handler_sees_published (Reach.step hr trivial hs)
    exact iff_of_true hafter (Or.inl rfl)
  · rcases seen_step hs with ⟨hover, value, hseen⟩ | ⟨hover, hseen⟩
    · -- the handler is called with a value of the wrong type
      apply iff_of_false
      · intro hafter
        have hnone := hafter.same_type htype
        simp [hseen] at hnone
      · intro hsafe
        rcases hsafe with heq | hno
        · exact htype heq
        · exact hno hover
    · exact iff_of_true (h.of_no_call hs hseen) (Or.inr hover)

/-- In every run whose steps are all safe the handler sees published values only, and the first
step that is not safe breaks it: a message of another type reaches the handler. -/
theorem sees_published_iff (queueSize : Int) :
    (∀ s : Stream P K Value Sub,
      Reach (step queueSize) (fun t (l : Label P K Value Pub) => Safe t l) Stream.initial s →
      SeesPublished Pub s) ∧
    ∀ (s s' : Stream P K Value Sub) (l : Label P K Value Pub),
      Reach (step queueSize) (fun _ (_ : Label P K Value Pub) => True) Stream.initial s →
      SeesPublished Pub s → step queueSize s l = some s' →
      (SeesPublished Pub s' ↔ Safe s l) := by
  apply And.intro
  · intro s hr
    apply hr.invariant_with (fun t ht => ht.mono (fun _ _ _ => trivial))
    · exact ⟨by simp [Stream.initial, Session.initial], fun _ => rfl⟩
    · intro t l t' hreach _ ht hsafe hs
      exact (ht.step_iff hreach hs).mpr hsafe
  · intro s s' l hr h hs
    exact h.step_iff hr hs

/-- Two message types with the same values. -/
abbrev TwoTypes (_ : Bool) : Type := Nat

instance decidableHandsOverStep (s : Stream P K Value Sub) :
    (l : Label P K Value Pub) → Decidable (HandsOver s l)
  | .publisher _ => inferInstanceAs (Decidable False)
  | .read => inferInstanceAs (Decidable False)
  | .subscriber .receiver => inferInstanceAs (Decidable s.subscriber.HandsOver)
  | .subscriber (.complete _) => inferInstanceAs (Decidable False)
  | .subscriber .drained => inferInstanceAs (Decidable False)
  | .subscriber .stop => inferInstanceAs (Decidable False)
  | .subscriber (.register _) => inferInstanceAs (Decidable False)

instance decidableSafe (s : Stream P K Value Sub) (l : Label P K Value Pub) :
    Decidable (Safe s l) :=
  inferInstanceAs (Decidable (_ ∨ _))

/-- The subscriber registers a handler and connects; one message is published, written, read
and handled. -/
def oneMessage (Pub : Bool) : List (Label Unit Unit TwoTypes Pub) :=
  [.subscriber (.register true), .publisher (.deliver .connect), .publisher .event,
    .publisher .event, .publisher .event, .publisher .event, .publisher .event,
    .subscriber (.complete (.start true)), .subscriber .receiver, .publisher (.publish () 7),
    .publisher (.publisher ()), .publisher (.publisher ()), .publisher (.publisher ()),
    .publisher (.publisher ()), .publisher (.publisher ()), .read, .subscriber .receiver]

end Runs

/-- The handler of a subscriber of the same type gets the published value. -/
theorem sees_published_iff_same :
    ∃ s : Stream Unit Unit TwoTypes true, s.subscriber.seen = [7] ∧ SeesPublished true s := by
  have hrun : (run (step 1) (fun t (l : Label Unit Unit TwoTypes true) => Safe t l)
      (Stream.initial : Stream Unit Unit TwoTypes true) (oneMessage true)).map
        (fun s => s.subscriber.seen) = some [7] := by decide
  rcases exists_reach_of_run hrun with ⟨s, hs, hseen⟩
  exact ⟨s, hseen, (sees_published_iff 1).1 s hs⟩

/-- The handler of a subscriber of another type is called with a value that nobody published. -/
theorem other_type_handled :
    ¬ ∀ s : Stream Unit Unit TwoTypes false,
      Reach (step 1) (fun _ (_ : Label Unit Unit TwoTypes true) => True) Stream.initial s →
      SeesPublished true s := by
  have hrun : (run (step 1) (fun _ (_ : Label Unit Unit TwoTypes true) => True)
      (Stream.initial : Stream Unit Unit TwoTypes false) (oneMessage true)).map
        (fun s => s.subscriber.seen) = some [0] := by decide
  rcases exists_reach_of_run hrun with ⟨s, hs, hseen⟩
  intro hclaim
  have hnone := (hclaim s hs).same_type (by decide)
  rw [hseen] at hnone
  contradiction

end Subscriber
end DAQ
end DtCore
