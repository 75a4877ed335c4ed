import Mathlib.Data.List.Range
import DtCore.DAQ.Publisher.Session

/-!
# The server and its sessions

`StatePublisherGrpc` keeps its sessions in a map.  The dispatcher thread takes the
completions from gRPC: a successful one goes to `OnCompletionEvent` of its session, a
failed one to `TryCancelCallAndShutdown`.  A session whose connection request completes
adds a session for the next one to the map; `RemoveSession` is called in the state
`WAIT_FINISH` only.  `Publish` holds `_session_mtx` and visits all sessions.

Every session is the step system of its own, with the dispatcher as its canceller.  A
failed completion belongs to a write: a connection request only fails when the server is
shut down.  `failures` records the sessions that failed completions were delivered for.
The numbers of the sessions are words of 64 bits in the source: fewer than `2 ^ 64` sessions
are made.

Main definitions:

- `Server`: the map, the sessions and the threads.
- `serverStep`: the accesses of `Publish` and of the dispatcher.

Main results:

- Theorem `ServerInv.step`: no session is ever removed.
- Theorem `forgets_iff`: when the map only holds sessions that are alive.
- Theorem `finished_session_stays`: a client that disconnects.
-/

namespace DtCore
namespace DAQ
namespace Publisher

open Foundation

variable {P Msg : Type}

/-! ## The server -/

/-- A session of the server. -/
abbrev Session (P Msg : Type) := State P Unit Msg

/-- What a `Publish` call of the server does next. -/
inductive ServerPublishPc (Msg : Type) where
  | idle
  | lock (msg : Msg)
  | visit (msg : Msg) (rest : List Nat)
  | inside (msg : Msg) (id : Nat) (rest : List Nat)

/-- What the dispatcher does next: wait for a completion, go on in `OnCompletionEvent`,
insert the session that it made for the next connection, or go on in
`TryCancelCallAndShutdown`. -/
inductive DispatchPc where
  | next
  | event (id : Nat)
  | insert (id : Nat)
  | cancel (id : Nat)
deriving DecidableEq

/-- The members of `StatePublisherGrpc` and its sessions, numbered from one. -/
structure Server (P Msg : Type) where
  sessions : List Nat
  allocated : Nat
  session : Nat → Session P Msg
  sessionMtx : Option P
  dispatcher : DispatchPc
  publishers : P → ServerPublishPc Msg
  failures : List Nat

/-- The constructor with its call of `AddSession`. -/
def Server.initial : Server P Msg where
  sessions := [1]
  allocated := 1
  session _ := Publisher.initial
  sessionMtx := none
  dispatcher := .next
  publishers _ := .idle
  failures := []

/-- Change one session. -/
def Server.setSession (s : Server P Msg) (id : Nat) (t : Session P Msg) : Server P Msg :=
  { s with session := Function.update s.session id t }

/-- gRPC delivers a completion to the waiting dispatcher. -/
def Server.deliver (s : Server P Msg) (id : Nat) (op : Operation) (ok : Bool) :
    Option (Server P Msg) :=
  if s.dispatcher = .next ∧ 1 ≤ id ∧ id ≤ s.allocated then
    match ok, op with
    | true, op =>
        ((s.session id).deliver op).map (fun t =>
          { s.setSession id t with dispatcher := .event id })
    | false, .connect => none
    | false, .write =>
        let t := s.session id
        if 0 < t.outstanding then
          some { s.setSession id { t with outstanding := t.outstanding - 1 } with
            dispatcher := .cancel id
            failures := s.failures ++ [id] }
        else none
  else none

/-- The next access of the dispatcher. -/
def Server.dispatch (s : Server P Msg) : Option (Server P Msg) :=
  match s.dispatcher with
  | .next => none
  | .event id =>
      match (s.session id).dispatcher with
      | .addSession =>
          -- the constructor of the new session issues its connection request
          some { s.setSession (s.allocated + 1) Publisher.initial with
            allocated := s.allocated + 1
            dispatcher := .insert id }
      | .removeSession =>
          match s.sessionMtx with
          | none =>
              (s.session id).eventStep.map (fun t =>
                { s.setSession id t with
                  sessions := s.sessions.erase id
                  dispatcher := .next })
          | some _ => none
      | _ =>
          (s.session id).eventStep.map (fun t =>
            { s.setSession id t with
              dispatcher := if t.dispatcher = .next then .next else .event id })
  | .insert id =>
      match s.sessionMtx with
      | none =>
          (s.session id).eventStep.map (fun t =>
            { s.setSession id t with
              sessions := s.sessions ++ [s.allocated]
              dispatcher := .event id })
      | some _ => none
  | .cancel id =>
      ((s.session id).cancelStep ()).map (fun t =>
        { s.setSession id t with
          dispatcher := if t.cancellers () = .idle then .next else .cancel id })

section Publish

variable [DecidableEq P]

/-- Move one `Publish` call on. -/
def Server.setPublisher (s : Server P Msg) (p : P) (pc : ServerPublishPc Msg) : Server P Msg :=
  { s with publishers := Function.update s.publishers p pc }

/-- Enter `Publish(msg)`. -/
def Server.enterPublish (s : Server P Msg) (p : P) (msg : Msg) : Option (Server P Msg) :=
  match s.publishers p with
  | .idle => some (s.setPublisher p (.lock msg))
  | _ => none

/-- The next access of a `Publish` call. -/
def Server.publishStep (queueSize : Int) (s : Server P Msg) (p : P) : Option (Server P Msg) :=
  match s.publishers p with
  | .idle => none
  | .lock msg =>
      match s.sessionMtx with
      | none => some { s.setPublisher p (.visit msg s.sessions) with sessionMtx := some p }
      | some _ => none
  | .visit _ [] => some { s.setPublisher p .idle with sessionMtx := none }
  | .visit msg (id :: rest) =>
      ((s.session id).enterPublish p msg).map (fun t =>
        (s.setSession id t).setPublisher p (.inside msg id rest))
  | .inside msg id rest =>
      ((s.session id).publishStep queueSize p).map (fun t =>
        match t.publishers p with
        | .idle => (s.setSession id t).setPublisher p (.visit msg rest)
        | _ => s.setSession id t)

/-- Which thread moves. -/
inductive ServerLabel (P Msg : Type) where
  | publish (p : P) (msg : Msg)
  | publisher (p : P)
  | deliver (id : Nat) (op : Operation) (ok : Bool)
  | dispatch

/-- The step function of the server before `Stop`. -/
def serverStep (queueSize : Int) (s : Server P Msg) :
    ServerLabel P Msg → Option (Server P Msg)
  | .publish p msg => s.enterPublish p msg
  | .publisher p => s.publishStep queueSize p
  | .deliver id op ok => s.deliver id op ok
  | .dispatch => s.dispatch

end Publish

/-! ## What is asked of the map -/

/-- The session waits for a connection. -/
def Server.Waiting (s : Server P Msg) (id : Nat) : Prop :=
  (s.session id).callState = .waitConnect

instance (s : Server P Msg) (id : Nat) : Decidable (s.Waiting id) :=
  inferInstanceAs (Decidable ((s.session id).callState = .waitConnect))

/-- The number of calls that are alive: those that connected and did not end with a failed
completion. -/
def Server.alive (s : Server P Msg) : Nat :=
  (List.range' 1 s.allocated).countP (fun id => !decide (s.Waiting id) && !decide (id ∈ s.failures))

/-- Every session in the map waits for a connection or has a call that did not end with a
failed completion, and there is at most one more of them than calls alive. -/
def Server.Forgets (s : Server P Msg) : Prop :=
  (∀ id ∈ s.sessions, s.Waiting id ∨ id ∉ s.failures) ∧ s.sessions.length ≤ s.alive + 1

/-! ## One session -/

/-- The `Publish` call has tested the call state and goes on. -/
def PublishPc.tested : PublishPc Msg → Bool
  | .enqueue _ => true
  | .storeWait _ => true
  | .write _ => true
  | _ => false

/-- The dispatcher has found that the session does not wait for a connection. -/
def EventPc.tested : EventPc → Bool
  | .next => false
  | .testConnect => false
  | .addSession => false
  | .lockConnect => false
  | .storeConnected => false
  | _ => true

/-- The canceller has found that the session does not wait for a connection. -/
def CancelPc.tested : CancelPc → Bool
  | .idle => false
  | .testConnect => false
  | _ => true

/-- `WAIT_FINISH` is never stored, and nobody goes beyond the test in a session that waits
for a connection. -/
structure SessionInv (t : Session P Msg) : Prop where
  noFinish : t.callState ≠ .waitFinish
  noRemove : t.dispatcher ≠ .removeSession
  publisher : t.callState = .waitConnect → ∀ p, (t.publishers p).tested = false
  outstanding : t.callState = .waitConnect → t.outstanding = 0
  dispatcher : t.callState = .waitConnect → t.dispatcher.tested = false
  canceller : t.callState = .waitConnect → (t.cancellers ()).tested = false

theorem initial_sessionInv : SessionInv (initial : Session P Msg) where
  noFinish := by simp [initial]
  noRemove := by simp [initial]
  publisher := fun _ _ => rfl
  outstanding := fun _ => rfl
  dispatcher := fun _ => rfl
  canceller := fun _ => rfl

/-- The two sessions agree on whether they wait for a connection. -/
def SameWait (t t' : Session P Msg) : Prop :=
  t'.callState = .waitConnect ↔ t.callState = .waitConnect

/-- A session that does not wait for a connection only has to keep out of `WAIT_FINISH`. -/
theorem SessionInv.of_connected {t : Session P Msg} (hwait : t.callState ≠ .waitConnect)
    (hfinish : t.callState ≠ .waitFinish) (hremove : t.dispatcher ≠ .removeSession) :
    SessionInv t where
  noFinish := hfinish
  noRemove := hremove
  publisher := fun h => absurd h hwait
  outstanding := fun h => absurd h hwait
  dispatcher := fun h => absurd h hwait
  canceller := fun h => absurd h hwait

theorem SessionInv.deliver {t t' : Session P Msg} (h : SessionInv t) {op : Operation}
    (hs : t.deliver op = some t') :
    SessionInv t' ∧ SameWait t t' ∧ t'.dispatcher = .testConnect := by
  unfold State.deliver at hs
  split at hs
  · split at hs
    · cases hs
      exact ⟨⟨h.noFinish, by simp, h.publisher, h.outstanding, fun _ => rfl, h.canceller⟩,
        Iff.rfl, rfl⟩
    · contradiction
  · split at hs
    · cases hs
      exact ⟨⟨h.noFinish, by simp, h.publisher, fun hw => by simp [h.outstanding hw],
        fun _ => rfl, h.canceller⟩, Iff.rfl, rfl⟩
    · contradiction
  · contradiction

section Publish

variable [DecidableEq P]

/-- Moving a `Publish` call on; the other members are those of a session that agrees. -/
theorem SessionInv.movePublisher {t t' : Session P Msg} (h : SessionInv t) {p : P}
    {pc : PublishPc Msg} (hpc : t.callState = .waitConnect → pc.tested = false)
    (hstate : t'.callState = t.callState) (hdisp : t'.dispatcher = t.dispatcher)
    (hout : t.callState = .waitConnect → t'.outstanding = t.outstanding)
    (hcancel : t'.cancellers = t.cancellers)
    (hpubs : t'.publishers = Function.update t.publishers p pc) : SessionInv t' where
  noFinish := by
    rw [hstate]
    exact h.noFinish
  noRemove := by
    rw [hdisp]
    exact h.noRemove
  publisher := by
    intro hwait r
    rw [hstate] at hwait
    rw [hpubs]
    by_cases hr : r = p
    · rw [hr, Function.update_self]
      exact hpc hwait
    · rw [Function.update_of_ne hr]
      exact h.publisher hwait r
  outstanding := by
    intro hwait
    rw [hstate] at hwait
    rw [hout hwait]
    exact h.outstanding hwait
  dispatcher := by
    intro hwait
    rw [hstate] at hwait
    rw [hdisp]
    exact h.dispatcher hwait
  canceller := by
    intro hwait
    rw [hstate] at hwait
    rw [hcancel]
    exact h.canceller hwait

theorem SessionInv.enterPublish {t t' : Session P Msg} (h : SessionInv t) {p : P} {msg : Msg}
    (hs : t.enterPublish p msg = some t') :
    SessionInv t' ∧ SameWait t t' ∧ t'.dispatcher = t.dispatcher := by
  unfold State.enterPublish at hs
  split at hs
  · cases hs
    constructor
    · have htested : t.callState = .waitConnect → (PublishPc.lock msg).tested = false :=
        fun _ => rfl
      exact h.movePublisher htested rfl rfl (fun _ => rfl) rfl rfl
    · exact ⟨Iff.rfl, rfl⟩
  · contradiction

omit [DecidableEq P] in
/-- A call that is past its test finds the session connected. -/
theorem SessionInv.connected_of_tested {t : Session P Msg} (h : SessionInv t) {p : P}
    {pc : PublishPc Msg} (hpc : t.publishers p = pc) (htested : pc.tested = true) :
    t.callState ≠ .waitConnect := by
  intro hwait
  have hfalse := h.publisher hwait p
  rw [hpc, htested] at hfalse
  contradiction

theorem SessionInv.publishStep {t t' : Session P Msg} (h : SessionInv t) {queueSize : Int}
    {p : P} (hs : t.publishStep queueSize p = some t') :
    SessionInv t' ∧ SameWait t t' ∧ t'.dispatcher = t.dispatcher := by
  have hmove : ∀ {u : Session P Msg} (pc : PublishPc Msg),
      (t.callState = .waitConnect → pc.tested = false) → u.callState = t.callState →
      u.dispatcher = t.dispatcher →
      (t.callState = .waitConnect → u.outstanding = t.outstanding) →
      u.cancellers = t.cancellers → u.publishers = Function.update t.publishers p pc →
      SessionInv u ∧ SameWait t u ∧ u.dispatcher = t.dispatcher := by
    intro u pc hpc hstate hdisp hout hcancel hpubs
    constructor
    · exact h.movePublisher hpc hstate hdisp hout hcancel hpubs
    · constructor
      · unfold SameWait
        rw [hstate]
      · exact hdisp
  unfold State.publishStep at hs
  split at hs
  · contradiction
  · rename_i msg _
    split at hs
    · cases hs
      exact hmove (.testState msg) (fun _ => rfl) rfl rfl (fun _ => rfl) rfl rfl
    · contradiction
  · rename_i msg _
    split at hs
    · rename_i hwrite
      cases hs
      exact hmove (.enqueue msg) (fun hwait => by simp [hwrite] at hwait) rfl rfl
        (fun _ => rfl) rfl rfl
    · rename_i hready
      cases hs
      exact hmove (.storeWait msg) (fun hwait => by simp [hready] at hwait) rfl rfl
        (fun _ => rfl) rfl rfl
    · cases hs
      exact hmove .unlock (fun _ => rfl) rfl rfl (fun _ => rfl) rfl rfl
  · split at hs
    · cases hs
      exact hmove .unlock (fun _ => rfl) rfl rfl (fun _ => rfl) rfl rfl
    · cases hs
      exact hmove .unlock (fun _ => rfl) rfl rfl (fun _ => rfl) rfl rfl
  · rename_i msg hpc
    cases hs
    have hconn := h.connected_of_tested hpc rfl
    constructor
    · exact SessionInv.of_connected (by simp) (by simp) h.noRemove
    · exact ⟨iff_of_false (by simp) hconn, rfl⟩
  · rename_i msg hpc
    cases hs
    have hconn := h.connected_of_tested hpc rfl
    exact hmove .unlock (fun _ => rfl) rfl rfl (fun hwait => absurd hwait hconn) rfl rfl
  · cases hs
    exact hmove .idle (fun _ => rfl) rfl rfl (fun _ => rfl) rfl rfl

end Publish

/-- A step of the dispatcher inside `OnCompletionEvent` leaves the other threads alone. -/
theorem eventStep_threads {t t' : Session P Msg} (hs : t.eventStep = some t') :
    t'.publishers = t.publishers ∧ t'.cancellers = t.cancellers := by
  unfold State.eventStep at hs
  grind

/-- The store behind a connection ends the waiting; the other stores and the writes are
behind a test that found the session connected. -/
theorem eventStep_callState {t t' : Session P Msg} (hs : t.eventStep = some t') :
    (t'.callState = t.callState ∧ t.dispatcher ≠ .storeConnected) ∨
      (t.dispatcher.tested = true ∧
        (t'.callState = .readyToWrite ∨ t'.callState = .waitWriteDone)) ∨
      (t.dispatcher = .storeConnected ∧ t'.callState = .readyToWrite) := by
  unfold State.eventStep at hs
  grind [EventPc.tested]

theorem eventStep_outstanding {t t' : Session P Msg} (hs : t.eventStep = some t') :
    t'.outstanding = t.outstanding ∨ t.dispatcher.tested = true := by
  unfold State.eventStep at hs
  grind [EventPc.tested]

/-- Where the dispatcher comes from. -/
theorem eventStep_dispatcher {t t' : Session P Msg} (hs : t.eventStep = some t') :
    (t'.dispatcher.tested = true → t.dispatcher.tested = true ∨ t.dispatcher = .storeConnected ∨
        t.callState ≠ .waitConnect) ∧
      (t'.dispatcher = .removeSession → t.callState = .waitFinish) ∧
      (t'.dispatcher = .addSession → t.dispatcher = .testConnect ∧ t.callState = .waitConnect) ∧
      (t'.dispatcher = .lockConnect → t.dispatcher = .addSession) ∧
      (t'.dispatcher = .storeConnected → t.dispatcher = .lockConnect) := by
  unfold State.eventStep at hs
  grind [EventPc.tested]

/-- Where the dispatcher goes while it connects a session. -/
theorem eventStep_connecting {t t' : Session P Msg} (hs : t.eventStep = some t') :
    (t.dispatcher = .addSession → t'.dispatcher = .lockConnect) ∧
      (t.dispatcher = .lockConnect → t'.dispatcher = .storeConnected) := by
  unfold State.eventStep at hs
  grind

/-- Only the store behind a connection ends the waiting. -/
theorem SessionInv.eventStep_sameWait {t t' : Session P Msg} (h : SessionInv t)
    (hs : t.eventStep = some t') (hne : t.dispatcher ≠ .storeConnected) : SameWait t t' := by
  rcases eventStep_callState hs with ⟨hsame, -⟩ | ⟨htested, hlater⟩ | ⟨hstore, -⟩
  · unfold SameWait
    rw [hsame]
  · apply iff_of_false
    · rcases hlater with hstate | hstate <;> rw [hstate] <;> simp
    · intro hwait
      rw [h.dispatcher hwait] at htested
      contradiction
  · exact absurd hstore hne

theorem eventStep_connects {t t' : Session P Msg} (hs : t.eventStep = some t')
    (hstore : t.dispatcher = .storeConnected) : t'.callState ≠ .waitConnect := by
  rcases eventStep_callState hs with ⟨-, hne⟩ | ⟨htested, -⟩ | ⟨-, hready⟩
  · exact absurd hstore hne
  · rw [hstore] at htested
    contradiction
  · rw [hready]
    simp

theorem SessionInv.eventStep {t t' : Session P Msg} (h : SessionInv t)
    (hs : t.eventStep = some t') : SessionInv t' := by
  rcases eventStep_threads hs with ⟨hpubs, hcancel⟩
  rcases eventStep_dispatcher hs with ⟨htested, hremove, -⟩
  have hback : t'.callState = .waitConnect →
      t.callState = .waitConnect ∧ t.dispatcher ≠ .storeConnected := by
    intro hwait
    have hne : t.dispatcher ≠ .storeConnected := fun hstore => eventStep_connects hs hstore hwait
    exact ⟨(h.eventStep_sameWait hs hne).mp hwait, hne⟩
  constructor
  · rcases eventStep_callState hs with ⟨hsame, -⟩ | ⟨-, hlater⟩ | ⟨-, hready⟩
    · rw [hsame]
      exact h.noFinish
    · rcases hlater with hstate | hstate <;> rw [hstate] <;> simp
    · rw [hready]
      simp
  · exact fun heq => h.noFinish (hremove heq)
  · intro hwait
    rw [hpubs]
    exact h.publisher (hback hwait).1
  · intro hwait
    rcases eventStep_outstanding hs with hout | hconn
    · rw [hout]
      exact h.outstanding (hback hwait).1
    · rw [h.dispatcher (hback hwait).1] at hconn
      contradiction
  · intro hwait
    rcases hback hwait with ⟨hold, hne⟩
    by_contra htrue
    rcases htested (by simpa using htrue) with hconn | hstore | hconn
    · rw [h.dispatcher hold] at hconn
      contradiction
    · exact hne hstore
    · exact hconn hold
  · intro hwait
    rw [hcancel]
    exact h.canceller (hback hwait).1

/-- What a step of the canceller changes. -/
theorem cancelStep_spec {t t' : Session P Msg} (hs : t.cancelStep () = some t') :
    t'.publishers = t.publishers ∧ t'.dispatcher = t.dispatcher ∧
      t'.outstanding = t.outstanding ∧
      (t'.callState = t.callState ∨
        (t.cancellers ()).tested = true ∧ t'.callState = .finished) ∧
      ((t'.cancellers ()).tested = true →
        (t.cancellers ()).tested = true ∨ t.callState ≠ .waitConnect) := by
  have hmove : ∀ {u : Session P Msg}, u.publishers = t.publishers →
      u.dispatcher = t.dispatcher → u.outstanding = t.outstanding →
      u.callState = t.callState ∨ (t.cancellers ()).tested = true ∧ u.callState = .finished →
      (t.cancellers ()).tested = true ∨ (u.cancellers ()).tested = false ∨
        t.callState ≠ .waitConnect →
      u.publishers = t.publishers ∧ u.dispatcher = t.dispatcher ∧
        u.outstanding = t.outstanding ∧
        (u.callState = t.callState ∨
          (t.cancellers ()).tested = true ∧ u.callState = .finished) ∧
        ((u.cancellers ()).tested = true →
          (t.cancellers ()).tested = true ∨ t.callState ≠ .waitConnect) := by
    intro u hpubs hdisp hout hstate htested
    refine ⟨hpubs, hdisp, hout, hstate, ?_⟩
    intro htrue
    rcases htested with hold | hfalse | hconn
    · exact Or.inl hold
    · rw [hfalse] at htrue
      contradiction
    · exact Or.inr hconn
  unfold State.cancelStep at hs
  split at hs
  · cases hs
    exact hmove rfl rfl rfl (Or.inl rfl) (Or.inr (Or.inl rfl))
  · cases hs
    apply hmove
    · rfl
    · rfl
    · rfl
    · exact Or.inl rfl
    · by_cases hwait : t.callState = .waitConnect
      · right
        left
        simp [State.setCanceller, hwait, CancelPc.tested]
      · exact Or.inr (Or.inr hwait)
  · rename_i hpc
    cases hs
    exact hmove rfl rfl rfl (Or.inl rfl) (Or.inl (by rw [hpc]; rfl))
  · rename_i hpc
    cases hs
    exact hmove rfl rfl rfl (Or.inl rfl) (Or.inl (by rw [hpc]; rfl))
  · rename_i hpc
    cases hs
    exact hmove rfl rfl rfl (Or.inl rfl) (Or.inl (by rw [hpc]; rfl))
  · rename_i hpc
    split at hs
    · cases hs
      exact hmove rfl rfl rfl (Or.inl rfl) (Or.inl (by rw [hpc]; rfl))
    · contradiction
  · rename_i hpc
    cases hs
    exact hmove rfl rfl rfl (Or.inr ⟨by rw [hpc]; rfl, rfl⟩) (Or.inl (by rw [hpc]; rfl))
  · rename_i hpc
    cases hs
    exact hmove rfl rfl rfl (Or.inl rfl) (Or.inl (by rw [hpc]; rfl))

theorem SessionInv.cancelStep {t t' : Session P Msg} (h : SessionInv t)
    (hs : t.cancelStep () = some t') :
    SessionInv t' ∧ SameWait t t' ∧ t'.dispatcher = t.dispatcher := by
  rcases cancelStep_spec hs with ⟨hpubs, hdisp, hout, hstate, htested⟩
  rcases hstate with hsame | ⟨hconn, hfinished⟩
  · constructor
    · constructor
      · rw [hsame]
        exact h.noFinish
      · rw [hdisp]
        exact h.noRemove
      · rw [hsame, hpubs]
        exact h.publisher
      · rw [hsame, hout]
        exact h.outstanding
      · rw [hsame, hdisp]
        exact h.dispatcher
      · intro hwait
        rw [hsame] at hwait
        by_contra htrue
        rcases htested (by simpa using htrue) with hconn | hconn
        · rw [h.canceller hwait] at hconn
          contradiction
        · exact hconn hwait
    · constructor
      · unfold SameWait
        rw [hsame]
      · exact hdisp
  · have hwait : t.callState ≠ .waitConnect := by
      intro hwait
      rw [h.canceller hwait] at hconn
      contradiction
    constructor
    · apply SessionInv.of_connected
      · simp [hfinished]
      · simp [hfinished]
      · rw [hdisp]
        exact h.noRemove
    · exact ⟨iff_of_false (by simp [hfinished]) hwait, hdisp⟩

/-! ## All sessions -/

/-- The dispatcher has made a session for the next connection and not yet stored it. -/
def DispatchPc.inserting : DispatchPc → Bool
  | .insert _ => true
  | _ => false

/-- The dispatcher is about to end the waiting of a session whose successor exists. -/
def Server.Connecting (s : Server P Msg) (id : Nat) : Prop :=
  s.dispatcher = .insert id ∨
    (s.dispatcher = .event id ∧
      ((s.session id).dispatcher = .lockConnect ∨ (s.session id).dispatcher = .storeConnected))

/-- What the dispatcher relies on. -/
def Server.Handles (s : Server P Msg) : DispatchPc → Prop
  | .next => True
  | .event id =>
      1 ≤ id ∧ id ≤ s.allocated ∧
        ((s.session id).dispatcher = .addSession → id = s.allocated) ∧
        ((s.session id).dispatcher = .lockConnect ∨
          (s.session id).dispatcher = .storeConnected → id < s.allocated)
  | .insert id => 1 ≤ id ∧ id < s.allocated ∧ (s.session id).dispatcher = .addSession
  | .cancel id => 1 ≤ id ∧ id ≤ s.allocated

/-- No session is ever removed, and only the last one waits for a connection. -/
structure ServerInv (s : Server P Msg) : Prop where
  session : ∀ id, SessionInv (s.session id)
  sessions : s.sessions =
    List.range' 1 (if s.dispatcher.inserting then s.allocated - 1 else s.allocated)
  positive : 1 ≤ s.allocated
  last : s.Waiting s.allocated
  connected : ∀ id, id < s.allocated → s.Waiting id → s.Connecting id ∨ id = 0
  handles : s.Handles s.dispatcher
  failures : ∀ id ∈ s.failures, 1 ≤ id ∧ id ≤ s.allocated ∧ ¬ s.Waiting id

theorem initial_serverInv : ServerInv (Server.initial : Server P Msg) where
  session := fun _ => initial_sessionInv
  sessions := rfl
  positive := Nat.le_refl 1
  last := rfl
  connected := fun _ hlt _ => Or.inr (Nat.lt_one_iff.mp hlt)
  handles := trivial
  failures := fun _ h => absurd h List.not_mem_nil

@[simp]
theorem setSession_self (s : Server P Msg) (id : Nat) (t : Session P Msg) :
    (s.setSession id t).session id = t := by
  simp [Server.setSession]

theorem setSession_ne (s : Server P Msg) {id id' : Nat} (t : Session P Msg) (hne : id' ≠ id) :
    (s.setSession id t).session id' = s.session id' := by
  simp [Server.setSession, hne]

/-- A session that agrees on its waiting does not change who waits. -/
theorem waiting_setSession {s : Server P Msg} {id : Nat} {t : Session P Msg}
    (h : SameWait (s.session id) t) (id' : Nat) :
    (s.setSession id t).Waiting id' ↔ s.Waiting id' := by
  unfold Server.Waiting
  by_cases hid : id' = id
  · rw [hid, setSession_self]
    exact h
  · rw [setSession_ne s t hid]

/-- The invariant of all sessions after a change of one. -/
theorem sessionInv_setSession {s : Server P Msg} (h : ∀ id, SessionInv (s.session id)) {id : Nat}
    {t : Session P Msg} (hinv : SessionInv t) (id' : Nat) :
    SessionInv ((s.setSession id t).session id') := by
  by_cases hid : id' = id
  · rw [hid, setSession_self]
    exact hinv
  · rw [setSession_ne s t hid]
    exact h id'

/-- Outside a connection only the last session waits. -/
theorem ServerInv.last_of_waiting {s : Server P Msg} (h : ServerInv s) {id : Nat}
    (hpos : 1 ≤ id) (hle : id ≤ s.allocated) (hwait : s.Waiting id)
    (hnot : ¬ s.Connecting id) : id = s.allocated := by
  by_contra hne
  rcases h.connected id (Nat.lt_of_le_of_ne hle hne) hwait with hconn | hzero
  · exact hnot hconn
  · omega

/-- A step of one session that keeps its waiting; if the dispatcher is in the session, it
stays where it stands. -/
theorem ServerInv.setSession {s : Server P Msg} (h : ServerInv s) {id : Nat}
    {t : Session P Msg} (hinv : SessionInv t) (hwait : SameWait (s.session id) t)
    (hdisp : s.dispatcher = .event id ∨ s.dispatcher = .insert id →
      t.dispatcher = (s.session id).dispatcher) : ServerInv (s.setSession id t) := by
  have hsame : ∀ id', s.dispatcher = .event id' ∨ s.dispatcher = .insert id' →
      ((s.setSession id t).session id').dispatcher = (s.session id').dispatcher := by
    intro id' hin
    by_cases hid : id' = id
    · rw [hid, setSession_self]
      exact hdisp (hid ▸ hin)
    · rw [setSession_ne s t hid]
  constructor
  · exact sessionInv_setSession h.session hinv
  · exact h.sessions
  · exact h.positive
  · exact (waiting_setSession hwait _).mpr h.last
  · intro id' hlt hw
    rcases h.connected id' hlt ((waiting_setSession hwait _).mp hw) with hconn | hzero
    · left
      rcases hconn with hin | ⟨hev, hpc⟩
      · exact Or.inl hin
      · right
        rw [hsame id' (Or.inl hev)]
        exact ⟨hev, hpc⟩
    · exact Or.inr hzero
  · have hhandles := h.handles
    show Server.Handles (s.setSession id t) s.dispatcher
    cases hpc : s.dispatcher with
    | next => trivial
    | event c =>
        rw [hpc] at hhandles
        simp only [Server.Handles, hsame c (Or.inl hpc)]
        exact hhandles
    | insert c =>
        rw [hpc] at hhandles
        simp only [Server.Handles, hsame c (Or.inr hpc)]
        exact hhandles
    | cancel c =>
        rw [hpc] at hhandles
        exact hhandles
  · intro id' hmem
    have hold := h.failures id' hmem
    exact ⟨hold.1, hold.2.1, fun hw => hold.2.2 ((waiting_setSession hwait _).mp hw)⟩

/-- The threads of `Publish` are no part of the invariant. -/
theorem ServerInv.of_publishers {s : Server P Msg} (h : ServerInv s)
    (publishers : P → ServerPublishPc Msg) (sessionMtx : Option P) :
    ServerInv { s with publishers := publishers, sessionMtx := sessionMtx } :=
  ⟨h.session, h.sessions, h.positive, h.last, h.connected, h.handles, h.failures⟩

/-- A dispatcher between two calls has nobody to connect. -/
theorem not_connecting_of_next {s : Server P Msg} (hnext : s.dispatcher = .next) (id : Nat) :
    ¬ s.Connecting id := by
  rintro (heq | ⟨heq, -⟩) <;> simp [hnext] at heq

/-- The dispatcher goes on where nothing is to be connected. -/
theorem ServerInv.moveDispatcher {s : Server P Msg} (h : ServerInv s)
    (hnot : ∀ id, ¬ s.Connecting id) (hstay : s.dispatcher.inserting = false)
    {pc : DispatchPc} (hpc : pc.inserting = false) (hhandles : s.Handles pc) :
    ServerInv { s with dispatcher := pc } where
  session := h.session
  sessions := by
    have hsessions := h.sessions
    rw [hstay] at hsessions
    show s.sessions = List.range' 1 (if pc.inserting then s.allocated - 1 else s.allocated)
    rw [hpc]
    exact hsessions
  positive := h.positive
  last := h.last
  connected := by
    intro id hlt hwait
    rcases h.connected id hlt hwait with hconn | hzero
    · exact absurd hconn (hnot id)
    · exact Or.inr hzero
  handles := by
    show Server.Handles { s with dispatcher := pc } pc
    cases pc <;> exact hhandles
  failures := h.failures

theorem ServerInv.deliver {s s' : Server P Msg} (h : ServerInv s) {id : Nat} {op : Operation}
    {ok : Bool} (hs : s.deliver id op ok = some s') : ServerInv s' := by
  unfold Server.deliver at hs
  split at hs
  · rename_i hguard
    rcases hguard with ⟨hnext, hpos, hle⟩
    have hstay : s.dispatcher.inserting = false := by
      rw [hnext]
      rfl
    have hout : ¬ (s.dispatcher = .event id ∨ s.dispatcher = .insert id) := by
      simp [hnext]
    split at hs
    · rcases Option.map_eq_some_iff.mp hs with ⟨t, ht, rfl⟩
      rcases (h.session id).deliver ht with ⟨hinv, hwait, hdisp⟩
      have hset := h.setSession hinv hwait (fun hin => absurd hin hout)
      apply hset.moveDispatcher (not_connecting_of_next hnext) hstay rfl
      refine ⟨hpos, hle, ?_, ?_⟩
      · intro hadd
        rw [setSession_self, hdisp] at hadd
        contradiction
      · intro hlock
        rw [setSession_self, hdisp] at hlock
        rcases hlock with hlock | hlock <;> contradiction
    · contradiction
    · dsimp only at hs
      split at hs
      · rename_i hwrite
        cases hs
        have hwait : ¬ s.Waiting id := by
          intro hw
          rw [(h.session id).outstanding hw] at hwrite
          exact Nat.lt_irrefl 0 hwrite
        have hinv : SessionInv { s.session id with
            outstanding := (s.session id).outstanding - 1 } :=
          SessionInv.of_connected hwait (h.session id).noFinish (h.session id).noRemove
        have hsame : SameWait (s.session id) { s.session id with
            outstanding := (s.session id).outstanding - 1 } := Iff.rfl
        have hset := h.setSession hinv hsame (fun _ => rfl)
        have hmove := hset.moveDispatcher (not_connecting_of_next hnext) hstay
          (show (DispatchPc.cancel id).inserting = false from rfl) ⟨hpos, hle⟩
        constructor
        · exact hmove.session
        · exact hmove.sessions
        · exact hmove.positive
        · exact hmove.last
        · exact hmove.connected
        · exact hmove.handles
        · intro id' hmem
          rcases List.mem_append.mp hmem with hmem | hmem
          · exact hmove.failures id' hmem
          · rw [List.mem_singleton.mp hmem]
            refine ⟨hpos, hle, ?_⟩
            intro hw
            exact hwait ((waiting_setSession hsame id).mp hw)
      · contradiction
  · contradiction

/-- A step of the dispatcher in a session that it does not connect. -/
theorem ServerInv.eventStep {s : Server P Msg} (h : ServerInv s) {id : Nat}
    (hpc : s.dispatcher = .event id) (hadd : (s.session id).dispatcher ≠ .addSession)
    {t : Session P Msg} (ht : (s.session id).eventStep = some t) :
    ServerInv { s.setSession id t with
      dispatcher := if t.dispatcher = .next then .next else .event id } := by
  have hhandles := h.handles
  rw [hpc] at hhandles
  rcases hhandles with ⟨hpos, hle, -, hlock⟩
  rcases eventStep_dispatcher ht with ⟨-, -, hadd', hlock', hstore'⟩
  have hinv := (h.session id).eventStep ht
  have hbefore : ∀ id', (s.setSession id t).Waiting id' → s.Waiting id' ∧
      (id' = id → (s.session id).dispatcher ≠ .storeConnected) := by
    intro id' hw
    by_cases hid : id' = id
    · unfold Server.Waiting at hw ⊢
      rw [hid, setSession_self] at hw
      have hne : (s.session id).dispatcher ≠ .storeConnected :=
        fun hstore => eventStep_connects ht hstore hw
      rw [hid]
      exact ⟨((h.session id).eventStep_sameWait ht hne).mp hw, fun _ => hne⟩
    · unfold Server.Waiting at hw ⊢
      rw [setSession_ne s t hid] at hw
      exact ⟨hw, fun heq => absurd heq hid⟩
  have hstay : ∀ b : Prop, [Decidable b] →
      (if b then DispatchPc.next else .event id).inserting = false := by
    intro b _
    split <;> rfl
  constructor
  · exact sessionInv_setSession h.session hinv
  · have hsessions := h.sessions
    rw [hpc] at hsessions
    show s.sessions = List.range' 1 (if DispatchPc.inserting _ then _ else _)
    rw [hstay]
    exact hsessions
  · exact h.positive
  · show (s.setSession id t).Waiting s.allocated
    by_cases hid : s.allocated = id
    · have hne : (s.session id).dispatcher ≠ .storeConnected := by
        intro hstore
        have := hlock (Or.inr hstore)
        omega
      exact (waiting_setSession ((h.session id).eventStep_sameWait ht hne) _).mpr h.last
    · unfold Server.Waiting
      rw [setSession_ne s t hid]
      exact h.last
  · intro id' hlt hw
    rcases hbefore id' hw with ⟨hold, hne⟩
    rcases h.connected id' hlt hold with hconn | hzero
    · left
      right
      rcases hconn with hin | ⟨hev, hdisp⟩
      · rw [hpc] at hin
        contradiction
      · have hid : id' = id := by
          rw [hpc] at hev
          exact (DispatchPc.event.inj hev).symm
        rw [hid] at hdisp
        have hlocked : (s.session id).dispatcher = .lockConnect := by
          rcases hdisp with hlocked | hstore
          · exact hlocked
          · exact absurd hstore (hne hid)
        have hstore : t.dispatcher = .storeConnected := (eventStep_connecting ht).2 hlocked
        rw [hid, setSession_self]
        constructor
        · show (if t.dispatcher = .next then DispatchPc.next else .event id) = .event id
          rw [if_neg (by simp [hstore])]
        · exact Or.inr hstore
    · exact Or.inr hzero
  · show Server.Handles { s.setSession id t with
      dispatcher := if t.dispatcher = .next then .next else .event id }
      (if t.dispatcher = .next then .next else .event id)
    split
    · trivial
    · refine ⟨hpos, hle, ?_, ?_⟩
      · intro hnew
        rw [setSession_self] at hnew
        rcases hadd' hnew with ⟨htest, hwait⟩
        have hnot : ¬ s.Connecting id := by
          rintro (hin | ⟨-, hdisp⟩)
          · rw [hpc] at hin
            contradiction
          · rw [htest] at hdisp
            rcases hdisp with hdisp | hdisp <;> contradiction
        exact h.last_of_waiting hpos hle hwait hnot
      · intro hnew
        rw [setSession_self] at hnew
        rcases hnew with hnew | hnew
        · exact absurd (hlock' hnew) hadd
        · exact hlock (Or.inl (hstore' hnew))
  · intro id' hmem
    have hold := h.failures id' hmem
    exact ⟨hold.1, hold.2.1, fun hw => hold.2.2 (hbefore id' hw).1⟩

/-- The dispatcher makes a session for the next connection. -/
theorem ServerInv.addSession {s : Server P Msg} (h : ServerInv s) {id : Nat}
    (hpc : s.dispatcher = .event id) (hadd : (s.session id).dispatcher = .addSession) :
    ServerInv { s.setSession (s.allocated + 1) Publisher.initial with
      allocated := s.allocated + 1
      dispatcher := .insert id } := by
  have hhandles := h.handles
  rw [hpc] at hhandles
  rcases hhandles with ⟨hpos, hle, hlast, -⟩
  have hid := hlast hadd
  have hold : ∀ id', id' ≤ s.allocated →
      (s.setSession (s.allocated + 1) Publisher.initial).session id' = s.session id' :=
    fun id' hid' => setSession_ne s _ (by omega)
  constructor
  · exact sessionInv_setSession h.session initial_sessionInv
  · have hsessions := h.sessions
    rw [hpc] at hsessions
    exact hsessions
  · exact Nat.succ_pos _
  · show (s.setSession (s.allocated + 1) Publisher.initial).Waiting (s.allocated + 1)
    unfold Server.Waiting
    rw [setSession_self]
    rfl
  · intro id' hlt hw
    have hle' : id' ≤ s.allocated := Nat.le_of_lt_succ hlt
    have hw' : s.Waiting id' := by
      unfold Server.Waiting at hw ⊢
      rw [← hold id' hle']
      exact hw
    by_cases hsame : id' = id
    · exact Or.inl (Or.inl (congrArg DispatchPc.insert hsame.symm))
    · rcases h.connected id' (by omega) hw' with hconn | hzero
      · rcases hconn with hin | ⟨hev, -⟩
        · rw [hpc] at hin
          contradiction
        · rw [hpc] at hev
          exact absurd (DispatchPc.event.inj hev).symm hsame
      · exact Or.inr hzero
  · refine ⟨hpos, Nat.lt_succ_of_le hle, ?_⟩
    show ((s.setSession (s.allocated + 1) Publisher.initial).session id).dispatcher = .addSession
    rw [hold id hle]
    exact hadd
  · intro id' hmem
    have hfail := h.failures id' hmem
    refine ⟨hfail.1, Nat.le_succ_of_le hfail.2.1, ?_⟩
    intro hw
    apply hfail.2.2
    unfold Server.Waiting at hw ⊢
    rw [← hold id' hfail.2.1]
    exact hw

/-- The dispatcher stores the session that it made. -/
theorem ServerInv.insert {s : Server P Msg} (h : ServerInv s) {id : Nat}
    (hpc : s.dispatcher = .insert id) {t : Session P Msg}
    (ht : (s.session id).eventStep = some t) :
    ServerInv { s.setSession id t with
      sessions := s.sessions ++ [s.allocated]
      dispatcher := .event id } := by
  have hhandles := h.handles
  rw [hpc] at hhandles
  rcases hhandles with ⟨hpos, hlt, hadd⟩
  have hne : (s.session id).dispatcher ≠ .storeConnected := by
    rw [hadd]
    simp
  have hlocked : t.dispatcher = .lockConnect := (eventStep_connecting ht).1 hadd
  have hwait := (h.session id).eventStep_sameWait ht hne
  constructor
  · exact sessionInv_setSession h.session ((h.session id).eventStep ht)
  · have hsessions := h.sessions
    rw [hpc] at hsessions
    show s.sessions ++ [s.allocated] = List.range' 1 s.allocated
    have hcount : s.allocated = (s.allocated - 1) + 1 := by omega
    rw [hsessions]
    show List.range' 1 (s.allocated - 1) ++ [s.allocated] = List.range' 1 s.allocated
    generalize s.allocated - 1 = n at hcount
    rw [hcount, List.range'_concat, Nat.one_mul, Nat.add_comm 1 n]
  · exact h.positive
  · exact (waiting_setSession hwait _).mpr h.last
  · intro id' hlt' hw
    rcases h.connected id' hlt' ((waiting_setSession hwait _).mp hw) with hconn | hzero
    · left
      right
      rcases hconn with hin | ⟨hev, -⟩
      · rw [hpc] at hin
        rw [← DispatchPc.insert.inj hin, setSession_self]
        exact ⟨rfl, Or.inl hlocked⟩
      · rw [hpc] at hev
        contradiction
    · exact Or.inr hzero
  · refine ⟨hpos, hlt.le, ?_, fun _ => hlt⟩
    intro hnew
    rw [setSession_self, hlocked] at hnew
    contradiction
  · intro id' hmem
    have hold := h.failures id' hmem
    exact ⟨hold.1, hold.2.1, fun hw => hold.2.2 ((waiting_setSession hwait _).mp hw)⟩

theorem ServerInv.dispatch {s s' : Server P Msg} (h : ServerInv s)
    (hs : s.dispatch = some s') : ServerInv s' := by
  unfold Server.dispatch at hs
  split at hs
  · contradiction
  · rename_i id hpc
    split at hs
    · rename_i hadd
      cases hs
      exact h.addSession hpc hadd
    · rename_i hremove
      exact absurd hremove (h.session id).noRemove
    · rename_i hadd _
      rcases Option.map_eq_some_iff.mp hs with ⟨t, ht, rfl⟩
      exact h.eventStep hpc hadd ht
  · rename_i id hpc
    split at hs
    · rcases Option.map_eq_some_iff.mp hs with ⟨t, ht, rfl⟩
      exact h.insert hpc ht
    · contradiction
  · rename_i id hpc
    rcases Option.map_eq_some_iff.mp hs with ⟨t, ht, rfl⟩
    rcases (h.session id).cancelStep ht with ⟨hinv, hwait, hdisp⟩
    have hset := h.setSession hinv hwait (fun _ => hdisp)
    have hhandles := h.handles
    rw [hpc] at hhandles
    have hnot : ∀ id', ¬ (s.setSession id t).Connecting id' := by
      intro id'
      have hcancel : (s.setSession id t).dispatcher = .cancel id := hpc
      rintro (hin | ⟨hev, -⟩)
      · rw [hcancel] at hin
        contradiction
      · rw [hcancel] at hev
        contradiction
    have hstay : (s.setSession id t).dispatcher.inserting = false := by
      show s.dispatcher.inserting = false
      rw [hpc]
      rfl
    apply hset.moveDispatcher hnot hstay
    · split <;> rfl
    · split
      · trivial
      · exact hhandles

/-- Without failures all sessions but the last one are alive. -/
theorem ServerInv.alive {s : Server P Msg} (h : ServerInv s) (hnext : s.dispatcher = .next)
    (hnone : s.failures = []) : s.alive + 1 = s.allocated := by
  have hlast : ∀ id, 1 ≤ id → id ≤ s.allocated → s.Waiting id → id = s.allocated :=
    fun id hpos hle hw => h.last_of_waiting hpos hle hw (not_connecting_of_next hnext id)
  have hpos := h.positive
  have hwait := h.last
  unfold Server.alive
  rw [hnone]
  generalize s.allocated = n at hlast hpos hwait
  rcases Nat.exists_eq_add_of_le' hpos with ⟨m, rfl⟩
  have hothers : (List.range' 1 m).countP
      (fun id => !decide (s.Waiting id) && !decide (id ∈ ([] : List Nat))) = m := by
    have hall : ∀ id ∈ List.range' 1 m,
        (!decide (s.Waiting id) && !decide (id ∈ ([] : List Nat))) = true := by
      intro id hid
      have hbounds := List.mem_range'_1.mp hid
      have hnot : ¬ s.Waiting id := by
        intro hw
        have := hlast id hbounds.1 (by omega) hw
        omega
      simp [hnot]
    rw [List.countP_eq_length.mpr hall, List.length_range']
  rw [List.range'_concat, List.countP_append, hothers, Nat.one_mul, Nat.add_comm 1 m]
  simp [hwait]

section Runs

variable [DecidableEq P]

theorem ServerInv.publishStep {queueSize : Int} {s s' : Server P Msg} (h : ServerInv s) {p : P}
    (hs : s.publishStep queueSize p = some s') : ServerInv s' := by
  unfold Server.publishStep at hs
  split at hs
  · contradiction
  · split at hs
    · cases hs
      exact h.of_publishers _ _
    · contradiction
  · cases hs
    exact h.of_publishers _ _
  · rename_i id rest _
    rcases Option.map_eq_some_iff.mp hs with ⟨t, ht, rfl⟩
    rcases (h.session id).enterPublish ht with ⟨hinv, hwait, hdisp⟩
    exact (h.setSession hinv hwait (fun _ => hdisp)).of_publishers _ _
  · rename_i id rest _
    rcases Option.map_eq_some_iff.mp hs with ⟨t, ht, rfl⟩
    rcases (h.session id).publishStep ht with ⟨hinv, hwait, hdisp⟩
    have hset := h.setSession hinv hwait (fun _ => hdisp)
    split
    · exact hset.of_publishers _ _
    · exact hset

/-- Every step of the server keeps the invariant. -/
theorem ServerInv.step {queueSize : Int} {s s' : Server P Msg} (h : ServerInv s)
    {l : ServerLabel P Msg} (hs : serverStep queueSize s l = some s') : ServerInv s' := by
  cases l with
  | publish p msg =>
      simp only [serverStep, Server.enterPublish] at hs
      split at hs
      · cases hs
        exact h.of_publishers _ _
      · contradiction
  | publisher p => exact h.publishStep hs
  | deliver id op ok => exact h.deliver hs
  | dispatch => exact h.dispatch hs

/-- The states of the runs of a server. -/
abbrev ServerReach (queueSize : Int) : Server P Msg → Prop :=
  Reach (serverStep queueSize) (fun _ _ => True) Server.initial

theorem ServerInv.of_reach {queueSize : Int} {s : Server P Msg}
    (h : ServerReach queueSize s) : ServerInv s :=
  Reach.invariant initial_serverInv (fun _ _ _ hinv _ hs => hinv.step hs) h

/-- For every run of the server before `Stop`, whenever the dispatcher has handled its
completions: every session that was ever made is in the map, only the last one waits for
a connection, and the map holds just the waiting session and those of calls that are alive
if and only if no failed completion was delivered. -/
theorem forgets_iff (queueSize : Int) {s : Server P Msg} (h : ServerReach queueSize s)
    (hnext : s.dispatcher = .next) :
    s.sessions = List.range' 1 s.allocated ∧
      (∀ id ∈ s.sessions, s.Waiting id ↔ id = s.allocated) ∧
      (s.Forgets ↔ s.failures = []) := by
  have hinv := ServerInv.of_reach h
  have hsessions : s.sessions = List.range' 1 s.allocated := by
    have hall := hinv.sessions
    rw [hnext] at hall
    exact hall
  constructor
  · exact hsessions
  · constructor
    · intro id hid
      rw [hsessions] at hid
      have hbounds := List.mem_range'_1.mp hid
      constructor
      · intro hw
        exact hinv.last_of_waiting hbounds.1 (by omega) hw (not_connecting_of_next hnext id)
      · intro heq
        rw [heq]
        exact hinv.last
    · constructor
      · intro hforgets
        by_contra hne
        rcases List.exists_mem_of_ne_nil _ hne with ⟨id, hid⟩
        rcases hinv.failures id hid with ⟨hpos, hle, hnot⟩
        have hmem : id ∈ s.sessions := by
          rw [hsessions]
          exact List.mem_range'_1.mpr ⟨hpos, by omega⟩
        rcases hforgets.1 id hmem with hw | halive
        · exact hnot hw
        · exact halive hid
      · intro hnone
        constructor
        · intro id _
          right
          rw [hnone]
          exact List.not_mem_nil
        · rw [hsessions, List.length_range', hinv.alive hnext hnone]

/-- A client connects. -/
def connectSchedule : List (ServerLabel Unit Nat) :=
  .deliver 1 .connect true :: List.replicate 6 .dispatch

/-- A message is published to the client, whose write fails, and the dispatcher cancels the
call. -/
def disconnectSchedule : List (ServerLabel Unit Nat) :=
  connectSchedule ++ .publish () 10 :: List.replicate 12 (.publisher ()) ++
    .deliver 1 .write false :: List.replicate 8 .dispatch

/-- With one client there are two sessions. -/
theorem forgets_iff_connected :
    ∃ s : Server Unit Nat, ServerReach 0 s ∧ s.sessions = [1, 2] ∧ s.Forgets := by
  have hrun : (run (serverStep 0) (fun _ _ => True) (Server.initial : Server Unit Nat)
      connectSchedule).map (fun s => (s.dispatcher, s.sessions, s.failures)) =
        some (.next, [1, 2], []) := by decide
  rcases exists_reach_of_run hrun with ⟨s, hs, hobs⟩
  simp only [Prod.mk.injEq] at hobs
  exact ⟨s, hs, hobs.2.1, (forgets_iff 0 hs hobs.1).2.2.mpr hobs.2.2⟩

/-- The session of a client that disconnects stays in the map. -/
theorem finished_session_stays :
    ∃ s : Server Unit Nat, ServerReach 0 s ∧ s.dispatcher = .next ∧ s.sessions = [1, 2] ∧
      s.failures = [1] ∧ (s.session 1).callState = .finished ∧ ¬ s.Forgets := by
  have hrun : (run (serverStep 0) (fun _ _ => True) (Server.initial : Server Unit Nat)
      disconnectSchedule).map
        (fun s => (s.dispatcher, s.sessions, s.failures, (s.session 1).callState)) =
        some (.next, [1, 2], [1], .finished) := by decide
  rcases exists_reach_of_run hrun with ⟨s, hs, hobs⟩
  simp only [Prod.mk.injEq] at hobs
  rcases hobs with ⟨hnext, hsessions, hfailures, hstate⟩
  refine ⟨s, hs, hnext, hsessions, hfailures, hstate, ?_⟩
  intro hforgets
  rcases hforgets.1 1 (by simp [hsessions]) with hw | halive
  · unfold Server.Waiting at hw
    rw [hstate] at hw
    contradiction
  · exact halive (by simp [hfailures])

end Runs

end Publisher
end DAQ
end DtCore
