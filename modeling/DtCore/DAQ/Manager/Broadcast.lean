import DtCore.DAQ.Manager.Locks
import Mathlib.Data.List.Nodup

/-!
# Updates as broadcasts

What a data source is for is a broadcast: a message goes to every sink that is registered at
that moment, in one step.  The threads of the manager publish to one sink after the other, and
others register and remove sinks meanwhile.  Between the two stands the message that the thread
inside `_sink_mtx` still has to hand to some of the sinks; counted as delivered, every run of
the threads is a run of the broadcaster, as long as the sources are updated by their manager
only.

Main definitions:

- `Broadcast`: the sinks of every source, what it sent and what each sink was given.
- `State.broadcast`: the broadcaster that a state of the threads stands for.

Main results:

- Theorem `refines_broadcast`: every run is a run of the broadcaster.
- Theorem `receives_while_registered`: what a sink gets while nobody registers or removes it.
- Theorem `received_in_order`: no sink gets a message twice or out of order.
-/

namespace DtCore
namespace DAQ
namespace Manager

open Foundation

variable {T S K V M : Type}

/-! ## The broadcaster -/

/-- The sinks of every source, the messages that it sent and those that each sink was given. -/
structure Broadcast (S K M : Type) where
  sinks : S → List K
  sent : S → List M
  delivered : S → K → List M

/-- A change of the sinks of a source, or a message of it. -/
inductive Broadcast.Action (S K M : Type) where
  | change (src : S) (op : SinkOp K)
  | send (src : S) (msg : M)

theorem Broadcast.eq_of {b b' : Broadcast S K M} (hsinks : b'.sinks = b.sinks)
    (hsent : b'.sent = b.sent)
    (hdelivered : ∀ src sink, b'.delivered src sink = b.delivered src sink) : b' = b := by
  cases b
  cases b'
  simp only [Broadcast.mk.injEq]
  exact ⟨hsinks, hsent, funext fun src => funext fun sink => hdelivered src sink⟩

section Broadcasts

variable [DecidableEq S] [DecidableEq K]

/-- The copies of a message that a sink gets if it goes to all sinks of a list. -/
def copies (isPb : S → K → Bool) (src : S) (sinks : List K) (sink : K) (msg : M) : List M :=
  (sinks.filter (fun x => x = sink ∧ isPb src x)).map (fun _ => msg)

/-- How often a sink gets each message. -/
def copyCount (isPb : S → K → Bool) (src : S) (sinks : List K) (sink : K) : Nat :=
  if isPb src sink then sinks.count sink else 0

def Broadcast.initial : Broadcast S K M where
  sinks _ := []
  sent _ := []
  delivered _ _ := []

/-- One step of the broadcaster. -/
def Broadcast.step (isPb : S → K → Bool) (b : Broadcast S K M) :
    Broadcast.Action S K M → Option (Broadcast S K M)
  | .change src op =>
      some { b with sinks := Function.update b.sinks src (op.apply (b.sinks src)) }
  | .send src msg =>
      some { b with
        sent := Function.update b.sent src (b.sent src ++ [msg])
        delivered := Function.update b.delivered src
          (fun sink => b.delivered src sink ++ copies isPb src (b.sinks src) sink msg) }

/-- The sink that a change is about. -/
def SinkOp.sink : SinkOp K → K
  | .append sink => sink
  | .remove sink => sink

omit [DecidableEq S] in
theorem copies_eq_replicate (isPb : S → K → Bool) (src : S) (sinks : List K) (sink : K) (msg : M) :
    copies isPb src sinks sink msg = List.replicate (copyCount isPb src sinks sink) msg := by
  induction sinks with
  | nil => simp [copies, copyCount]
  | cons x sinks ih =>
      by_cases hx : x = sink
      · subst hx
        by_cases hpb : isPb src x = true
        · simp only [copies, copyCount, hpb, if_true] at ih ⊢
          simp [hpb, List.replicate_succ, ← ih]
        · simpa [copies, copyCount, hpb] using ih
      · have hne : ¬ (x = sink ∧ isPb src x = true) := fun h => hx h.1
        simpa [copies, copyCount, List.count_cons, hx] using ih

omit [DecidableEq S] in
/-- A change of another sink leaves the copies of a sink as they are. -/
theorem copyCount_apply (isPb : S → K → Bool) (src : S) {op : SinkOp K} {sink : K}
    (h : op.sink ≠ sink) (sinks : List K) :
    copyCount isPb src (op.apply sinks) sink = copyCount isPb src sinks sink := by
  unfold copyCount
  split
  · cases op with
    | append x => simp [SinkOp.apply, SinkOp.sink, List.count_singleton] at h ⊢; exact h
    | remove x =>
        simp only [SinkOp.apply, SinkOp.sink] at h ⊢
        exact List.count_filter (by simpa using Ne.symm h)
  · rfl

/-- While nobody registers or removes a sink it gets every message of a source equally often. -/
theorem Broadcast.delivered_unchanged {isPb : S → K → Bool} {src : S} {sink : K}
    {b b' : Broadcast S K M}
    (hr : Reach (Broadcast.step isPb)
      (fun _ (a : Broadcast.Action S K M) => ∀ op, a = .change src op → op.sink ≠ sink) b b') :
    copyCount isPb src (b'.sinks src) sink = copyCount isPb src (b.sinks src) sink ∧
    ∃ new, b'.sent src = b.sent src ++ new ∧
      b'.delivered src sink = b.delivered src sink ++
        new.flatMap (List.replicate (copyCount isPb src (b.sinks src) sink)) := by
  induction hr with
  | start => exact ⟨rfl, [], by simp, by simp⟩
  | @step b₁ b₂ a hr hok hs ih =>
      rcases ih with ⟨hcount, new, hsent, hdelivered⟩
      cases a with
      | change src' op =>
          simp only [Broadcast.step, Option.some.injEq] at hs
          subst hs
          refine ⟨?_, new, hsent, hdelivered⟩
          by_cases heq : src' = src
          · subst heq
            simp only [Function.update_self]
            rw [copyCount_apply isPb src' (hok op rfl), hcount]
          · simpa [Function.update_of_ne (Ne.symm heq)] using hcount
      | send src' msg =>
          simp only [Broadcast.step, Option.some.injEq] at hs
          subst hs
          refine ⟨hcount, ?_⟩
          by_cases heq : src' = src
          · subst heq
            refine ⟨new ++ [msg], by simp [hsent], ?_⟩
            simp only [Function.update_self, copies_eq_replicate, hcount, hdelivered]
            simp
          · refine ⟨new, ?_, ?_⟩
            · simpa [Function.update_of_ne (Ne.symm heq)] using hsent
            · simpa [Function.update_of_ne (Ne.symm heq)] using hdelivered

end Broadcasts

/-! ## What the threads stand for -/

section Threads

variable [DecidableEq T] [DecidableEq S] [DecidableEq K]

/-- The messages that a sink got from a source. -/
def State.receivedFrom (s : State T S K V) (src : S) (sink : K) : List (Message V) :=
  ((s.received sink).filter (fun p => p.1 = src)).map Prod.snd

/-- The copies that the thread inside `_sink_mtx` still has to hand over. -/
def State.pending (isPb : S → K → Bool) (s : State T S K V) (src : S) (sink : K) :
    List (Message V) :=
  match (s.sinkMtx src).map s.threads with
  | some (.publish _ sinks _) => copies isPb src sinks sink (s.msg src)
  | _ => []

/-- The broadcaster that a state stands for. -/
def State.broadcast (isPb : S → K → Bool) (s : State T S K V) : Broadcast S K (Message V) where
  sinks := s.dataSinks
  sent := s.published
  delivered src sink := s.receivedFrom src sink ++ s.pending isPb src sink

omit [DecidableEq T] [DecidableEq K] in
theorem receivedFrom_congr {s s' : State T S K V} {src : S} {sink : K}
    (h : s'.received sink = s.received sink) : s'.receivedFrom src sink = s.receivedFrom src sink := by
  simp [State.receivedFrom, h]

omit [DecidableEq T] [DecidableEq S] in
theorem pending_of_free {isPb : S → K → Bool} {s : State T S K V} {src : S}
    (h : s.sinkMtx src = none) (sink : K) : s.pending isPb src sink = [] := by
  simp [State.pending, h]

omit [DecidableEq T] [DecidableEq S] in
theorem pending_of_publish {isPb : S → K → Bool} {s : State T S K V} {src src' : S} {t : T}
    {sinks : List K} {updater : Updater S} (hown : s.sinkMtx src = some t)
    (hpc : s.threads t = .publish src' sinks updater) (sink : K) :
    s.pending isPb src sink = copies isPb src sinks sink (s.msg src) := by
  simp [State.pending, hown, hpc]

omit [DecidableEq T] [DecidableEq S] in
/-- Only a thread that publishes leaves anything pending. -/
theorem pending_of_not_publish {isPb : S → K → Bool} {s : State T S K V} {src : S}
    (h : ∀ t src' sinks updater, s.sinkMtx src = some t → s.threads t ≠ .publish src' sinks updater)
    (sink : K) : s.pending isPb src sink = [] := by
  cases hown : s.sinkMtx src with
  | none => exact pending_of_free hown sink
  | some t =>
      cases hpc : s.threads t with
      | publish src' sinks updater => exact absurd hpc (h t src' sinks updater hown)
      | _ => simp [State.pending, hown, hpc]

omit [DecidableEq T] [DecidableEq S] in
theorem pending_congr {isPb : S → K → Bool} {s s' : State T S K V} {src : S}
    (hmtx : s'.sinkMtx src = s.sinkMtx src)
    (hthread : ∀ t, s.sinkMtx src = some t → s'.threads t = s.threads t)
    (hmsg : s'.msg src = s.msg src) (sink : K) :
    s'.pending isPb src sink = s.pending isPb src sink := by
  unfold State.pending
  cases hown : s.sinkMtx src with
  | none => simp [hmtx, hown]
  | some t => simp [hmtx, hown, hthread t hown, hmsg]

/-! ## Updates by the manager -/

/-- A thread that updates a source on its own. -/
def Pc.Direct : Pc S K → Prop
  | .updateData _ updater => ¬ updater.Managed
  | .lockPublish _ updater => ¬ updater.Managed
  | .publish _ _ updater => ¬ updater.Managed
  | _ => False

/-- All updates come from the manager. -/
def ByManager (s : State T S K V) : Prop :=
  ∀ t, ¬ (s.threads t).Direct

theorem ByManager.step {isPb : S → K → Bool} {s s' : State T S K V} {l : Label T S K V}
    (h : ByManager s) (hok : Managed s l) (hs : step isPb s l = some s') : ByManager s' := by
  have hmove := step_moves hs
  intro t
  by_cases ht : t = l.mover
  · subst ht
    have hold := h l.mover
    cases hmove with
    | enter t c hpc =>
        cases c with
        | updateSource src => exact absurd hok (by simp [Managed])
        | _ => simp [Label.mover, State.setThread, Call.entry, Pc.Direct]
    | published t src updater hpc | nothing t src updater hpc =>
        cases updater <;> simp [Label.mover, State.setThread, Updater.next, Pc.Direct]
    | rejected t src updater value hpc =>
        cases updater <;> simp [Label.mover, State.setThread, Updater.next, Pc.Direct]
    | lockPublish t src updater hpc | publish t src sink sinks updater hpc
    | filled t src updater value hpc =>
        simpa [Label.mover, State.setThread, hpc, Pc.Direct] using hold
    | lockSources t op hpc | changeSources t op hpc | lockUpdate t hpc | loopEnd t hpc
    | loopNext t src rest hpc | unlockSources t hpc | lockSinks t src op hpc
    | changeSinks t src op hpc | unlockSinks t src hpc =>
        simp [Label.mover, State.setThread, Pc.Direct, Updater.Managed]
  · rw [hmove.other ht]
    exact h t

/-- What is known of the states of managed runs. -/
structure Orderly (s : State T S K V) : Prop where
  locks : Locks s
  byManager : ByManager s

theorem orderly_reachable [Inhabited V] {isPb : S → K → Bool}
    {ok : State T S K V → Label T S K V → Prop} (hok : ∀ s l, ok s l → Managed s l)
    {s : State T S K V} (hr : Reach (Manager.step isPb) ok initial s) : Orderly s where
  locks := locks_reachable hr
  byManager := by
    apply hr.invariant
    · intro t
      simp [initial, Pc.Direct]
    · intro t l t' ht hl hs
      exact ht.step (hok t l hl) hs

theorem Orderly.step {isPb : S → K → Bool} {s s' : State T S K V} {l : Label T S K V}
    (h : Orderly s) (hok : Managed s l) (hs : Manager.step isPb s l = some s') : Orderly s' :=
  ⟨h.locks.step hs, h.byManager.step hok hs⟩

omit [DecidableEq T] [DecidableEq S] [DecidableEq K] in
/-- While a source is published, no thread fills a message. -/
theorem Orderly.alone {s : State T S K V} (h : Orderly s) {t u : T} {src src' : S}
    {sinks : List K} {updater updater' : Updater S}
    (ht : s.threads t = .publish src sinks updater)
    (hu : s.threads u = .updateData src' updater') : False := by
  have htm : updater.Managed := by
    by_contra hno
    exact h.byManager t (by simpa [ht, Pc.Direct] using hno)
  have hum : updater'.Managed := by
    by_contra hno
    exact h.byManager u (by simpa [hu, Pc.Direct] using hno)
  have heq : t = u :=
    h.locks.sources.guarded.unique (by simpa [ht, Pc.HoldsSources] using htm)
      (by simpa [hu, Pc.HoldsSources] using hum)
  rw [heq, hu] at ht
  contradiction

/-! ## The refinement -/

/-- The action of a step. -/
inductive Simulates (isPb : S → K → Bool) (s : State T S K V) (l : Label T S K V)
    (s' : State T S K V) : Prop where
  | idle : s'.broadcast isPb = s.broadcast isPb → Simulates isPb s l s'
  | change (t : T) (src : S) (op : SinkOp K) :
      l = .access t → s.threads t = .changeSinks src op →
      Broadcast.step isPb (s.broadcast isPb) (.change src op) = some (s'.broadcast isPb) →
      Simulates isPb s l s'
  | send (src : S) :
      Broadcast.step isPb (s.broadcast isPb) (.send src (s.msg src)) =
        some (s'.broadcast isPb) → Simulates isPb s l s'

omit [DecidableEq T] in
theorem broadcast_congr {isPb : S → K → Bool} {s s' : State T S K V}
    (hsinks : s'.dataSinks = s.dataSinks) (hsent : s'.published = s.published)
    (hreceived : s'.received = s.received)
    (hpending : ∀ src sink, s'.pending isPb src sink = s.pending isPb src sink) :
    s'.broadcast isPb = s.broadcast isPb := by
  apply Broadcast.eq_of hsinks hsent
  intro src sink
  have hfrom : s'.receivedFrom src sink = s.receivedFrom src sink :=
    receivedFrom_congr (by rw [hreceived])
  simp only [State.broadcast, hpending, hfrom]

/-- What is pending for a source does not change while its `_sink_mtx` belongs to a thread that
does not move. -/
theorem pending_elsewhere {isPb : S → K → Bool} {s s' : State T S K V} {l : Label T S K V}
    (h : Orderly s) (hmove : Moves isPb s l s') {src : S}
    (hpc : ¬ (s.threads l.mover).HoldsSinks src) (hmtx : s'.sinkMtx src = s.sinkMtx src)
    (hmsg : s'.msg src = s.msg src) (sink : K) :
    s'.pending isPb src sink = s.pending isPb src sink := by
  refine pending_congr hmtx (fun t hown => hmove.other ?_) hmsg sink
  intro heq
  exact hpc (heq ▸ (h.locks.sinks src t).mpr hown)

/-- The steps of a thread that does not publish, take or give back a `_sink_mtx`. -/
theorem broadcast_quiet {isPb : S → K → Bool} {s s' : State T S K V} {l : Label T S K V}
    (h : Orderly s) (hmove : Moves isPb s l s')
    (hpc : ∀ src, ¬ (s.threads l.mover).HoldsSinks src)
    (hsinks : s'.dataSinks = s.dataSinks) (hsent : s'.published = s.published)
    (hreceived : s'.received = s.received) (hmtx : s'.sinkMtx = s.sinkMtx)
    (hmsg : s'.msg = s.msg) : s'.broadcast isPb = s.broadcast isPb := by
  apply broadcast_congr hsinks hsent hreceived
  intro src sink
  exact pending_elsewhere h hmove (hpc src) (by rw [hmtx]) (by rw [hmsg]) sink

/-- A message is filled while nothing is pending. -/
theorem broadcast_filled {isPb : S → K → Bool} {s s' : State T S K V} {l : Label T S K V}
    (h : Orderly s) (hmove : Moves isPb s l s') {src : S} {updater : Updater S}
    (hpc : s.threads l.mover = .updateData src updater) (hsinks : s'.dataSinks = s.dataSinks)
    (hsent : s'.published = s.published) (hreceived : s'.received = s.received)
    (hmtx : s'.sinkMtx = s.sinkMtx) : s'.broadcast isPb = s.broadcast isPb := by
  apply broadcast_congr hsinks hsent hreceived
  intro src' sink
  have hnone : ∀ t src'' sinks updater', s.sinkMtx src' = some t →
      s.threads t ≠ .publish src'' sinks updater' :=
    fun t src'' sinks updater' _ hpub => h.alone hpub hpc
  rw [pending_of_not_publish hnone, pending_of_not_publish]
  intro t src'' sinks updater' hown
  rw [hmtx] at hown
  have hne : t ≠ l.mover := by
    intro heq
    have hin := (h.locks.sinks src' t).mpr hown
    simp [heq, hpc, Pc.HoldsSinks] at hin
  rw [hmove.other hne]
  exact hnone t src'' sinks updater' hown

omit [DecidableEq S] in
theorem copies_cons (isPb : S → K → Bool) (src : S) (x : K) (sinks : List K) (sink : K) (msg : M) :
    copies isPb src (x :: sinks) sink msg =
      (if x = sink ∧ isPb src x then [msg] else []) ++ copies isPb src sinks sink msg := by
  by_cases h : x = sink ∧ isPb src x = true
  · rw [copies, List.filter_cons_of_pos (by simpa using h), if_pos h]
    rfl
  · rw [copies, List.filter_cons_of_neg (by simpa using h), if_neg h]
    rfl

omit [DecidableEq T] in
/-- One `Publish`. -/
theorem receivedFrom_publish {isPb : S → K → Bool} {s s' : State T S K V} {src : S} {x : K}
    (h : s'.received = if isPb src x then
      Function.update s.received x (s.received x ++ [(src, s.msg src)]) else s.received)
    (src' : S) (sink : K) :
    s'.receivedFrom src' sink = s.receivedFrom src' sink ++
      (if src' = src ∧ x = sink ∧ isPb src x then [s.msg src] else []) := by
  unfold State.receivedFrom
  rw [h]
  by_cases hpb : isPb src x = true
  · by_cases hx : x = sink
    · subst hx
      by_cases hsrc : src' = src
      · simp [hpb, hsrc]
      · simp [hpb, hsrc, Ne.symm hsrc]
    · simp [hpb, hx, Function.update_of_ne (Ne.symm hx)]
  · simp [hpb]

theorem simulates {isPb : S → K → Bool} {s s' : State T S K V} {l : Label T S K V}
    (h : Orderly s) (hs : step isPb s l = some s') : Simulates isPb s l s' := by
  have hmove := step_moves hs
  have hcases := hmove
  cases hcases with
  | enter t c hpc | lockSources t op hpc | changeSources t op hpc | lockUpdate t hpc
  | loopEnd t hpc | loopNext t src rest hpc | unlockSources t hpc | nothing t src updater hpc =>
      exact .idle (broadcast_quiet h hmove (by simp [Label.mover, hpc, Pc.HoldsSinks]) rfl rfl rfl
        rfl rfl)
  | filled t src updater value hpc | rejected t src updater value hpc =>
      exact .idle (broadcast_filled h hmove hpc rfl rfl rfl rfl)
  | lockPublish t src updater hpc hfree =>
      refine .send src ?_
      refine congrArg some (Eq.symm ?_)
      refine Broadcast.eq_of ?_ ?_ (fun src' sink => ?_)
      · rfl
      · rfl
      simp only [State.broadcast]
      by_cases heq : src' = src
      · subst heq
        rw [Function.update_self, pending_of_free hfree, List.append_nil]
        simp [State.pending, State.setThread, State.receivedFrom]
      · rw [Function.update_of_ne heq]
        rw [pending_elsewhere h hmove (by simp [Label.mover, hpc, Pc.HoldsSinks])
          (by simp [heq]) rfl]
        rfl
  | publish t src x sinks updater hpc =>
      have hown : s.sinkMtx src = some t :=
        (h.locks.sinks src t).mp (by simp [hpc, Pc.HoldsSinks])
      refine .idle (Broadcast.eq_of rfl rfl (fun src' sink => ?_))
      simp only [State.broadcast]
      rw [receivedFrom_publish rfl]
      by_cases heq : src' = src
      · subst heq
        rw [pending_of_publish hown hpc, copies_cons]
        simp [State.pending, State.setThread, hown]
      · rw [pending_elsewhere h hmove (by simp [Label.mover, hpc, Pc.HoldsSinks, Ne.symm heq])
          rfl rfl]
        simp [heq]
  | published t src updater hpc =>
      have hown : s.sinkMtx src = some t :=
        (h.locks.sinks src t).mp (by simp [hpc, Pc.HoldsSinks])
      refine .idle (broadcast_congr rfl rfl rfl (fun src' sink => ?_))
      by_cases heq : src' = src
      · subst heq
        rw [pending_of_free (by simp), pending_of_publish hown hpc]
        rfl
      · exact pending_elsewhere h hmove (by simp [Label.mover, hpc, Pc.HoldsSinks, Ne.symm heq])
          (by simp [heq]) rfl sink
  | lockSinks t src op hpc hfree =>
      refine .idle (broadcast_congr rfl rfl rfl (fun src' sink => ?_))
      by_cases heq : src' = src
      · subst heq
        rw [pending_of_free hfree]
        simp [State.pending, State.setThread]
      · exact pending_elsewhere h hmove (by simp [Label.mover, hpc, Pc.HoldsSinks])
          (by simp [heq]) rfl sink
  | changeSinks t src op hpc =>
      have hown : s.sinkMtx src = some t :=
        (h.locks.sinks src t).mp (by simp [hpc, Pc.HoldsSinks])
      refine .change t src op rfl hpc ?_
      refine congrArg some (Eq.symm ?_)
      refine Broadcast.eq_of ?_ ?_ (fun src' sink => ?_)
      · rfl
      · rfl
      simp only [State.broadcast]
      by_cases heq : src' = src
      · subst heq
        simp [State.pending, State.setThread, State.receivedFrom, hown, hpc]
      · rw [pending_elsewhere h hmove (by simp [Label.mover, hpc, Pc.HoldsSinks, Ne.symm heq])
          rfl rfl]
        rfl
  | unlockSinks t src hpc =>
      have hown : s.sinkMtx src = some t :=
        (h.locks.sinks src t).mp (by simp [hpc, Pc.HoldsSinks])
      refine .idle (broadcast_congr rfl rfl rfl (fun src' sink => ?_))
      by_cases heq : src' = src
      · subst heq
        rw [pending_of_free (by simp)]
        simp [State.pending, hown, hpc]
      · exact pending_elsewhere h hmove (by simp [Label.mover, hpc, Pc.HoldsSinks, Ne.symm heq])
          (by simp [heq]) rfl sink

/-- Every run in which the manager updates the sources is a run of the broadcaster, and a source
that nobody publishes has delivered what its sinks received. -/
theorem refines_broadcast [Inhabited V] (isPb : S → K → Bool) {s : State T S K V}
    (hr : Reach (Manager.step isPb) Managed initial s) :
    Reach (Broadcast.step isPb) (fun _ (_ : Broadcast.Action S K (Message V)) => True)
      Broadcast.initial (s.broadcast isPb) ∧
    ∀ src, s.sinkMtx src = none → ∀ sink,
      (s.broadcast isPb).delivered src sink = s.receivedFrom src sink := by
  constructor
  · have hknown := hr.with_known (fun t ht => orderly_reachable (fun _ _ hok => hok) ht)
    have hstart : (initial : State T S K V).broadcast isPb = Broadcast.initial := by
      apply Broadcast.eq_of rfl rfl
      intro src sink
      simp [State.broadcast, State.receivedFrom, State.pending, initial]
    rw [← hstart]
    apply hknown.project (State.broadcast isPb)
    intro t l t' hok hs
    rcases simulates hok.2 hs with heq | ⟨u, src, op, _, _, hstep⟩ | ⟨src, hstep⟩
    · exact Or.inl heq
    · exact Or.inr ⟨_, trivial, hstep⟩
    · exact Or.inr ⟨_, trivial, hstep⟩
  · intro src hfree sink
    simp [State.broadcast, pending_of_free hfree]

/-! ## What a sink gets -/

/-- The thread is about to register or remove a sink of a source. -/
def Pc.Changes (src : S) (sink : K) (pc : Pc S K) : Prop :=
  ∃ op : SinkOp K, op.sink = sink ∧ (pc = .lockSinks src op ∨ pc = .changeSinks src op)

/-- Nobody calls `AppendDataSink` or `RemoveDataSink` for this sink. -/
def Leaves (src : S) (sink : K) : Label T S K V → Prop
  | .call _ (.changeSinks src' op) => src' = src → op.sink ≠ sink
  | _ => True

omit [DecidableEq S] [DecidableEq K] in
theorem changes_next {src : S} {sink : K} (updater : Updater S) :
    ¬ (updater.next : Pc S K).Changes src sink := by
  cases updater <;> simp [Updater.next, Pc.Changes]

/-- No thread is about to change the sink, as long as nobody starts to. -/
theorem Moves.leaves {isPb : S → K → Bool} {s s' : State T S K V} {l : Label T S K V} {src : S}
    {sink : K} (hmove : Moves isPb s l s') (hok : Leaves src sink l)
    (h : ∀ t, ¬ (s.threads t).Changes src sink) (t : T) : ¬ (s'.threads t).Changes src sink := by
  by_cases ht : t = l.mover
  · subst ht
    have hold := h l.mover
    cases hmove with
    | enter t c hpc =>
        cases c with
        | changeSinks src' op =>
            simp only [Leaves] at hok
            simp only [Label.mover, setThread_self, Call.entry]
            rintro ⟨op', hsink, heq | heq⟩
            · cases heq
              exact hok rfl hsink
            · contradiction
        | _ => simp [Label.mover, State.setThread, Call.entry, Pc.Changes]
    | published t src' updater hpc | nothing t src' updater hpc =>
        simpa [Label.mover, State.setThread] using changes_next updater
    | rejected t src' updater value hpc =>
        simpa [Label.mover, State.setThread] using changes_next updater
    | lockSinks t src' op hpc hfree =>
        simp only [Label.mover, State.setThread, Function.update_self]
        rintro ⟨op', hsink, heq | heq⟩
        · contradiction
        · cases heq
          exact hold ⟨op, hsink, Or.inl hpc⟩
    | lockSources t op hpc | changeSources t op hpc | lockUpdate t hpc | loopEnd t hpc
    | loopNext t src' rest hpc | unlockSources t hpc | lockPublish t src' updater hpc
    | publish t src' x sinks updater hpc | filled t src' updater value hpc
    | changeSinks t src' op hpc | unlockSinks t src' hpc =>
        simp [Label.mover, State.setThread, Pc.Changes]
  · rw [hmove.other ht]
    exact h t

/-- Between two moments at which a source is not in use, a sink that nobody registers or removes
gets exactly the messages that the source publishes, in order and each as often as the sink was
registered; a sink that was removed, or is of another type, gets nothing. -/
theorem receives_while_registered [Inhabited V] (isPb : S → K → Bool) (src : S) (sink : K)
    {s s' : State T S K V} (hs : Reach (Manager.step isPb) Managed initial s)
    (hquiet : ∀ t, ¬ (s.threads t).Changes src sink)
    (hr : Reach (Manager.step isPb) (fun t l => Managed t l ∧ Leaves src sink l) s s')
    (hfree : s.sinkMtx src = none) (hfree' : s'.sinkMtx src = none) :
    ∃ new, s'.published src = s.published src ++ new ∧
      s'.receivedFrom src sink = s.receivedFrom src sink ++
        new.flatMap (List.replicate (copyCount isPb src (s.dataSinks src) sink)) := by
  have horderly : ∀ t, Reach (Manager.step isPb) (fun t l => Managed t l ∧ Leaves src sink l) s t →
      Orderly t ∧ ∀ u, ¬ (t.threads u).Changes src sink := by
    intro t ht
    apply ht.invariant ⟨orderly_reachable (fun _ _ hok => hok) hs, hquiet⟩
    intro t l t' hinv hok hstep
    exact ⟨hinv.1.step hok.1 hstep, (step_moves hstep).leaves hok.2 hinv.2⟩
  have hbroadcast : Reach (Broadcast.step isPb)
      (fun _ (a : Broadcast.Action S K (Message V)) => ∀ op, a = .change src op → op.sink ≠ sink)
      (s.broadcast isPb) (s'.broadcast isPb) := by
    apply (hr.with_known horderly).project (State.broadcast isPb)
    intro t l t' hok hstep
    rcases simulates hok.2.1 hstep with heq | ⟨u, src', op, _, hpc, hstep'⟩ | ⟨src', hstep'⟩
    · exact Or.inl heq
    · refine Or.inr ⟨_, ?_, hstep'⟩
      intro op' heq hsink
      cases heq
      exact hok.2.2 u ⟨op, hsink, Or.inr hpc⟩
    · exact Or.inr ⟨_, by simp, hstep'⟩
  rcases (Broadcast.delivered_unchanged hbroadcast).2 with ⟨new, hsent, hdelivered⟩
  refine ⟨new, hsent, ?_⟩
  simpa [State.broadcast, pending_of_free hfree, pending_of_free hfree'] using hdelivered

/-! ## Order -/

/-- The sink that a thread is about to register, and its source. -/
def Pc.registers : Pc S K → Option (S × K)
  | .changeSinks src (.append sink) => some (src, sink)
  | _ => none

/-- No sink is registered a second time. -/
def Fresh (s : State T S K V) : Label T S K V → Prop
  | .access t => ∀ p ∈ (s.threads t).registers, p.2 ∉ s.dataSinks p.1
  | _ => True

/-- Every sink is registered once, and has been given a part of what was sent. -/
structure Broadcast.InOrder (b : Broadcast S K M) : Prop where
  sinks : ∀ src, (b.sinks src).Nodup
  delivered : ∀ src sink, (b.delivered src sink).Sublist (b.sent src)

omit [DecidableEq T] in
theorem Broadcast.InOrder.step {isPb : S → K → Bool} {b b' : Broadcast S K M}
    {a : Broadcast.Action S K M} (h : b.InOrder)
    (hok : ∀ src sink, a = .change src (.append sink) → sink ∉ b.sinks src)
    (hs : Broadcast.step isPb b a = some b') : b'.InOrder := by
  cases a with
  | change src op =>
      simp only [Broadcast.step, Option.some.injEq] at hs
      subst hs
      refine ⟨fun src' => ?_, h.delivered⟩
      by_cases heq : src' = src
      · subst heq
        simp only [Function.update_self]
        cases op with
        | append sink =>
            have hnew := hok src' sink rfl
            exact List.Nodup.append (h.sinks src') (List.nodup_singleton sink) (by simpa using hnew)
        | remove sink => exact (h.sinks src').filter _
      · simpa [Function.update_of_ne heq] using h.sinks src'
  | send src msg =>
      simp only [Broadcast.step, Option.some.injEq] at hs
      subst hs
      refine ⟨h.sinks, fun src' sink => ?_⟩
      by_cases heq : src' = src
      · subst heq
        have hone : copyCount isPb src' (b.sinks src') sink ≤ 1 := by
          unfold copyCount
          split
          · exact List.nodup_iff_count_le_one.mp (h.sinks src') sink
          · exact Nat.zero_le 1
        simp only [Function.update_self, copies_eq_replicate]
        exact (h.delivered src' sink).append
          ((List.replicate_sublist_replicate msg).mpr hone)
      · simpa [Function.update_of_ne heq] using h.delivered src' sink

/-- The stamps of a source count from one. -/
structure Stamped (s : State T S K V) (src : S) : Prop where
  cnt : s.cnt src = (s.stamped src).length % 2 ^ 32
  seq : ∀ i msg, (s.stamped src)[i]? = some msg → msg.seq = (i + 1) % 2 ^ 32

omit [DecidableEq T] [DecidableEq K] in
theorem Stamped.stamp {s : State T S K V} {src : S} (h : Stamped s src) (src' : S) (value : V) :
    Stamped (s.stamp src' value) src := by
  by_cases heq : src = src'
  · subst heq
    constructor
    case cnt =>
      simp only [State.stamp, Function.update_self, h.cnt, List.length_append, List.length_singleton]
      omega
    case seq =>
      intro i msg hmsg
      simp only [State.stamp, Function.update_self, List.getElem?_append] at hmsg
      split at hmsg
      · exact h.seq i msg hmsg
      · rename_i hlen
        rw [List.getElem?_singleton] at hmsg
        split at hmsg
        · rename_i hlast
          have hi : i = (s.stamped src).length := by omega
          cases hmsg
          simp only [h.cnt, hi]
          omega
        · contradiction
  · constructor
    case cnt => simpa [State.stamp, heq] using h.cnt
    case seq => simpa [State.stamp, heq] using h.seq

omit [DecidableEq T] [DecidableEq S] [DecidableEq K] in
theorem Stamped.congr {s s' : State T S K V} {src : S} (h : Stamped s src)
    (hcnt : s'.cnt src = s.cnt src) (hstamped : s'.stamped src = s.stamped src) :
    Stamped s' src where
  cnt := by rw [hcnt, hstamped, h.cnt]
  seq := by rw [hstamped]; exact h.seq

theorem Stamped.step {isPb : S → K → Bool} {s s' : State T S K V} {l : Label T S K V} {src : S}
    (h : Stamped s src) (hs : Manager.step isPb s l = some s') : Stamped s' src := by
  cases step_moves hs with
  | filled t src' updater value hpc | rejected t src' updater value hpc =>
      exact (h.stamp src' value).congr rfl rfl
  | _ => exact h.congr rfl rfl

/-- What a source has published was stamped before, and the message that it is about to publish
is the last one stamped. -/
structure PublishesStamped (s : State T S K V) (src : S) : Prop where
  published : (s.published src).Sublist (s.stamped src)
  ready : ∀ t updater, s.threads t = .lockPublish src updater →
    ∃ old, s.stamped src = old ++ [s.msg src] ∧ (s.published src).Sublist old

omit [DecidableEq T] [DecidableEq S] [DecidableEq K] in
/-- At most one thread is about to fill or to publish a message. -/
theorem Orderly.one_update {s : State T S K V} (h : Orderly s) {t u : T} {src src' : S}
    {updater updater' : Updater S} (ht : s.threads t = .lockPublish src updater)
    (hu : s.threads u = .lockPublish src' updater' ∨ s.threads u = .updateData src' updater') :
    u = t := by
  have htm : updater.Managed := by
    by_contra hno
    exact h.byManager t (by simpa [ht, Pc.Direct] using hno)
  have hum : updater'.Managed := by
    by_contra hno
    apply h.byManager u
    rcases hu with hu | hu <;> simpa [hu, Pc.Direct] using hno
  apply h.locks.sources.guarded.unique
  · rcases hu with hu | hu <;> simpa [hu, Pc.HoldsSources] using hum
  · simpa [ht, Pc.HoldsSources] using htm

/-- A step that neither fills nor publishes a message of a source. -/
theorem PublishesStamped.quiet {isPb : S → K → Bool} {s s' : State T S K V} {l : Label T S K V}
    {src : S} (h : PublishesStamped s src) (hmove : Moves isPb s l s')
    (hpublished : s'.published src = s.published src) (hstamped : s'.stamped src = s.stamped src)
    (hmsg : s'.msg src = s.msg src)
    (hpc : ∀ updater, s'.threads l.mover ≠ .lockPublish src updater) :
    PublishesStamped s' src := by
  constructor
  case published =>
    rw [hpublished, hstamped]
    exact h.published
  case ready =>
    intro t updater ht
    have hne : t ≠ l.mover := by
      intro heq
      exact hpc updater (heq ▸ ht)
    rw [hmove.other hne] at ht
    rw [hpublished, hstamped, hmsg]
    exact h.ready t updater ht

omit [DecidableEq T] [DecidableEq S] [DecidableEq K] in
/-- A step that stamps the message of a source. -/
theorem PublishesStamped.stamp {s s' : State T S K V} {src : S} (h : PublishesStamped s src)
    (hpublished : s'.published src = s.published src)
    (hstamped : s'.stamped src = s.stamped src ++ [s'.msg src]) : PublishesStamped s' src := by
  constructor
  case published =>
    rw [hpublished, hstamped]
    exact h.published.trans (List.sublist_append_left _ _)
  case ready =>
    intro t updater _
    exact ⟨s.stamped src, hstamped, hpublished ▸ h.published⟩

omit [DecidableEq S] [DecidableEq K] in
theorem next_ne_lockPublish (src : S) (updater updater' : Updater S) :
    (updater.next : Pc S K) ≠ .lockPublish src updater' := by
  cases updater <;> simp [Updater.next]

omit [DecidableEq S] [DecidableEq K] in
theorem entry_ne_lockPublish (src : S) (c : Call S K) (updater : Updater S) :
    c.entry ≠ .lockPublish src updater := by
  cases c <;> simp [Call.entry]

theorem PublishesStamped.step {isPb : S → K → Bool} {s s' : State T S K V} {l : Label T S K V}
    {src : S} (h : PublishesStamped s src) (horderly : Orderly s)
    (hs : Manager.step isPb s l = some s') : PublishesStamped s' src := by
  have hmove := step_moves hs
  have hcases := hmove
  cases hcases with
  | filled t src' updater value hpc =>
      by_cases heq : src = src'
      · subst heq
        exact h.stamp rfl (by simp [State.setThread, State.stamp])
      · exact h.quiet hmove rfl (by simp [State.setThread, State.stamp, heq])
          (by simp [State.setThread, State.stamp, heq])
          (by simp [Label.mover, State.setThread, Ne.symm heq])
  | rejected t src' updater value hpc =>
      by_cases heq : src = src'
      · subst heq
        exact h.stamp rfl (by simp [State.setThread, State.stamp])
      · exact h.quiet hmove rfl (by simp [State.setThread, State.stamp, heq])
          (by simp [State.setThread, State.stamp, heq])
          (by simpa [Label.mover, State.setThread] using next_ne_lockPublish src updater)
  | lockPublish t src' updater hpc hfree =>
      by_cases heq : src = src'
      · subst heq
        rcases h.ready t updater hpc with ⟨old, hstamped, hold⟩
        constructor
        case published =>
          simp only [Function.update_self]
          simp only [State.setThread, hstamped]
          exact hold.append (List.Sublist.refl _)
        case ready =>
          intro u updater' hu
          by_cases hut : u = t
          · subst hut
            simp [State.setThread] at hu
          · simp only [State.setThread, Function.update_of_ne hut] at hu
            exact absurd (horderly.one_update hpc (Or.inl hu)) hut
      · apply h.quiet hmove
        · simp [heq]
        · rfl
        · rfl
        · simp [Label.mover, State.setThread]
  | enter t c hpc =>
      exact h.quiet hmove rfl rfl rfl
        (by simpa [Label.mover, State.setThread] using entry_ne_lockPublish src c)
  | published t src' updater hpc | nothing t src' updater hpc =>
      exact h.quiet hmove rfl rfl rfl
        (by simpa [Label.mover, State.setThread] using next_ne_lockPublish src updater)
  | lockSources t op hpc | changeSources t op hpc | lockUpdate t hpc | loopEnd t hpc
  | loopNext t src' rest hpc | unlockSources t hpc | publish t src' x sinks updater hpc
  | lockSinks t src' op hpc | changeSinks t src' op hpc | unlockSinks t src' hpc =>
      exact h.quiet hmove rfl rfl rfl (by simp [Label.mover, State.setThread])

/-- If the manager updates the sources and no sink is registered twice, every sink gets a part of
the messages that its sources stamped, in the order of their sequence numbers, which count from
one: none is invented, repeated or overtaken. -/
theorem received_in_order [Inhabited V] (isPb : S → K → Bool) {s : State T S K V}
    (hr : Reach (Manager.step isPb) (fun t l => Managed t l ∧ Fresh t l) initial s) (src : S)
    (sink : K) :
    (s.receivedFrom src sink).Sublist (s.stamped src) ∧
    ∀ i msg, (s.stamped src)[i]? = some msg → msg.seq = (i + 1) % 2 ^ 32 := by
  have horderly : ∀ t : State T S K V,
      Reach (Manager.step isPb) (fun t l => Managed t l ∧ Fresh t l) initial t → Orderly t :=
    fun t ht => orderly_reachable (fun _ _ hok => hok.1) ht
  have hknown := hr.with_known horderly
  have hpublished : PublishesStamped s src := by
    apply hknown.invariant
    · exact ⟨by simp [initial], by simp [initial]⟩
    · intro t l t' ht hok hs
      exact ht.step hok.2 hs
  have hstamped : Stamped s src := by
    apply hr.invariant
    · exact ⟨by simp [initial], by simp [initial]⟩
    · intro t l t' ht _ hs
      exact ht.step hs
  have hinorder : (s.broadcast isPb).InOrder := by
    apply hknown.invariant
    · constructor
      · simp [State.broadcast, initial]
      · simp [State.broadcast, State.receivedFrom, State.pending, initial]
    · intro t l t' ht hok hs
      rcases simulates hok.2 hs with heq | ⟨u, src', op, hl, hpc, hstep⟩ | ⟨src', hstep⟩
      · rw [heq]
        exact ht
      · refine ht.step ?_ hstep
        intro src'' sink' hop
        cases hop
        have hfresh := hok.1.2
        rw [hl] at hfresh
        simpa [Fresh, hpc, Pc.registers, State.broadcast] using hfresh
      · exact ht.step (by simp) hstep
  refine ⟨?_, hstamped.seq⟩
  have hdelivered : (s.receivedFrom src sink).Sublist ((s.broadcast isPb).delivered src sink) :=
    List.sublist_append_left _ _
  exact (hdelivered.trans (hinorder.delivered src sink)).trans hpublished.published

instance decidableManaged (s : State T S K V) : (l : Label T S K V) → Decidable (Managed s l)
  | .call _ (.updateSource _) => inferInstanceAs (Decidable False)
  | .call _ (.changeSources _) => inferInstanceAs (Decidable True)
  | .call _ .update => inferInstanceAs (Decidable True)
  | .call _ (.changeSinks _ _) => inferInstanceAs (Decidable True)
  | .access _ => inferInstanceAs (Decidable True)
  | .data _ _ => inferInstanceAs (Decidable True)

instance decidableFresh (s : State T S K V) : (l : Label T S K V) → Decidable (Fresh s l)
  | .call _ _ => inferInstanceAs (Decidable True)
  | .access t => inferInstanceAs (Decidable (∀ p ∈ (s.threads t).registers, _))
  | .data _ _ => inferInstanceAs (Decidable True)

instance decidableLeaves (src : S) (sink : K) :
    (l : Label T S K V) → Decidable (Leaves src sink l)
  | .call _ (.updateSource _) => inferInstanceAs (Decidable True)
  | .call _ (.changeSources _) => inferInstanceAs (Decidable True)
  | .call _ .update => inferInstanceAs (Decidable True)
  | .call _ (.changeSinks src' op) => inferInstanceAs (Decidable (src' = src → op.sink ≠ sink))
  | .access _ => inferInstanceAs (Decidable True)
  | .data _ _ => inferInstanceAs (Decidable True)

end Threads

/-! ## A run -/

/-- The first thread registers sink 1 and the source, and updates it; while it publishes, the
second thread starts to register sink 2. -/
def twoSinks : List (Label Bool Unit Nat Nat) :=
  [.call false (.changeSinks () (.append 1)), .access false, .access false, .access false,
    .call false (.changeSources (.append ())), .access false, .access false, .access false,
    .call false .update, .access false, .access false, .data false (.filled 7 true),
    .call true (.changeSinks () (.append 2)), .access false, .access false, .access false,
    .access true, .access true, .access true, .access false, .access false]

/-- The second update reaches both sinks. -/
def secondUpdate : List (Label Bool Unit Nat Nat) :=
  [.call true .update, .access true, .access true, .data true (.filled 8 true), .access true,
    .access true, .access true, .access true, .access true, .access true]

theorem refines_broadcast_run :
    ∃ s : State Bool Unit Nat Nat, s.receivedFrom () 1 = [⟨1, 7⟩] ∧
      Reach (Broadcast.step (fun _ _ => true))
        (fun _ (_ : Broadcast.Action Unit Nat (Message Nat)) => True)
        Broadcast.initial (s.broadcast (fun _ _ => true)) := by
  have hrun : (run (step (fun _ _ => true)) Managed (initial : State Bool Unit Nat Nat)
      twoSinks).map (fun s => s.receivedFrom () 1) = some [⟨1, 7⟩] := by decide
  rcases exists_reach_of_run hrun with ⟨s, hs, hreceived⟩
  exact ⟨s, hreceived, (refines_broadcast (fun _ _ => true) hs).1⟩

theorem received_in_order_run :
    ∃ s : State Bool Unit Nat Nat, s.receivedFrom () 1 = [⟨1, 7⟩, ⟨2, 8⟩] ∧
      (s.receivedFrom () 2).Sublist (s.stamped ()) := by
  have hrun : (run (step (fun _ _ => true)) (fun t l => Managed t l ∧ Fresh t l)
      (initial : State Bool Unit Nat Nat) (twoSinks ++ secondUpdate)).map
        (fun s => s.receivedFrom () 1) = some [⟨1, 7⟩, ⟨2, 8⟩] := by decide
  rcases exists_reach_of_run hrun with ⟨s, hs, hreceived⟩
  exact ⟨s, hreceived, (received_in_order (fun _ _ => true) hs () 2).1⟩

theorem receives_while_registered_run :
    ∃ s s' : State Bool Unit Nat Nat, s'.published () = [⟨1, 7⟩, ⟨2, 8⟩] ∧
      ∃ new, s'.published () = s.published () ++ new ∧
        s'.receivedFrom () 2 = s.receivedFrom () 2 ++
          new.flatMap (List.replicate (copyCount (fun _ _ => true) () (s.dataSinks ()) 2)) := by
  have hruns : (run (step (fun _ _ => true)) Managed (initial : State Bool Unit Nat Nat)
      twoSinks).bind (fun s =>
        (run (step (fun _ _ => true)) (fun t l => Managed t l ∧ Leaves () 2 l) s
          secondUpdate).map (fun s' =>
            ([s.threads false, s.threads true], [s.sinkMtx (), s'.sinkMtx ()],
              s'.published ()))) =
      some ([.idle, .idle], [none, none], [⟨1, 7⟩, ⟨2, 8⟩]) := by decide
  rcases Option.bind_eq_some_iff.mp hruns with ⟨s, hrun, hruns'⟩
  rcases Option.map_eq_some_iff.mp hruns' with ⟨s', hrun', hobserved⟩
  simp only [Prod.mk.injEq, List.cons.injEq, and_true] at hobserved
  rcases hobserved with ⟨⟨hfirst, hsecond⟩, ⟨hfree, hfree'⟩, hpublished⟩
  have hquiet : ∀ t, ¬ (s.threads t).Changes () 2 := by
    intro t
    cases t with
    | false => simp [hfirst, Pc.Changes]
    | true => simp [hsecond, Pc.Changes]
  exact ⟨s, s', hpublished, receives_while_registered (fun _ _ => true) () 2
    (reach_of_run Reach.start hrun) hquiet (reach_of_run Reach.start hrun') hfree hfree'⟩

end Manager
end DAQ
end DtCore
