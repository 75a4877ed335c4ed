import DtCore.Log.RtLog.Delivery

/-!
# `Sync()` as a barrier

`Sync()` takes a number from `m_syncSeq` and waits until the drain thread has
acknowledged it in `m_syncAck`.  The drain thread loads `m_syncSeq` only after
its drain loop has ended, and the loop also ends at a ticket that is claimed but
not yet published.  So a push that returned before the `Sync()` call can still be
in the queue when the call is acknowledged: `sync_misses_push` is such a run.  It
takes one of two races, which `Timely` names as conditions on a step, and
without them `Sync()` is a barrier.

Main results:

- Theorem `claimedOk`: every push that returned has claimed a ticket.
- Theorem `syncOk`: what an acknowledge means in runs without the two races.
- Theorem `sync_barrier_of_timely`: in these runs `Sync()` is a barrier.
-/

namespace DtCore
namespace Log
namespace RtLog

open Foundation

section Barrier

variable {P C β : Type}

/-! ## Pushes and their claims -/

/-- The entry a producer has claimed a ticket for and not yet published. -/
def claimedEntry : LogQueue.PushPc (Entry β) → Option (Entry β)
  | .writeData e _ _ => some e
  | .storeSeq e _ _ => some e
  | _ => none

/-- The latest push of a thread. -/
def State.lastPush (s : State P C β) (p : P) (e : Entry β) : Pushed P β :=
  { producer := p, call := (s.queue.calls p).length - 1, entry := e }

/-- Every push past its exchange has its claim in the queue's history. -/
structure ClaimedOk (s : State P C β) : Prop where
  publishing : ∀ p e, claimedEntry (s.queue.producers p) = some e →
    s.lastPush p e ∈ s.queue.claims
  pushed : ∀ p e, s.calls p = .pushed e → s.lastPush p e ∈ s.queue.claims
  returned : ∀ x ∈ s.returned, x ∈ s.queue.claims

/-- A step that moves no logging thread. -/
theorem ClaimedOk.of_same {s s' : State P C β} (h : ClaimedOk s)
    (hclaims : s'.queue.claims = s.queue.claims) (hqcalls : s'.queue.calls = s.queue.calls)
    (hprod : s'.queue.producers = s.queue.producers) (hcalls : s'.calls = s.calls)
    (hret : s'.returned = s.returned) : ClaimedOk s' where
  publishing := by
    unfold State.lastPush
    rw [hclaims, hqcalls, hprod]
    exact h.publishing
  pushed := by
    unfold State.lastPush
    rw [hclaims, hqcalls, hcalls]
    exact h.pushed
  returned := by
    rw [hclaims, hret]
    exact h.returned

variable [DecidableEq P] {N : Nat}

/-- Moving a logging call to a position that has pushed nothing. -/
theorem ClaimedOk.setCall {s : State P C β} (h : ClaimedOk s) (p : P) (pc : CallPc β)
    (hpc : ∀ e, pc ≠ .pushed e) : ClaimedOk (s.setCall p pc) where
  publishing := h.publishing
  pushed := by
    intro q e hq
    by_cases hqp : q = p
    · rw [hqp, setCall_self] at hq
      exact absurd hq (hpc e)
    · rw [setCall_ne s pc hqp] at hq
      exact h.pushed q e hq
  returned := h.returned

/-- An access of `TryPush` moves one producer, which then has claimed nothing, what
it claimed before, or what it has just appended to the claims. -/
theorem producerStep_claimed {q q' : LogQueue.State P (Entry β)} {p : P}
    (h : q.producerStep N p = some q') :
    ∃ pc, q'.producers = (q.setProducer p pc).producers ∧
      ∀ e, claimedEntry pc = some e →
        claimedEntry (q.producers p) = some e ∨
          { producer := p, call := (q.calls p).length - 1, entry := e } ∈ q'.claims := by
  unfold LogQueue.State.producerStep at h
  split at h <;> rename_i hpc
  · contradiction
  · contradiction
  · cases h
    exact ⟨_, rfl, by simp [claimedEntry]⟩
  · dsimp only at h
    split at h
    · cases h
      exact ⟨_, rfl, by simp [claimedEntry]⟩
    · split at h <;> cases h <;> exact ⟨_, rfl, by simp [claimedEntry]⟩
  · split at h
    · cases h
      refine ⟨_, rfl, ?_⟩
      intro e he
      cases he
      exact Or.inr (List.mem_append_right _ (List.mem_singleton.mpr rfl))
    · cases h
      exact ⟨_, rfl, by simp [claimedEntry]⟩
  · cases h
    refine ⟨_, rfl, ?_⟩
    intro e he
    rw [hpc]
    exact Or.inl he
  · cases h
    exact ⟨_, rfl, by simp [claimedEntry]⟩

/-- An access of `TryPush` by `p`, whose call stays inside `TryPush` or has just
published. -/
theorem ClaimedOk.producerStep {s : State P C β} (h : ClaimedOk s) {p : P} {pc : CallPc β}
    {queue : LogQueue.State P (Entry β)} (hq : s.queue.producerStep N p = some queue)
    (hpc : ∀ e, pc = .pushed e → claimedEntry (s.queue.producers p) = some e) :
    ClaimedOk { s.setCall p pc with queue := queue } := by
  rcases producerStep_claimed hq with ⟨next, hnext, hclaimed⟩
  rcases producerStep_claims hq with ⟨-, hcalls, hclaims⟩
  refine { publishing := ?_, pushed := ?_, returned := ?_ }
  · intro r e hr
    change claimedEntry (queue.producers r) = some e at hr
    change { producer := r, call := (queue.calls r).length - 1, entry := e } ∈ queue.claims
    rw [hcalls]
    rw [hnext] at hr
    by_cases hrp : r = p
    · subst hrp
      rw [LogQueue.setProducer_self] at hr
      rcases hclaimed e hr with hold | hnew
      · exact hclaims.subset (h.publishing r e hold)
      · exact hnew
    · rw [LogQueue.setProducer_ne _ _ hrp] at hr
      exact hclaims.subset (h.publishing r e hr)
  · intro r e hr
    change { producer := r, call := (queue.calls r).length - 1, entry := e } ∈ queue.claims
    rw [hcalls]
    by_cases hrp : r = p
    · subst hrp
      rw [show (State.setCall s r pc).calls r = pc from setCall_self s r pc] at hr
      exact hclaims.subset (h.publishing r e (hpc e hr))
    · rw [show (State.setCall s p pc).calls r = s.calls r from setCall_ne s pc hrp] at hr
      exact hclaims.subset (h.pushed r e hr)
  · intro x hx
    exact hclaims.subset (h.returned x hx)

/-- Entering `TryPush` gives up nothing that was claimed. -/
theorem ClaimedOk.enqueue {s : State P C β} (h : ClaimedOk s) {p : P} {e : Entry β}
    {queue : LogQueue.State P (Entry β)} (hq : s.queue.callStep p e = some queue) :
    ClaimedOk { s.setCall p .pushing with queue := queue } := by
  have hshape : queue = { s.queue.setProducer p (.loadHead e) with
      calls := Function.update s.queue.calls p (s.queue.calls p ++ [e]) } := by
    unfold LogQueue.State.callStep at hq
    split at hq
    · exact (Option.some.inj hq).symm
    · exact (Option.some.inj hq).symm
    · contradiction
  subst hshape
  have hcalls : ∀ r, r ≠ p →
      Function.update s.queue.calls p (s.queue.calls p ++ [e]) r = s.queue.calls r :=
    fun r hr => Function.update_of_ne hr _ _
  refine { publishing := ?_, pushed := ?_, returned := h.returned }
  · intro r f hr
    change claimedEntry ((s.queue.setProducer p (.loadHead e)).producers r) = some f at hr
    by_cases hrp : r = p
    · rw [hrp, LogQueue.setProducer_self] at hr
      contradiction
    · rw [LogQueue.setProducer_ne _ _ hrp] at hr
      have := h.publishing r f hr
      unfold State.lastPush at this ⊢
      dsimp only
      rw [hcalls r hrp]
      exact this
  · intro r f hr
    change (s.setCall p .pushing).calls r = .pushed f at hr
    by_cases hrp : r = p
    · rw [hrp, setCall_self] at hr
      contradiction
    · rw [setCall_ne _ _ hrp] at hr
      have := h.pushed r f hr
      unfold State.lastPush at this ⊢
      dsimp only
      rw [hcalls r hrp]
      exact this

/-- Every access of a logging call keeps the claims of the pushes. -/
theorem ClaimedOk.loggerStep {s s' : State P C β} (h : ClaimedOk s) {p : P}
    (hstep : s.loggerStep N p = some s') : ClaimedOk s' := by
  unfold State.loggerStep at hstep
  split at hstep <;> rename_i hpc
  · contradiction
  · contradiction
  · cases hstep
    refine h.setCall p _ ?_
    intro e
    cases s.initialized <;> simp
  · split at hstep
    · cases hstep
      exact h.setCall p _ (by simp)
    · cases hstep
      exact (h.setCall p (.enqueue _) (by simp)).of_same rfl rfl rfl rfl rfl
  · rcases Option.map_eq_some_iff.mp hstep with ⟨queue, hq, rfl⟩
    exact h.enqueue hq
  · split at hstep <;> rename_i hprod
    · cases hstep
      refine h.setCall p _ ?_
      intro e
      split <;> simp
    · rcases Option.map_eq_some_iff.mp hstep with ⟨queue, hq, rfl⟩
      refine h.producerStep hq ?_
      intro f hf
      cases hf
      rw [hprod]
      rfl
    · rcases Option.map_eq_some_iff.mp hstep with ⟨queue, hq, rfl⟩
      have hsame : s.setCall p .pushing = s := by
        unfold State.setCall
        rw [← hpc, Function.update_eq_self]
      have hnext : ClaimedOk { s.setCall p .pushing with queue := queue } :=
        h.producerStep hq (by simp)
      rwa [hsame] at hnext
  · cases hstep
    rename_i e
    have hin := h.pushed p e hpc
    have hmoved := h.setCall p .returned (by simp)
    refine
      { publishing := hmoved.publishing
        pushed := hmoved.pushed
        returned := ?_ }
    intro x hx
    rcases List.mem_append.mp hx with hx | hx
    · exact h.returned x hx
    · rw [List.mem_singleton] at hx
      rw [hx]
      exact hin
  · cases hstep
    exact (h.setCall p .returned (by simp)).of_same rfl rfl rfl rfl rfl

end Barrier

section Runs

variable {P C β : Type} [DecidableEq P] [DecidableEq C] [LogByte β] {env : Spdlog} {N : Nat}

/-- In every run each push that returned has claimed a ticket. -/
theorem claimedOk {ok : State P C β → Label P C β → Prop} {pattern : String} {tb : TimeBase}
    {contLevel : LogLevel} {level : Int} {found : Found P β} {bound : Nat}
    (hfound : found.AtRest N bound) {s : State P C β}
    (h : Reach (step env N) ok (initial pattern tb contLevel level found) s) : ClaimedOk s := by
  have hstart : ClaimedOk (initial pattern tb contLevel level found : State P C β) :=
    { publishing := fun p _ hp => by
        change claimedEntry (found.queue.producers p) = _ at hp
        rcases hfound.producers p with hpc | ⟨ok, hpc⟩
        · rw [hpc] at hp
          contradiction
        · rw [hpc] at hp
          contradiction
      pushed := fun _ _ hp => by contradiction
      returned := fun _ hx => by contradiction }
  refine Reach.invariant hstart ?_ h
  intro s l s' hs _ hstep
  cases l with
  | log p e =>
      rw [(logStep_frame hstep).2.1]
      exact hs.setCall p _ (by simp)
  | logger p => exact hs.loggerStep hstep
  | poll =>
      have hf := pollStep_frame hstep
      exact hs.of_same hf.claims hf.queueCalls hf.producers hf.calls hf.returned
  | enterSync c =>
      have hf := (enterSync_frame hstep).1
      exact hs.of_same (by rw [hf.queue]) (by rw [hf.queue]) (by rw [hf.queue]) hf.calls
        hf.returned
  | sync c =>
      have hf := syncStep_frame hstep
      exact hs.of_same (by rw [hf.queue]) (by rw [hf.queue]) (by rw [hf.queue]) hf.calls
        hf.returned
  | terminate =>
      have hf := termStep_frame hstep
      exact hs.of_same hf.claims hf.queueCalls hf.producers hf.calls hf.returned
  | setLevel level =>
      cases hstep
      exact hs.of_same rfl rfl rfl rfl rfl

end Runs

/-! ## The two races -/

/-- The number the drain thread has loaded from `m_syncSeq`. -/
def PollPc.pending {β : Type} : PollPc β → Option Nat
  | .loadSyncAck pending => some pending
  | .storeSyncAck pending => some pending
  | _ => none

/-- The drain loop has ended and `m_syncSeq` is loaded next. -/
def PollPc.loadsSyncSeq {β : Type} : PollPc β → Bool
  | .loadSyncSeq => true
  | _ => false

/-- The drain thread is inside `TryPop`. -/
def PollPc.pops {β : Type} : PollPc β → Bool
  | .drainAll .popping => true
  | _ => false

/-- The pushes a `Sync()` call has to wait for. -/
def SyncPc.before {P β : Type} : SyncPc P β → List (Pushed P β)
  | .checkInitialized before => before
  | .fetchAdd before => before
  | .loadAck before _ => before
  | .testRun before _ => before
  | .synced before => before
  | _ => []

/-- The pushes a waiting `Sync()` call has to wait for, and its number. -/
def SyncPc.awaits {P β : Type} : SyncPc P β → Option (List (Pushed P β) × Nat)
  | .loadAck before target => some (before, target)
  | .testRun before target => some (before, target)
  | _ => none

/-- None of these pushes is in the queue any more. -/
def State.NoneQueued {P C β : Type} (s : State P C β) (before : List (Pushed P β)) : Prop :=
  ∀ x ∈ before, x ∉ s.queue.claims.drop s.flushed.length

/-- A waiting call that is not acknowledged yet has none of its pushes left in the
queue. -/
def State.NoneMissed {P C β : Type} (s : State P C β) (c : C) : Prop :=
  match (s.syncs c).awaits with
  | some (before, target) => s.syncAck < target → s.NoneQueued before
  | none => True

/-- Steps without the two races.  The drain loop ends only when no waiting call
has a push left in the queue (its push may sit behind a claimed ticket that is
not published); and no call takes its number between the end of the drain loop
and the load of `m_syncSeq` while one of its pushes is left in the queue. -/
def Timely {P C β : Type} (N bound : Nat) (s : State P C β) : Label P C β → Prop
  | .logger p => s.queue.claimAge p < bound
  | .poll => s.poller.pops = true → popFails N s.queue = true → ∀ c, s.NoneMissed c
  | .sync c =>
      match s.syncs c with
      | .fetchAdd before => s.poller.loadsSyncSeq = true → s.NoneQueued before
      | _ => True
  | _ => True

theorem Timely.fresh {P C β : Type} {N bound : Nat} {s : State P C β} {l : Label P C β}
    (h : Timely N bound s l) : FreshClaims bound s l := by
  cases l with
  | logger p => exact h
  | _ => trivial

/-! ## What an acknowledge means -/

section Ack

variable {P C β : Type}

/-- All of these pushes were passed to `FlushEntry`. -/
def State.AllFlushed (s : State P C β) (before : List (Pushed P β)) : Prop :=
  ∀ x ∈ before, x ∈ s.queue.claims.take s.flushed.length

/-- A waiting call whose number is acknowledged, or will be without another look
at the queue, has its pushes flushed. -/
structure AwaitOk (s : State P C β) (before : List (Pushed P β)) (target : Nat) : Prop where
  acked : target ≤ s.syncAck → s.AllFlushed before
  pending : ∀ n, s.poller.pending = some n → target ≤ n → s.AllFlushed before
  loading : s.poller.loadsSyncSeq = true → s.syncAck < target → s.AllFlushed before

/-- The state of all `Sync()` calls. -/
structure SyncOk (s : State P C β) : Prop where
  ack_le : s.syncAck ≤ s.syncSeq
  pending_le : ∀ n, s.poller.pending = some n → n ≤ s.syncSeq
  before_claimed : ∀ c, ∀ x ∈ (s.syncs c).before, x ∈ s.queue.claims
  awaits : ∀ c before target, (s.syncs c).awaits = some (before, target) →
    AwaitOk s before target
  synced : ∀ c before, s.syncs c = .synced before → s.AllFlushed before

/-- What was flushed stays flushed. -/
theorem State.AllFlushed.mono {s s' : State P C β} {before : List (Pushed P β)}
    (h : s.AllFlushed before) (hclaims : s.queue.claims <+: s'.queue.claims)
    (hflushed : s.flushed.length ≤ s'.flushed.length) : s'.AllFlushed before := by
  intro x hx
  have hsub : s.queue.claims.take s.flushed.length <+: s'.queue.claims.take s'.flushed.length := by
    refine List.prefix_of_prefix_length_le ((List.take_prefix _ _).trans hclaims)
      (List.take_prefix _ _) ?_
    have := hclaims.length_le
    rw [List.length_take, List.length_take]
    omega
  exact hsub.subset (h x hx)

/-- A claimed push that is not in the queue was flushed. -/
theorem State.NoneQueued.allFlushed {s : State P C β} {before : List (Pushed P β)}
    (h : s.NoneQueued before) (hclaimed : ∀ x ∈ before, x ∈ s.queue.claims) :
    s.AllFlushed before := by
  intro x hx
  have hmem := hclaimed x hx
  rw [← List.take_append_drop s.flushed.length s.queue.claims, List.mem_append] at hmem
  exact hmem.resolve_right (h x hx)

/-- A step that moves no `Sync()` call: it may move the drain thread to a position
`AwaitOk` says nothing about, or leave it where it is. -/
theorem SyncOk.of_drain {s s' : State P C β} (h : SyncOk s)
    (hclaims : s.queue.claims <+: s'.queue.claims)
    (hflushed : s.flushed.length ≤ s'.flushed.length) (hsyncs : s'.syncs = s.syncs)
    (hseq : s'.syncSeq = s.syncSeq) (hack : s'.syncAck = s.syncAck)
    (hpending : ∀ n, s'.poller.pending = some n → s.poller.pending = some n)
    (hloading : s'.poller.loadsSyncSeq = true → s.poller.loadsSyncSeq = true) : SyncOk s' where
  ack_le := by
    rw [hseq, hack]
    exact h.ack_le
  pending_le := by
    intro n hn
    rw [hseq]
    exact h.pending_le n (hpending n hn)
  before_claimed := by
    intro c x hx
    rw [hsyncs] at hx
    exact hclaims.subset (h.before_claimed c x hx)
  awaits := by
    intro c before target hc
    rw [hsyncs] at hc
    have hold := h.awaits c before target hc
    refine { acked := ?_, pending := ?_, loading := ?_ }
    · intro ht
      rw [hack] at ht
      exact (hold.acked ht).mono hclaims hflushed
    · intro n hn ht
      exact (hold.pending n (hpending n hn) ht).mono hclaims hflushed
    · intro hl ht
      rw [hack] at ht
      exact (hold.loading (hloading hl) ht).mono hclaims hflushed
  synced := by
    intro c before hc
    rw [hsyncs] at hc
    exact (h.synced c before hc).mono hclaims hflushed

/-- A step of the drain thread past the queue: the acknowledge may move, and what
it lets through was flushed. -/
theorem SyncOk.of_ack {s s' : State P C β} (h : SyncOk s) (hqueue : s'.queue = s.queue)
    (hflushed : s'.flushed = s.flushed) (hsyncs : s'.syncs = s.syncs)
    (hack : s'.syncAck ≤ s'.syncSeq)
    (hpending : ∀ n, s'.poller.pending = some n → n ≤ s'.syncSeq)
    (hawaits : ∀ before target, (∀ x ∈ before, x ∈ s.queue.claims) → AwaitOk s before target →
      (∃ c, (s.syncs c).awaits = some (before, target)) →
      (target ≤ s'.syncAck → s.AllFlushed before) ∧
        (∀ n, s'.poller.pending = some n → target ≤ n → s.AllFlushed before) ∧
        (s'.poller.loadsSyncSeq = true → s'.syncAck < target → s.AllFlushed before)) :
    SyncOk s' := by
  have hsame : ∀ before, s.AllFlushed before → s'.AllFlushed before := by
    intro before hb x hx
    rw [hqueue, hflushed]
    exact hb x hx
  refine
    { ack_le := hack
      pending_le := hpending
      before_claimed := ?_
      awaits := ?_
      synced := ?_ }
  · rw [hsyncs, hqueue]
    exact h.before_claimed
  · intro c before target hc
    rw [hsyncs] at hc
    have hbefore : ∀ x ∈ before, x ∈ s.queue.claims := by
      intro x hx
      refine h.before_claimed c x ?_
      revert hc
      cases s.syncs c with
      | loadAck b t =>
          intro hc
          cases hc
          exact hx
      | testRun b t =>
          intro hc
          cases hc
          exact hx
      | _ => exact fun hc => by contradiction
    rcases hawaits before target hbefore (h.awaits c before target hc) ⟨c, hc⟩ with
      ⟨hacked, hpend, hload⟩
    exact
      { acked := fun ht => hsame before (hacked ht)
        pending := fun n hn ht => hsame before (hpend n hn ht)
        loading := fun hl ht => hsame before (hload hl ht) }
  · intro c before hc
    rw [hsyncs] at hc
    exact hsame before (h.synced c before hc)

/-- Moving a `Sync()` caller. -/
theorem SyncOk.setSync [DecidableEq C] {s : State P C β} (h : SyncOk s) (c : C)
    (pc : SyncPc P β) (hbefore : ∀ x ∈ pc.before, x ∈ s.queue.claims)
    (hawaits : ∀ before target, pc.awaits = some (before, target) → AwaitOk s before target)
    (hsynced : ∀ before, pc = .synced before → s.AllFlushed before) : SyncOk (s.setSync c pc) where
  ack_le := h.ack_le
  pending_le := h.pending_le
  before_claimed := by
    intro d x hx
    by_cases hdc : d = c
    · rw [hdc, setSync_self] at hx
      exact hbefore x hx
    · rw [setSync_ne s pc hdc] at hx
      exact h.before_claimed d x hx
  awaits := by
    intro d before target hd
    have hok : AwaitOk s before target := by
      by_cases hdc : d = c
      · rw [hdc, setSync_self] at hd
        exact hawaits before target hd
      · rw [setSync_ne s pc hdc] at hd
        exact h.awaits d before target hd
    exact
      { acked := hok.acked
        pending := hok.pending
        loading := hok.loading }
  synced := by
    intro d before hd
    by_cases hdc : d = c
    · rw [hdc, setSync_self] at hd
      exact hsynced before hd
    · rw [setSync_ne s pc hdc] at hd
      exact h.synced d before hd

/-- A `Sync()` caller stops waiting only for flushed pushes, provided it does not
take its number too late. -/
theorem SyncOk.syncStep [DecidableEq C] {N bound : Nat} {s s' : State P C β} (h : SyncOk s) {c : C}
    (hok : Timely N bound s (.sync c)) (hstep : s.syncStep c = some s') : SyncOk s' := by
  have hbefore := h.before_claimed c
  unfold State.syncStep at hstep
  split at hstep <;> rename_i hpc <;> rw [hpc] at hbefore
  · contradiction
  · contradiction
  · cases hstep
    refine h.setSync c _ ?_ ?_ ?_
    · cases s.initialized with
      | true => exact hbefore
      | false => simp [SyncPc.before]
    · cases s.initialized <;> simp [SyncPc.awaits]
    · cases s.initialized <;> simp
  · rename_i before
    cases hstep
    have hlate : s.poller.loadsSyncSeq = true → s.NoneQueued before := by
      simp only [Timely, hpc] at hok
      exact hok
    have hnew : AwaitOk s before (s.syncSeq + 1) := by
      have hack := h.ack_le
      refine { acked := ?_, pending := ?_, loading := ?_ }
      · intro ht
        omega
      · intro n hn ht
        have := h.pending_le n hn
        omega
      · intro hl _
        exact (hlate hl).allFlushed hbefore
    have hset := h.setSync c (.loadAck before (s.syncSeq + 1)) hbefore
      (fun b t hbt => by cases hbt; exact hnew) (by simp)
    exact
      { ack_le := h.ack_le.trans (Nat.le_succ _)
        pending_le := fun n hn => (h.pending_le n hn).trans (Nat.le_succ _)
        before_claimed := hset.before_claimed
        awaits := fun d b t hd =>
          have hold := hset.awaits d b t hd
          { acked := hold.acked, pending := hold.pending, loading := hold.loading }
        synced := hset.synced }
  · rename_i before target
    cases hstep
    have hold := h.awaits c before target (by rw [hpc]; rfl)
    refine h.setSync c _ ?_ ?_ ?_
    · split <;> exact hbefore
    · split
      · intro b t hbt
        cases hbt
        exact hold
      · simp [SyncPc.awaits]
    · split
      · simp
      · rename_i hack
        intro b hb
        cases hb
        exact hold.acked (by omega)
  · rename_i before target
    cases hstep
    have hold := h.awaits c before target (by rw [hpc]; rfl)
    refine h.setSync c _ ?_ ?_ ?_
    · cases s.run with
      | true => exact hbefore
      | false => simp [SyncPc.before]
    · cases s.run with
      | true =>
          intro b t hbt
          cases hbt
          exact hold
      | false => simp [SyncPc.awaits]
    · cases s.run <;> simp
  · cases hstep
    exact h.setSync c .returned (by simp [SyncPc.before]) (by simp [SyncPc.awaits]) (by simp)

variable [LogByte β] {env : Spdlog} {N bound : Nat}

/-- The drain thread keeps every acknowledge honest, provided its loop ends with
no awaited push left in the queue. -/
theorem SyncOk.pollStep {s s' : State P C β} (h : SyncOk s)
    (hok : Timely N bound s .poll) (hstep : s.pollStep env N = some s') : SyncOk s' := by
  unfold State.pollStep at hstep
  split at hstep <;> rename_i hpc
  · cases hstep
    refine h.of_drain (List.prefix_refl _) le_rfl rfl rfl rfl ?_ ?_
    · cases s.run <;> simp [PollPc.pending]
    · cases s.run <;> simp [PollPc.loadsSyncSeq]
  · rename_i pc
    rcases drainStep_frame env N s pc with ⟨hf, -, -, hack, -, -⟩
    have hclaims : s.queue.claims <+: (s.drainStep env N pc).1.queue.claims := by
      rw [hf.claims]
    dsimp only at hstep
    split at hstep
    · cases hstep
      exact h.of_drain hclaims (drainStep_flushed env N s pc) hf.syncs hf.syncSeq hack
        (by simp [PollPc.pending])
        (by simp [PollPc.loadsSyncSeq])
    · -- the drain loop ends: the condition on the step says nothing was missed
      rename_i hend
      cases hstep
      cases pc with
      | flushing e => cases hend
      | popping =>
          have hfails : popFails N s.queue = true := popFails_of_drained hend
          have hnone := hok (by rw [hpc]; rfl) hfails
          have hstay : SyncOk { s with poller := .loadSyncSeq } := by
            refine h.of_ack rfl rfl rfl h.ack_le (by simp [PollPc.pending]) ?_
            intro before target hbefore hold ⟨c, hc⟩
            refine ⟨hold.acked, by simp [PollPc.pending], ?_⟩
            intro _ ht
            have hmissed := hnone c
            unfold State.NoneMissed at hmissed
            rw [hc] at hmissed
            exact (hmissed ht).allFlushed hbefore
          exact hstay.of_drain hclaims (drainStep_flushed env N s .popping) rfl rfl rfl
            (by simp [PollPc.pending])
            (fun hl => hl)
  · cases hstep
    refine h.of_ack rfl rfl rfl h.ack_le ?_ ?_
    · intro n hn
      cases hn
      exact le_rfl
    · intro before target _ hold _
      refine ⟨hold.acked, ?_, by simp [PollPc.loadsSyncSeq]⟩
      intro n hn ht
      cases hn
      by_cases hle : target ≤ s.syncAck
      · exact hold.acked hle
      · exact hold.loading (by rw [hpc]; rfl) (by omega)
  · rename_i pending
    cases hstep
    refine h.of_drain (List.prefix_refl _) le_rfl rfl rfl rfl ?_ ?_
    · rw [hpc]
      split <;> simp [PollPc.pending]
    · split <;> simp [PollPc.loadsSyncSeq]
  · rename_i pending
    cases hstep
    have hle := h.pending_le pending (by rw [hpc]; rfl)
    refine h.of_ack rfl rfl rfl hle (by simp [PollPc.pending]) ?_
    intro before target _ hold _
    exact ⟨fun ht => hold.pending pending (by rw [hpc]; rfl) ht, by simp [PollPc.pending],
      by simp [PollPc.loadsSyncSeq]⟩
  · cases hstep
    exact h.of_drain (List.prefix_refl _) le_rfl rfl rfl rfl (by simp [PollPc.pending])
      (by simp [PollPc.loadsSyncSeq])
  · contradiction

variable [DecidableEq P] [DecidableEq C]

/-- In every timely run an acknowledge means what it should. -/
theorem syncOk {pattern : String} {tb : TimeBase} {contLevel : LogLevel} {level : Int}
    {found : Found P β} (hfound : found.AtRest N bound) {s : State P C β}
    (h : Reach (step env N) (Timely N bound) (initial pattern tb contLevel level found) s) :
    SyncOk s := by
  have hknown : ∀ s, Reach (step env N) (Timely N bound)
      (initial pattern tb contLevel level found : State P C β) s → ClaimedOk s :=
    fun _ hs => claimedOk hfound hs
  have hstart : SyncOk (initial pattern tb contLevel level found : State P C β) :=
    { ack_le := hfound.sync
      pending_le := fun _ hn => by contradiction
      before_claimed := fun _ _ hx => by contradiction
      awaits := fun _ _ _ hc => by contradiction
      synced := fun _ _ hc => by contradiction }
  refine Reach.invariant_with hknown hstart ?_ h
  intro s l s' hclaimed _ hs hl hstep
  cases l with
  | log p e =>
      rcases logStep_frame hstep with ⟨hf, heq, -⟩
      refine hs.of_drain (by rw [heq]; exact List.prefix_refl _) (by rw [hf.flushed]) hf.syncs
        hf.syncSeq hf.syncAck ?_ ?_
      · rw [hf.poller]
        exact fun _ hn => hn
      · rw [hf.poller]
        exact fun hn => hn
  | logger p =>
      have hf := loggerStep_frame hstep
      refine hs.of_drain (loggerStep_claims hstep).2 (by rw [hf.flushed]) hf.syncs hf.syncSeq
        hf.syncAck ?_ ?_
      · rw [hf.poller]
        exact fun _ hn => hn
      · rw [hf.poller]
        exact fun hn => hn
  | poll => exact hs.pollStep hl hstep
  | enterSync c =>
      rw [(enterSync_frame hstep).2]
      exact hs.setSync c _ hclaimed.returned (by simp [SyncPc.awaits]) (by simp)
  | sync c => exact hs.syncStep hl hstep
  | terminate =>
      have hf := termStep_frame hstep
      have hpoller := (termStep_poller hstep).1
      refine hs.of_drain (by rw [hf.claims]) (termStep_poller hstep).2.2 hf.syncs hf.syncSeq
        (termStep_poller hstep).2.1 ?_ ?_
      · rw [hpoller]
        exact fun _ hn => hn
      · rw [hpoller]
        exact fun hn => hn
  | setLevel level =>
      cases hstep
      exact hs.of_drain (List.prefix_refl _) le_rfl rfl rfl rfl (fun _ hn => hn) (fun hn => hn)

/-! ## The barrier -/

/-- Whenever a `Sync()` call stops waiting because it was acknowledged, every push
that had returned before the call began has been passed to `FlushEntry`, as the
entry of its own ticket. -/
def SyncIsBarrier (s : State P C β) : Prop :=
  ∀ c before, s.syncs c = .synced before →
    ∀ x ∈ before, ∃ t : Nat, s.queue.claims[t]? = some x ∧ s.flushed[t]? = some x.entry

/-- In runs without the two races `Sync()` is a barrier, in every session. -/
theorem sync_barrier_of_timely (hN : LogQueue.ValidCapacity N) {pattern : String}
    {tb : TimeBase} {contLevel : LogLevel} {level : Int} {found : Found P β}
    (hfound : found.AtRest N (2 ^ 32)) {s : State P C β}
    (h : Reach (step env N) (Timely N (2 ^ 32)) (initial pattern tb contLevel level found) s) :
    SyncIsBarrier s := by
  intro c before hc x hx
  have hmem := (syncOk hfound h).synced c before hc x hx
  rcases List.mem_iff_getElem?.mp hmem with ⟨t, ht⟩
  have hflushed := (flushed_eq hN le_rfl (fun _ _ => Timely.fresh) hfound h).1
  refine ⟨t, ?_, ?_⟩
  · rw [List.getElem?_take] at ht
    split at ht
    · exact ht
    · contradiction
  · rw [hflushed, List.getElem?_map, ht]
    rfl

end Ack

section Decide

variable {P C β : Type} [DecidableEq P] [DecidableEq β]

instance decidableNoneQueued (s : State P C β) (before : List (Pushed P β)) :
    Decidable (s.NoneQueued before) :=
  inferInstanceAs (Decidable (∀ x ∈ before, x ∉ s.queue.claims.drop s.flushed.length))

instance decidableNoneMissed (s : State P C β) (c : C) : Decidable (s.NoneMissed c) :=
  match h : (s.syncs c).awaits with
  | some (before, target) =>
      decidable_of_iff (s.syncAck < target → s.NoneQueued before) (by
        unfold State.NoneMissed
        rw [h])
  | none => isTrue (by
      unfold State.NoneMissed
      rw [h]
      trivial)

instance decidableTimely [Fintype C] (N bound : Nat) (s : State P C β) :
    (l : Label P C β) → Decidable (Timely N bound s l)
  | .logger p => inferInstanceAs (Decidable (s.queue.claimAge p < bound))
  | .poll =>
      inferInstanceAs (Decidable (s.poller.pops = true → popFails N s.queue = true →
        ∀ c, s.NoneMissed c))
  | .sync c =>
      match h : s.syncs c with
      | .fetchAdd before =>
          decidable_of_iff (s.poller.loadsSyncSeq = true → s.NoneQueued before) (by
            simp only [Timely, h])
      | .idle => isTrue (by simp only [Timely, h])
      | .checkInitialized _ => isTrue (by simp only [Timely, h])
      | .loadAck _ _ => isTrue (by simp only [Timely, h])
      | .testRun _ _ => isTrue (by simp only [Timely, h])
      | .synced _ => isTrue (by simp only [Timely, h])
      | .returned => isTrue (by simp only [Timely, h])
  | .log _ _ => isTrue trivial
  | .enterSync _ => isTrue trivial
  | .terminate => isTrue trivial
  | .setLevel _ => isTrue trivial

end Decide

/-! ## Two schedules -/

/-- The pushes of an acknowledged call. -/
def State.acknowledged {P C β : Type} (s : State P C β) (c : C) : Option (List (Pushed P β)) :=
  match s.syncs c with
  | .synced before => some before
  | _ => none

theorem acknowledged_iff {P C β : Type} {s : State P C β} {c : C} {before : List (Pushed P β)} :
    s.acknowledged c = some before ↔ s.syncs c = .synced before := by
  unfold State.acknowledged
  cases s.syncs c <;> simp

/-- The push returns while the drain thread tests the run flag; the call takes its
number before the drain loop begins. -/
def timelySchedule : List (Label Unit Unit UInt8) :=
  pushSchedule helloEntry ++ [.enterSync (), .sync (), .sync ()] ++
    List.replicate 12 .poll ++ [.sync ()]

theorem sync_barrier_of_timely_push :
    ∃ s : State Unit Unit UInt8, s.flushed = [helloEntry] ∧ SyncIsBarrier s := by
  have hrun : (run (step quietSpdlog 2) (Timely 2 (2 ^ 32)) freshLog timelySchedule).map
      (fun s => (s.flushed, (s.acknowledged ()).map List.length)) =
        some ([helloEntry], some 1) := by
    decide +kernel
  rcases exists_reach_of_run hrun with ⟨s, hs, hobs⟩
  exact ⟨s, congrArg Prod.fst hobs, sync_barrier_of_timely ⟨1, le_rfl, by decide, rfl⟩
    (Found.fresh_atRest 2 (2 ^ 32)) hs⟩

/-- The drain loop ends on the empty queue; the push and the request land before
the drain thread loads `m_syncSeq`. -/
def lateSchedule : List (Label Unit Unit UInt8) :=
  List.replicate 3 .poll ++ pushSchedule helloEntry ++ [.enterSync (), .sync (), .sync ()] ++
    List.replicate 3 .poll ++ [.sync ()]

/-- `Sync()` misses a push that returned before it was called. -/
theorem sync_misses_push :
    ¬ ∀ s, Reach (step quietSpdlog 2) (FreshClaims (2 ^ 31)) freshLog s → SyncIsBarrier s := by
  intro hbarrier
  have hrun : (run (step quietSpdlog 2) (FreshClaims (2 ^ 31)) freshLog lateSchedule).map
      (fun s => (s.flushed, (s.acknowledged ()).map (List.map LogQueue.Claim.entry))) =
        some ([], some [helloEntry]) := by
    decide +kernel
  rcases exists_reach_of_run hrun with ⟨s, hs, hobs⟩
  have hflushed : s.flushed = [] := congrArg Prod.fst hobs
  rcases Option.map_eq_some_iff.mp (congrArg Prod.snd hobs) with ⟨before, hack, hentries⟩
  cases before with
  | nil => contradiction
  | cons x xs =>
      rcases hbarrier s hs () (x :: xs) (acknowledged_iff.mp hack) x (by simp) with ⟨t, -, ht⟩
      rw [hflushed] at ht
      contradiction

end RtLog
end Log
end DtCore
