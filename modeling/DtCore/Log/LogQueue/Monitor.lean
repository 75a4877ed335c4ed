import DtCore.Log.LogQueue.Invariant

/-!
# Queue statistics

`ApproxSize` loads `m_head` and then `m_tail` and subtracts.  The producers and the
consumer go on between the two loads, so the tail may have passed the head that was loaded
before it, and the wrapped difference is then close to `2 ^ 32`.

Main definitions:

- `MonitorPc`: a thread that calls `QueueSize`, `QueueUtilization` and `GetQueueStats`.
- `monitoredStep`: the queue and the monitoring thread.

Main results:

- Theorem `stats_in_range_iff`: when what a call reports is in range.
- Theorem `size_out_of_range`: a message is pushed and popped between the two loads.
-/

namespace DtCore
namespace Log
namespace LogQueue

open Foundation

variable {P Entry : Type}

/-! ## The calls of the monitoring thread -/

inductive Query where
  | queueSize
  | queueUtilization
  | getQueueStats
deriving DecidableEq, Repr

structure QueueStats where
  currentSize : Nat
  capacity : Nat
  utilizationPct : Nat
  totalDrops : BitVec 64
deriving DecidableEq

inductive Report where
  | size (n : Nat)
  | utilization (pct : Nat)
  | stats (stats : QueueStats)
deriving DecidableEq

/-- `static_cast<size_t>(h - t)`. -/
def approxSize (head tail : BitVec 32) : Nat :=
  (head - tail).toNat

/-- `(size * 100) / Capacity()`, in `size_t`. -/
def utilization (N size : Nat) : Nat :=
  size * 100 % 2 ^ 64 / N

/-- The access that the monitoring thread makes next.  `claimed` is the number of tickets
claimed when `head` was loaded. -/
inductive MonitorPc where
  | idle
  | loadHead (query : Query)
  | loadTail (query : Query) (head : BitVec 32) (claimed : Nat)
  | loadDropCount (size : Nat)
  | returned (report : Report)
deriving DecidableEq

/-- The queue, `m_dropCount` and the monitoring thread. -/
structure Monitored (P Entry : Type) where
  queue : State P Entry
  dropCount : BitVec 64
  monitor : MonitorPc

def Monitored.start [Inhabited Entry] : Monitored P Entry where
  queue := initial
  dropCount := 0
  monitor := .idle

/-- The next access of the monitoring thread. -/
def Monitored.monitorStep (N : Nat) (s : Monitored P Entry) : Option (Monitored P Entry) :=
  match s.monitor with
  | .idle => none
  | .returned _ => none
  | .loadHead query =>
      some { s with monitor := .loadTail query s.queue.head s.queue.claims.length }
  | .loadTail query head _ =>
      let size := approxSize head s.queue.tail
      match query with
      | .queueSize => some { s with monitor := .returned (.size size) }
      | .queueUtilization =>
          some { s with monitor := .returned (.utilization (utilization N size)) }
      | .getQueueStats => some { s with monitor := .loadDropCount size }
  | .loadDropCount size =>
      some
        { s with
          monitor := .returned (.stats
            { currentSize := size
              capacity := N
              utilizationPct := utilization N size
              totalDrops := s.dropCount }) }

/-- Which thread moves: one of the queue, one that counts a dropped entry, or the monitoring
thread, which calls a function or makes its next access. -/
inductive MonitoredLabel (P Entry : Type) where
  | queue (l : Label P Entry)
  | drop
  | call (query : Query)
  | monitor

def monitoredStep [DecidableEq P] (N : Nat) (s : Monitored P Entry) :
    MonitoredLabel P Entry → Option (Monitored P Entry)
  | .queue l => (step N s.queue l).map fun queue => { s with queue := queue }
  | .drop => some { s with dropCount := s.dropCount + 1 }
  | .call query =>
      match s.monitor with
      | .idle | .returned _ => some { s with monitor := .loadHead query }
      | _ => none
  | .monitor => s.monitorStep N

/-- Fewer than `bound` claims between a producer's load of `m_head` and its exchange. -/
def MonitoredFresh (bound : Nat) (s : Monitored P Entry) : MonitoredLabel P Entry → Prop
  | .queue l => FreshClaims bound s.queue l
  | _ => True

instance (bound : Nat) (s : Monitored P Entry) :
    (l : MonitoredLabel P Entry) → Decidable (MonitoredFresh bound s l)
  | .queue l => inferInstanceAs (Decidable (FreshClaims bound s.queue l))
  | .drop => inferInstanceAs (Decidable True)
  | .call _ => inferInstanceAs (Decidable True)
  | .monitor => inferInstanceAs (Decidable True)

/-! ## Ranges -/

/-- Sizes up to the capacity, utilizations up to 100. -/
def Report.InRange (N : Nat) : Report → Prop
  | .size n => n ≤ N
  | .utilization pct => pct ≤ 100
  | .stats s => s.currentSize ≤ N ∧ s.utilizationPct ≤ 100

/-- What the thread has computed or reported is in range. -/
def MonitorPc.InRange (N : Nat) : MonitorPc → Prop
  | .loadDropCount size => size ≤ N ∧ utilization N size ≤ 100
  | .returned report => report.InRange N
  | _ => True

/-- The largest size with which the report is in range. -/
def Query.limit (N : Nat) : Query → Nat
  | .queueSize => N
  | .queueUtilization => (101 * N - 1) / 100
  | .getQueueStats => N

/-- The tail that is loaded has not passed the head loaded before, or it has passed it by a
number of tickets whose wrapped negative lies in the range by accident. -/
def InTime (N : Nat) (query : Query) (claimed tail : Nat) : Prop :=
  tail ≤ claimed ∨ (tail - claimed) % 2 ^ 32 = 0 ∨
    2 ^ 32 ≤ (tail - claimed) % 2 ^ 32 + query.limit N

instance decidableInTime (N : Nat) (query : Query) (claimed tail : Nat) :
    Decidable (InTime N query claimed tail) :=
  inferInstanceAs (Decidable (_ ∨ _ ∨ _))

theorem utilization_le_iff {N size : Nat} (hN : 0 < N) (hsize : size < 2 ^ 32) :
    utilization N size ≤ 100 ↔ size ≤ (101 * N - 1) / 100 := by
  have hword : size * 100 % 2 ^ 64 = size * 100 := Nat.mod_eq_of_lt (by omega)
  unfold utilization
  rw [hword, ← Nat.lt_succ_iff, Nat.div_lt_iff_lt_mul hN]
  omega

/-- The difference of the words of two tickets. -/
theorem approxSize_ofNat (t u : Nat) :
    approxSize (BitVec.ofNat 32 t) (BitVec.ofNat 32 u) =
      if u ≤ t then (t - u) % 2 ^ 32 else (2 ^ 32 - (u - t) % 2 ^ 32) % 2 ^ 32 := by
  unfold approxSize
  rw [BitVec.toNat_sub, BitVec.toNat_ofNat, BitVec.toNat_ofNat]
  split
  · omega
  · omega

/-! ## One step -/

/-- The head that the monitoring thread has loaded is not far ahead of the pops. -/
structure MonitorOk (N : Nat) (s : Monitored P Entry) : Prop where
  queue : Invariant N s.queue
  loaded : ∀ query head claimed, s.monitor = .loadTail query head claimed →
    head = BitVec.ofNat 32 claimed ∧ claimed ≤ s.queue.popped.length + N

theorem popped_le_tailTicket (s : State P Entry) : s.popped.length ≤ s.tailTicket := by
  unfold State.tailTicket
  split
  · exact Nat.le_succ _
  · exact le_rfl

/-- A wrapped size is at most `limit` exactly if the tail is in time. -/
theorem approxSize_le_iff {limit N claimed tail : Nat} (hlimit : limit < 2 ^ 32) (hN : N ≤ limit)
    (hclaimed : claimed ≤ tail + N) :
    approxSize (BitVec.ofNat 32 claimed) (BitVec.ofNat 32 tail) ≤ limit ↔
      tail ≤ claimed ∨ (tail - claimed) % 2 ^ 32 = 0 ∨
        2 ^ 32 ≤ (tail - claimed) % 2 ^ 32 + limit := by
  rw [approxSize_ofNat]
  split
  · omega
  · omega

theorem MonitorOk.inTime_iff {N : Nat} (hN : ValidCapacity N) {s : Monitored P Entry}
    (hs : MonitorOk N s) {query : Query} {head : BitVec 32} {claimed : Nat}
    (hpc : s.monitor = .loadTail query head claimed) :
    approxSize head s.queue.tail ≤ query.limit N ↔ InTime N query claimed s.queue.tailTicket := by
  rcases hs.loaded query head claimed hpc with ⟨hhead, hclaimed⟩
  have hpopped := popped_le_tailTicket s.queue
  have hle := hN.le
  have htwo := hN.two_le
  have hlimit : N ≤ query.limit N ∧ query.limit N < 2 ^ 32 := by
    unfold Query.limit
    cases query
    · dsimp only
      omega
    · dsimp only
      omega
    · dsimp only
      omega
  rw [hhead, hs.queue.tail_eq]
  exact approxSize_le_iff hlimit.2 hlimit.1 (by omega)

/-- What is computed from the two loads is in range exactly if the second one is in time. -/
theorem MonitorOk.report_iff {N : Nat} (hN : ValidCapacity N) {s s' : Monitored P Entry}
    (hs : MonitorOk N s) {query : Query} {head : BitVec 32} {claimed : Nat}
    (hpc : s.monitor = .loadTail query head claimed) (hstep : s.monitorStep N = some s') :
    s'.monitor.InRange N ↔ InTime N query claimed s.queue.tailTicket := by
  have hpos : 0 < N := Nat.lt_of_lt_of_le Nat.zero_lt_two hN.two_le
  have hsize : approxSize head s.queue.tail < 2 ^ 32 := BitVec.isLt _
  rw [← hs.inTime_iff hN hpc]
  unfold Monitored.monitorStep at hstep
  rw [hpc] at hstep
  cases query with
  | queueSize =>
      cases hstep
      exact Iff.rfl
  | queueUtilization =>
      cases hstep
      exact utilization_le_iff hpos hsize
  | getQueueStats =>
      cases hstep
      show _ ∧ utilization N _ ≤ 100 ↔ _
      rw [utilization_le_iff hpos hsize]
      unfold Query.limit
      dsimp only
      omega

section Runs

variable [DecidableEq P]

theorem step_popped_le {N : Nat} {s s' : State P Entry} {l : Label P Entry}
    (hstep : step N s l = some s') : s.popped.length ≤ s'.popped.length := by
  cases l with
  | call p entry =>
      have hcall : s.callStep p entry = some s' := hstep
      unfold State.callStep at hcall
      split at hcall
      · cases hcall
        exact le_rfl
      · cases hcall
        exact le_rfl
      · contradiction
  | producer p =>
      have hpush : s.producerStep N p = some s' := hstep
      unfold State.producerStep at hpush
      split at hpush
      · contradiction
      · contradiction
      · cases hpush
        exact le_rfl
      · dsimp only at hpush
        split at hpush
        · cases hpush
          exact le_rfl
        · split at hpush
          · cases hpush
            exact le_rfl
          · cases hpush
            exact le_rfl
      · split at hpush
        · cases hpush
          exact le_rfl
        · cases hpush
          exact le_rfl
      · cases hpush
        exact le_rfl
      · cases hpush
        exact le_rfl
  | consumer =>
      have hpop : s.consumerStep N = s' := Option.some.inj hstep
      rw [← hpop]
      unfold State.consumerStep
      split
      · exact le_rfl
      · exact le_rfl
      · split
        · exact le_rfl
        · exact le_rfl
      · exact le_rfl
      · exact le_rfl
      · simp

theorem MonitorOk.step {N : Nat} (hN : ValidCapacity N) {s s' : Monitored P Entry}
    {l : MonitoredLabel P Entry} (hs : MonitorOk N s) (hfresh : MonitoredFresh (2 ^ 32) s l)
    (hstep : monitoredStep N s l = some s') : MonitorOk N s' := by
  cases l with
  | queue l =>
      rcases Option.map_eq_some_iff.mp hstep with ⟨queue, hqueue, rfl⟩
      refine ⟨hs.queue.step hN hfresh hqueue, ?_⟩
      intro query head claimed hpc
      rcases hs.loaded query head claimed hpc with ⟨hhead, hclaimed⟩
      have hpopped := step_popped_le hqueue
      exact ⟨hhead, hclaimed.trans (Nat.add_le_add_right hpopped N)⟩
  | drop =>
      cases hstep
      exact ⟨hs.queue, hs.loaded⟩
  | call query =>
      unfold monitoredStep at hstep
      dsimp only at hstep
      split at hstep
      · cases hstep
        exact ⟨hs.queue, fun _ _ _ hpc => by cases hpc⟩
      · cases hstep
        exact ⟨hs.queue, fun _ _ _ hpc => by cases hpc⟩
      · contradiction
  | monitor =>
      have hmonitor : s.monitorStep N = some s' := hstep
      unfold Monitored.monitorStep at hmonitor
      split at hmonitor
      · contradiction
      · contradiction
      · cases hmonitor
        refine ⟨hs.queue, fun query head claimed hpc => ?_⟩
        cases hpc
        exact ⟨hs.queue.head_eq, hs.queue.room⟩
      · rename_i query head claimed hpc
        cases query with
        | queueSize =>
            cases hmonitor
            exact ⟨hs.queue, fun _ _ _ hpc => by cases hpc⟩
        | queueUtilization =>
            cases hmonitor
            exact ⟨hs.queue, fun _ _ _ hpc => by cases hpc⟩
        | getQueueStats =>
            cases hmonitor
            exact ⟨hs.queue, fun _ _ _ hpc => by cases hpc⟩
      · cases hmonitor
        exact ⟨hs.queue, fun _ _ _ hpc => by cases hpc⟩

/-- The guard of the runs in which every tail is loaded in time. -/
def TailInTime (N : Nat) (s : Monitored P Entry) (l : MonitoredLabel P Entry) : Prop :=
  MonitoredFresh (2 ^ 32) s l ∧
    match l, s.monitor with
    | .monitor, .loadTail query _ claimed => InTime N query claimed s.queue.tailTicket
    | _, _ => True

/-- A step that is in time keeps what the thread reports in range. -/
theorem MonitorOk.inRange_step {N : Nat} (hN : ValidCapacity N) {s s' : Monitored P Entry}
    {l : MonitoredLabel P Entry} (hs : MonitorOk N s) (hrange : s.monitor.InRange N)
    (htime : TailInTime N s l) (hstep : monitoredStep N s l = some s') :
    s'.monitor.InRange N := by
  cases l with
  | queue l =>
      rcases Option.map_eq_some_iff.mp hstep with ⟨queue, _, rfl⟩
      exact hrange
  | drop =>
      cases hstep
      exact hrange
  | call query =>
      unfold monitoredStep at hstep
      dsimp only at hstep
      split at hstep
      · cases hstep
        trivial
      · cases hstep
        trivial
      · contradiction
  | monitor =>
      have hmonitor : s.monitorStep N = some s' := hstep
      cases hpc : s.monitor with
      | idle => simp [Monitored.monitorStep, hpc] at hmonitor
      | returned report => simp [Monitored.monitorStep, hpc] at hmonitor
      | loadHead query =>
          simp only [Monitored.monitorStep, hpc, Option.some.injEq] at hmonitor
          rw [← hmonitor]
          trivial
      | loadTail query head claimed =>
          have htail := htime.2
          rw [hpc] at htail
          exact (hs.report_iff hN hpc hmonitor).mpr htail
      | loadDropCount size =>
          rw [hpc] at hrange
          simp only [Monitored.monitorStep, hpc, Option.some.injEq] at hmonitor
          rw [← hmonitor]
          exact hrange

theorem monitorOk_reach [Inhabited Entry] {N : Nat} (hN : ValidCapacity N)
    {s : Monitored P Entry}
    (h : Reach (monitoredStep N) (MonitoredFresh (2 ^ 32)) Monitored.start s) :
    MonitorOk N s := by
  apply Reach.invariant _ _ h
  · exact ⟨Invariant.initial N, fun _ _ _ hpc => by cases hpc⟩
  · intro s l s' hs hfresh hstep
    exact hs.step hN hfresh hstep

/-- In every run of the producers, the consumer and the monitoring thread: what the thread
reports after a load of the tail is in range exactly if that load is in time, and if all of
them are, everything that it ever reports is in range. -/
theorem stats_in_range_iff [Inhabited Entry] {N : Nat} (hN : ValidCapacity N) :
    (∀ s s' : Monitored P Entry, ∀ query head claimed,
      Reach (monitoredStep N) (MonitoredFresh (2 ^ 32)) Monitored.start s →
      s.monitor = .loadTail query head claimed → monitoredStep N s .monitor = some s' →
      (s'.monitor.InRange N ↔ InTime N query claimed s.queue.tailTicket)) ∧
    ∀ s : Monitored P Entry, Reach (monitoredStep N) (TailInTime N) Monitored.start s →
      s.monitor.InRange N := by
  apply And.intro
  · intro s s' query head claimed hreach hpc hstep
    exact (monitorOk_reach hN hreach).report_iff hN hpc hstep
  · intro s hreach
    have hboth : MonitorOk N s ∧ s.monitor.InRange N := by
      apply Reach.invariant _ _ hreach
      · exact ⟨⟨Invariant.initial N, fun _ _ _ hpc => by cases hpc⟩, trivial⟩
      · intro s l s' hs htime hstep
        exact ⟨hs.1.step hN htime.1 hstep, hs.1.inRange_step hN hs.2 htime hstep⟩
    exact hboth.2

end Runs

/-- The monitoring thread loads the head of the empty queue; then a message is pushed and
popped; then the thread loads the tail. -/
def overtakenSchedule : List (MonitoredLabel Unit Nat) :=
  [.call .queueSize, .monitor, .queue (.call () 7), .queue (.producer ()), .queue (.producer ()),
    .queue (.producer ()), .queue (.producer ()), .queue (.producer ()), .queue .consumer,
    .queue .consumer, .queue .consumer, .queue .consumer, .queue .consumer, .monitor]

/-- A message is pushed; the monitoring thread loads the head; the message is popped. -/
def poppedSchedule : List (MonitoredLabel Unit Nat) :=
  .queue (.call () 7) :: List.replicate 5 (.queue (.producer ())) ++
    .call .queueSize :: .monitor :: List.replicate 5 (.queue .consumer)

/-- What the next access of the monitoring thread needs and leads to. -/
def Monitored.observe (s : Monitored Unit Nat) :
    MonitorPc × Nat × Option MonitorPc :=
  (s.monitor, s.queue.tailTicket, (monitoredStep 1024 s .monitor).map Monitored.monitor)

/-- The size is in range when the tail has caught up with the loaded head, and not when it
has passed it. -/
theorem stats_in_range_iff_overtaken :
    ∃ s s' t t' : Monitored Unit Nat,
      monitoredStep 1024 s .monitor = some s' ∧ s'.monitor.InRange 1024 ∧
        monitoredStep 1024 t .monitor = some t' ∧ ¬ t'.monitor.InRange 1024 := by
  have hN : ValidCapacity 1024 := ⟨10, by decide, by decide, rfl⟩
  have hpopped : (run (monitoredStep 1024) (MonitoredFresh (2 ^ 32)) Monitored.start
      poppedSchedule).map Monitored.observe =
        some (.loadTail .queueSize 1 1, 1, some (.returned (.size 0))) := by decide
  have hovertaken : (run (monitoredStep 1024) (MonitoredFresh (2 ^ 32)) Monitored.start
      overtakenSchedule.dropLast).map Monitored.observe =
        some (.loadTail .queueSize 0 0, 1, some (.returned (.size (2 ^ 32 - 1)))) := by decide
  rcases exists_reach_of_run hpopped with ⟨s, hs, hobserved⟩
  simp only [Monitored.observe, Prod.mk.injEq, Option.map_eq_some_iff] at hobserved
  rcases hobserved with ⟨hpc, htail, s', hstep, -⟩
  rcases exists_reach_of_run hovertaken with ⟨t, ht, hobserved⟩
  simp only [Monitored.observe, Prod.mk.injEq, Option.map_eq_some_iff] at hobserved
  rcases hobserved with ⟨htpc, httail, t', htstep, -⟩
  refine ⟨s, s', t, t', hstep, ?_, htstep, ?_⟩
  · apply ((stats_in_range_iff hN).1 s s' _ _ _ hs hpc hstep).mpr
    rw [htail]
    decide
  · intro hrange
    have hintime := ((stats_in_range_iff hN).1 t t' _ _ _ ht htpc htstep).mp hrange
    rw [httail] at hintime
    exact absurd hintime (by decide)

/-- The reported size is `2 ^ 32 - 1`. -/
theorem size_out_of_range :
    ¬ ∀ s : Monitored Unit Nat,
      Reach (monitoredStep 1024) (MonitoredFresh (2 ^ 32)) Monitored.start s →
        s.monitor.InRange 1024 := by
  intro hall
  have hrun : (run (monitoredStep 1024) (MonitoredFresh (2 ^ 32)) Monitored.start
      overtakenSchedule).map Monitored.monitor = some (.returned (.size (2 ^ 32 - 1))) := by
    decide
  rcases exists_reach_of_run hrun with ⟨s, hreach, hmonitor⟩
  have hrange := hall s hreach
  rw [hmonitor] at hrange
  exact absurd hrange (by simp [MonitorPc.InRange, Report.InRange])

end LogQueue
end Log
end DtCore
