import DtCore.Log.FileSink.Outcomes
import DtCore.Log.FileSink.Errno

/-!
# When `sink_it_` returns

`sink_it_` flushes at most twice and writes a long message directly.  `FlushBuffer` always
returns, and a rotation in between may set `errno`, so that only the results of the direct
write and the `errno` that it starts with matter.

Main definitions:

- `SinkItReturns`: `sink_it_` ends on an infinite sequence of results.
- `Stuck`: the direct write does not end.

Main results:

- Theorem `sinkIt_of_takes`: only the direct write decides.
- Theorem `sinkIt_returns_iff`: `sink_it_` returns unless it is stuck.
-/

namespace DtCore
namespace Log
namespace FileSink

open Foundation

/-- `sink_it_` returns on an infinite sequence of results. -/
def SinkItReturns (s : State) (msg : Bytes) (results : Nat → WriteResult) : Prop :=
  ∃ k, (State.sinkItBy State.flushNotified { s with writes := firstResults results k }
    msg).isSome = true

/-- `errno` before the direct write, when `FlushBuffer` has taken some results. -/
def State.errnoBeforeDirect (s : State) (msg : Bytes) (flushed : List WriteResult) : Errno :=
  if s.Rotates msg ∧ ¬ RotationClean s then .other else errnoAfter s.errno flushed

/-- The direct write of a message does not end. -/
def Stuck (s : State) (msg : Bytes) (results : Nat → WriteResult) : Prop :=
  s.fdOpen = true ∧ msg.length > internalBufSize ∧
    (s.Rotates msg → s.opens.headD true = true) ∧
    ∃ j, FlushTakes s.buffer.length (firstResults results j) ∧
      Spins (s.errnoBeforeDirect msg (firstResults results j)) (fun i => results (j + i)) msg.length

/-! ## After a flush and after a rotation -/

/-- The parts of a sink that a flush leaves alone. -/
structure AfterFlush (s t : State) : Prop where
  fdOpen : t.fdOpen = s.fdOpen
  buffer : t.buffer = []
  opens : t.opens = s.opens
  clean : RotationClean t ↔ RotationClean s

theorem flushNotified_of_takes {s : State} {fs rest : List WriteResult}
    (hopen : s.fdOpen = true) (hwrites : s.writes = fs ++ rest)
    (h : FlushTakes s.buffer.length fs) :
    ∃ t, s.flushNotified = some t ∧ AfterFlush s t ∧ t.writes = rest ∧
      t.errno = errnoAfter s.errno fs := by
  rw [State.flushNotified]
  by_cases hbuffer : s.buffer = []
  · rw [hbuffer] at h
    have hfs : fs = [] := flushTakes_zero.1 h
    rw [if_pos (Or.inr hbuffer)]
    subst hfs
    exact ⟨s, rfl, ⟨rfl, hbuffer, rfl, Iff.rfl⟩, hwrites, rfl⟩
  · rw [if_neg (by simp [hopen, hbuffer]), hwrites]
    rcases flushLoop_of_takes h rest s.errno with ⟨e, he, hrest, herrno⟩
    apply Exists.intro { s.wrote e with buffer := [] }
    rw [he]
    exact ⟨rfl, ⟨rfl, rfl, rfl, rotationClean_wrote e hbuffer⟩, hrest, herrno⟩

theorem flushNotified_of_part {s : State} {r : WriteResult} {more : List WriteResult}
    (hopen : s.fdOpen = true) (h : FlushTakes s.buffer.length (s.writes ++ r :: more)) :
    s.flushNotified = none := by
  have hbuffer : s.buffer ≠ [] := by
    intro hnil
    rw [hnil] at h
    exact absurd (flushTakes_zero.1 h) (by simp)
  rw [State.flushNotified, if_neg (by simp [hopen, hbuffer]), flushLoop_of_part h,
    Option.map_none]

/-- The sink after a rotation. -/
structure AfterRotation (s t u : State) : Prop where
  fdOpen : u.fdOpen = s.opens.headD true
  buffer : u.buffer = []
  writes : u.writes = t.writes
  errno : s.opens.headD true = true → u.errno = if RotationClean s then t.errno else .other

theorem renameAll_same (s : State) : SameSink s s.renameAll :=
  (renameBackups_same _ s).trans (rename_same _ 0 1)

theorem AfterFlush.rotate {s t : State} (h : AfterFlush s t) :
    AfterRotation s t (t.close.renameAll.openFile true) := by
  have hsame := renameAll_same t.close
  have hopens : t.close.renameAll.opens = s.opens := hsame.opens.trans h.opens
  have hbuffer : t.close.renameAll.buffer = [] := hsame.buffer.trans h.buffer
  have hclean : RotationClean t.close ↔ RotationClean s := h.clean
  have herrno := renameAll_errno (s := t.close) h.buffer
  simp only [hclean] at herrno
  rw [State.openFile, hopens]
  split
  · rename_i hok
    exact ⟨hok.symm, hbuffer, hsame.writes, fun _ => herrno⟩
  · rename_i hfails
    exact ⟨by simpa using hfails, hbuffer, hsame.writes, fun hok => absurd hok hfails⟩

/-! ## `sink_it_` -/

theorem flushNotified_empty {s : State} (h : s.buffer = []) : s.flushNotified = some s := by
  rw [State.flushNotified, if_pos (Or.inr h)]

theorem writeDirect_isSome (s : State) (msg : Bytes) :
    (s.writeDirect msg).isSome = true ↔
      (s.fdOpen = true → (directLoop s.writes msg s.errno).isSome = true) := by
  rw [State.writeDirect]
  cases s.fdOpen <;> simp

/-- With the results that `FlushBuffer` takes, only the direct write decides. -/
theorem sinkIt_of_takes {s : State} {msg : Bytes} {fs rest : List WriteResult}
    (hopen : s.fdOpen = true) (hwrites : s.writes = fs ++ rest)
    (h : FlushTakes s.buffer.length fs) :
    (s.sinkItBy State.flushNotified msg).isSome = true ↔
      (msg.length > internalBufSize → (s.Rotates msg → s.opens.headD true = true) →
        (directLoop rest msg (s.errnoBeforeDirect msg fs)).isSome = true) := by
  rcases flushNotified_of_takes hopen hwrites h with ⟨t, ht, hflush, hrest, herrno⟩
  rw [State.sinkItBy, if_neg (by simp [hopen]), State.rotateForBy, State.errnoBeforeDirect]
  by_cases hrot : s.Rotates msg
  · have hafter := hflush.rotate
    rw [if_pos hrot, State.rotateFilesBy, ht, Option.map_some, Option.bind_some, State.storeBy]
    generalize t.close.renameAll.openFile true = u at hafter
    by_cases hlong : msg.length > internalBufSize
    · rw [if_pos hlong, flushNotified_empty hafter.buffer, Option.bind_some, writeDirect_isSome,
        hafter.fdOpen, hafter.writes, hrest]
      simp only [hlong, hrot, true_imp_iff, true_and]
      apply imp_congr_right
      intro hok
      rw [hafter.errno hok, herrno]
      simp only [ite_not]
    · rw [if_neg hlong, hafter.buffer, List.length_nil, Nat.zero_add, if_neg hlong]
      simp [hlong]
  · rw [if_neg hrot, Option.bind_some, State.storeBy]
    by_cases hlong : msg.length > internalBufSize
    · rw [if_pos hlong, ht, Option.bind_some, writeDirect_isSome, hflush.fdOpen, hopen, hrest,
        herrno]
      simp [hlong, hrot]
    · rw [if_neg hlong]
      split
      · simp [ht, hlong]
      · simp [hlong]

/-- A long message needs all of the results that `FlushBuffer` takes. -/
theorem sinkIt_of_part {s : State} {msg : Bytes} {r : WriteResult} {more : List WriteResult}
    (hopen : s.fdOpen = true) (hlong : msg.length > internalBufSize)
    (h : FlushTakes s.buffer.length (s.writes ++ r :: more)) :
    s.sinkItBy State.flushNotified msg = none := by
  have hnone := flushNotified_of_part hopen h
  rw [State.sinkItBy, if_neg (by simp [hopen]), State.rotateForBy]
  split
  · rw [State.rotateFilesBy, hnone]
    rfl
  · rw [Option.bind_some, State.storeBy, if_pos hlong, hnone]
    rfl

theorem finite_shift {results : Nat → WriteResult} (j : Nat)
    (hfin : {i | results i = .fail .eintr}.Finite) :
    {i | results (j + i) = .fail .eintr}.Finite :=
  hfin.preimage (Set.injOn_of_injective (add_right_injective j))

/-- A sink that is open has its results in the first of a sequence. -/
theorem sinkIt_of_firstResults {s : State} {msg : Bytes} {results : Nat → WriteResult} {j : Nat}
    (hopen : s.fdOpen = true) (h : FlushTakes s.buffer.length (firstResults results j)) (k : Nat) :
    (State.sinkItBy State.flushNotified { s with writes := firstResults results (j + k) }
        msg).isSome = true ↔
      (msg.length > internalBufSize → (s.Rotates msg → s.opens.headD true = true) →
        (directLoop (firstResults (fun i => results (j + i)) k) msg
          (s.errnoBeforeDirect msg (firstResults results j))).isSome = true) :=
  sinkIt_of_takes (s := { s with writes := firstResults results (j + k) }) hopen
    (firstResults_add j k) h

/-- A long message returns when its direct write does. -/
theorem returns_iff_of_long {s : State} {msg : Bytes} {results : Nat → WriteResult}
    (hfin : {i | results i = .fail .eintr}.Finite) {j : Nat} (hopen : s.fdOpen = true)
    (hlong : msg.length > internalBufSize)
    (h : FlushTakes s.buffer.length (firstResults results j)) :
    SinkItReturns s msg results ↔
      ((s.Rotates msg → s.opens.headD true = true) →
        ¬ Spins (s.errnoBeforeDirect msg (firstResults results j)) (fun i => results (j + i))
          msg.length) := by
  rw [← directLoop_spins_iff (finite_shift j hfin), not_forall]
  constructor
  · rintro ⟨k, hk⟩ hreopens
    rcases Nat.lt_or_ge k j with hkj | hjk
    · -- the results end inside `FlushBuffer`
      have hsplit : firstResults results j = firstResults results k ++
          results (k + 0) :: firstResults (fun i => results (k + (i + 1))) (j - k - 1) := by
        rw [← @firstResults_cons _ (fun i => results (k + i)), ← firstResults_add]
        congr 1
        omega
      rw [hsplit] at h
      rw [sinkIt_of_part (s := { s with writes := firstResults results k }) hopen hlong h] at hk
      contradiction
    · rw [← Nat.add_sub_cancel' hjk, sinkIt_of_firstResults hopen h] at hk
      have hsome := hk hlong hreopens
      apply Exists.intro (k - j)
      intro hnone
      rw [hnone] at hsome
      contradiction
  · intro hends
    by_cases hreopens : s.Rotates msg → s.opens.headD true = true
    · rcases hends hreopens with ⟨k, hk⟩
      apply Exists.intro (j + k)
      rw [sinkIt_of_firstResults hopen h]
      intro _ _
      exact Option.isSome_iff_ne_none.2 hk
    · apply Exists.intro (j + 0)
      rw [sinkIt_of_firstResults hopen h]
      intro _ hok
      exact absurd hok hreopens

/-- When signals interrupt finitely many calls, `sink_it_` returns unless the direct write
of a long message comes to meet zeros forever while `errno` is `EINTR`. -/
theorem sinkIt_returns_iff (s : State) (msg : Bytes) {results : Nat → WriteResult}
    (hfin : {i | results i = .fail .eintr}.Finite) :
    SinkItReturns s msg results ↔ ¬ Stuck s msg results := by
  rcases eventually_ne hfin with ⟨N, hN⟩
  rcases exists_flushTakes hN s.buffer.length with ⟨j, hj⟩
  by_cases hopen : s.fdOpen = true
  · by_cases hlong : msg.length > internalBufSize
    · rw [Stuck]
      constructor
      · rintro hreturns ⟨_, _, hreopens, j', hj', hspins⟩
        exact (returns_iff_of_long hfin hopen hlong hj').1 hreturns hreopens hspins
      · intro hnot
        rw [returns_iff_of_long hfin hopen hlong hj]
        intro hreopens hspins
        exact hnot ⟨hopen, hlong, hreopens, j, hj, hspins⟩
    · have hreturns : SinkItReturns s msg results := by
        apply Exists.intro (j + 0)
        rw [sinkIt_of_firstResults hopen hj]
        exact fun hlong' => absurd hlong' hlong
      exact iff_of_true hreturns (fun hstuck => hlong hstuck.2.1)
  · have hclosed : s.fdOpen = false := by simpa using hopen
    have hreturns : SinkItReturns s msg results :=
      ⟨0, by rw [State.sinkItBy, if_pos (show _ = false from hclosed)]; rfl⟩
    exact iff_of_true hreturns (fun hstuck => hopen hstuck.1)

/-- A sink without a buffered message; an earlier call was interrupted. -/
def interrupted : State where
  fdOpen := true
  buffer := []
  currentSize := 0
  maxSize := 0
  maxFiles := 1
  files := fun i => if i = 0 then some [] else none
  errno := .eintr
  stderr := []
  writes := []
  opens := []
  renames := []
  unlinks := []

/-- A message that is longer than the buffer. -/
def longMessage : Bytes :=
  List.replicate (internalBufSize + 1) 0

theorem longMessage_length : longMessage.length = internalBufSize + 1 :=
  List.length_replicate

/-- The empty buffer takes no result, and no rotation is due. -/
theorem interrupted_stuck_iff {results : Nat → WriteResult} :
    Stuck interrupted longMessage results ↔ Spins .eintr results longMessage.length := by
  have hnorotation : ¬ interrupted.Rotates longMessage := fun hrot =>
    absurd hrot.1 (Nat.lt_irrefl 0)
  have hbefore : interrupted.errnoBeforeDirect longMessage [] = .eintr := by
    rw [State.errnoBeforeDirect, if_neg (fun hrot => hnorotation hrot.1)]
    rfl
  constructor
  · rintro ⟨-, -, -, j, htakes, hspins⟩
    have hnil := flushTakes_zero.1 htakes
    have hj : j = 0 := by simpa using congrArg List.length hnil
    subst hj
    rw [hnil, hbefore] at hspins
    simpa using hspins
  · intro hspins
    refine ⟨rfl, ?_, fun hrot => absurd hrot hnorotation, 0, flushTakes_zero.2 rfl, ?_⟩
    · rw [longMessage_length]
      exact Nat.lt_succ_self _
    · simpa [firstResults, hbefore] using hspins

/-- The disk is full after ten bytes: zeros while `errno` is still that of the interrupted
call keep the direct write, a hard error ends it. -/
theorem sinkIt_returns_iff_tenBytes :
    ¬ SinkItReturns interrupted longMessage (fun i => if i = 0 then .count 10 else .count 0) ∧
      SinkItReturns interrupted longMessage
        (fun i => if i = 0 then .count 10 else if i = 1 then .fail .other else .count 0) := by
  constructor
  · have hnever : ∀ i, (if i = 0 then WriteResult.count 10 else .count 0) ≠ .fail .eintr := by
      intro i
      split <;> simp
    rw [sinkIt_returns_iff interrupted longMessage (by simp [hnever]), not_not,
      interrupted_stuck_iff, longMessage_length]
    refine ⟨1, fun i _ => ?_, ?_, rfl, ?_, fun i hi => if_neg (by omega)⟩
    · dsimp only
      split <;> simp
    · simp [firstResults, ZerosRetried]
    · decide
  · have hnever : ∀ i, (if i = 0 then WriteResult.count 10
        else if i = 1 then .fail .other else .count 0) ≠ .fail .eintr := by
      intro i
      split
      · simp
      · split <;> simp
    rw [sinkIt_returns_iff interrupted longMessage (by simp [hnever]), interrupted_stuck_iff]
    rintro ⟨n, hsoft, -, -, -, hzeros⟩
    rcases Nat.lt_or_ge 1 n with hn | hn
    · exact hsoft 1 hn rfl
    · have hone := hzeros 1 hn
      simp at hone

/-- A long message to a full disk, after an interrupted call. -/
theorem sinkIt_loops :
    {i | (fun _ : Nat => WriteResult.count 0) i = .fail .eintr}.Finite ∧
      ¬ SinkItReturns interrupted (List.replicate (internalBufSize + 1) 0)
        (fun _ => .count 0) := by
  have hfin : {i | (fun _ : Nat => WriteResult.count 0) i = .fail .eintr}.Finite := by simp
  have hlong : (List.replicate (internalBufSize + 1) (0 : UInt8)).length > internalBufSize := by
    rw [List.length_replicate]
    exact Nat.lt_succ_self _
  have htakes : FlushTakes interrupted.buffer.length
      (firstResults (fun _ => WriteResult.count 0) 0) := flushTakes_zero.2 rfl
  apply And.intro hfin
  rw [returns_iff_of_long hfin rfl hlong htakes]
  intro h
  apply h
  · intro hrot
    exact absurd hrot.1 (Nat.lt_irrefl 0)
  · have hpos : 0 < (List.replicate (internalBufSize + 1) (0 : UInt8)).length := by
      rw [List.length_replicate]
      exact Nat.succ_pos _
    exact ⟨0, by simp, trivial, rfl, hpos, fun _ _ => rfl⟩

end FileSink
end Log
end DtCore
