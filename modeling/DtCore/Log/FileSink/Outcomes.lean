import DtCore.Log.FileSink.Files
import DtCore.Foundation.Results

/-!
# The write loops on any results

The two write loops of the sink give up on different results.  `FlushBuffer` looks at
`errno` only after a failure and stops at a zero.  The direct write takes a zero for a
failure, so that an `EINTR` that an earlier call has left in `errno` makes it try again.

Every `write` of a call takes its next result from one infinite sequence, also the ones
that write a message of `FlushBuffer` to the standard error output.

Main definitions:

- `State.sinkItBy`: `sink_it_` with any version of `FlushBuffer`.
- `State.flushNotified`: `FlushBuffer` with the results of its messages.
- `FlushTakes`: the results that `FlushBuffer` takes.
- `Spins`: the direct write meets zeros forever while `errno` is `EINTR`.

Main results:

- Theorem `sinkItBy_flushBuffer`: the sink of the model.
- Theorem `exists_flushTakes`: `FlushBuffer` returns.
- Theorem `directLoop_eq_none_iff`, `directLoop_spins_iff`: on which results the direct
  write goes on.
-/

namespace DtCore
namespace Log
namespace FileSink

open Foundation

/-! ## The sink with the messages of `FlushBuffer` -/

/-- `errno` after a `write`: only a failure sets it. -/
def WriteResult.setErrno (errno : Errno) : WriteResult → Errno
  | .count _ => errno
  | .fail errno' => errno'

/-- The result of the `write` of a message to the standard error output. -/
def WriteEnd.notify (e : WriteEnd) : Option WriteEnd :=
  match e.stderr, e.writes with
  | [], _ => some e
  | _ :: _, [] => none
  | _ :: _, r :: rs => some { e with errno := r.setErrno e.errno, writes := rs }

/-- `FlushBuffer`; its message takes a result too. -/
def State.flushNotified (s : State) : Option State :=
  if s.fdOpen = false ∨ s.buffer = [] then some s
  else
    ((flushLoop s.writes s.buffer s.errno).bind WriteEnd.notify).map
      (fun e => { s.wrote e with buffer := [] })

section SinkItBy

variable (flush : State → Option State)

/-- `RotateFiles`. -/
def State.rotateFilesBy (s : State) : Option State :=
  (flush s).map (fun s => s.close.renameAll.openFile true)

/-- `sink_it_` asks for a rotation. -/
def State.Rotates (s : State) (msg : Bytes) : Prop :=
  s.maxSize > 0 ∧ s.currentSize + s.buffer.length + msg.length > s.maxSize

instance decidableRotates (s : State) (msg : Bytes) : Decidable (s.Rotates msg) :=
  inferInstanceAs (Decidable (_ ∧ _))

/-- The rotation check of `sink_it_`. -/
def State.rotateForBy (s : State) (msg : Bytes) : Option State :=
  if s.Rotates msg then s.rotateFilesBy flush else some s

/-- `sink_it_` after the rotation check. -/
def State.storeBy (s : State) (msg : Bytes) : Option State :=
  if msg.length > internalBufSize then (flush s).bind (fun s => s.writeDirect msg)
  else if s.buffer.length + msg.length > internalBufSize then
    (flush s).map (fun s => s.appendBuffer msg)
  else some (s.appendBuffer msg)

/-- `sink_it_`. -/
def State.sinkItBy (s : State) (msg : Bytes) : Option State :=
  if s.fdOpen = false then some s
  else (s.rotateForBy flush msg).bind (fun s => s.storeBy flush msg)

end SinkItBy

/-- With the plain `FlushBuffer` this is the sink of the model. -/
theorem sinkItBy_flushBuffer (s : State) (msg : Bytes) :
    s.sinkItBy State.flushBuffer msg = s.sinkIt msg :=
  rfl

/-! ## What happens, in terms of the results -/

/-- How many bytes a `write` of enough bytes writes. -/
def WriteResult.size : WriteResult → Nat
  | .count n => n
  | .fail _ => 0

/-- `errno` after some results. -/
def errnoAfter (errno : Errno) (rs : List WriteResult) : Errno :=
  rs.foldl WriteResult.setErrno errno

/-- The results that `FlushBuffer` takes for a buffer of some size; the last one after a
zero or a failure is that of its message. -/
def FlushTakes : Nat → List WriteResult → Prop
  | 0, rs => rs = []
  | _ + 1, [] => False
  | _ + 1, .count 0 :: rs => rs.length = 1
  | n + 1, .count (k + 1) :: rs => FlushTakes (n - k) rs
  | n + 1, .fail .eintr :: rs => FlushTakes (n + 1) rs
  | _ + 1, .fail .other :: rs => rs.length = 1

/-- Every zero comes while `errno` is `EINTR`. -/
def ZerosRetried : Errno → List WriteResult → Prop
  | _, [] => True
  | errno, r :: rs => (r = .count 0 → errno = .eintr) ∧ ZerosRetried (r.setErrno errno) rs

/-- The direct write of `size` bytes does not end: before the bytes are out, without a hard
failure and without a zero while `errno` is not `EINTR`, `write` comes to return zero, now
and forever, while `errno` is `EINTR`. -/
def Spins (errno : Errno) (results : Nat → WriteResult) (size : Nat) : Prop :=
  ∃ N, (∀ i < N, results i ≠ .fail .other) ∧ ZerosRetried errno (firstResults results N) ∧
    errnoAfter errno (firstResults results N) = .eintr ∧
    firstSum WriteResult.size results N < size ∧ ∀ i ≥ N, results i = .count 0

/-! ## `FlushBuffer` -/

theorem notify_after (data : Bytes) (e : WriteEnd) :
    (e.after data).notify = e.notify.map (WriteEnd.after data) := by
  rcases e with ⟨written, errno, stderr, writes⟩
  cases stderr with
  | nil => rfl
  | cons text texts => cases writes <;> rfl

theorem notify_count (rs : List WriteResult) (b : UInt8) (data : Bytes) (errno : Errno)
    (n : Nat) :
    (flushLoop (.count (n + 1) :: rs) (b :: data) errno).bind WriteEnd.notify =
      ((flushLoop rs ((b :: data).drop (n + 1)) errno).bind WriteEnd.notify).map
        (WriteEnd.after ((b :: data).take (n + 1))) := by
  rw [flushLoop_count, Option.bind_map, Option.map_bind]
  congr 1
  funext e
  exact notify_after _ e

theorem flushTakes_zero {rs : List WriteResult} : FlushTakes 0 rs ↔ rs = [] := by
  rw [FlushTakes]

theorem not_flushTakes_nil {n : Nat} : ¬ FlushTakes (n + 1) [] := by
  simp [FlushTakes]

theorem flushTakes_count {b : UInt8} {data : Bytes} {k : Nat} {rs : List WriteResult} :
    FlushTakes (b :: data).length (.count (k + 1) :: rs) ↔
      FlushTakes ((b :: data).drop (k + 1)).length rs := by
  rw [List.drop_succ_cons, List.length_drop, List.length_cons, FlushTakes]

/-- `FlushBuffer` ends on the results that it takes. -/
theorem flushLoop_of_takes {fs : List WriteResult} {data : Bytes}
    (h : FlushTakes data.length fs) (rest : List WriteResult) (errno : Errno) :
    ∃ e, (flushLoop (fs ++ rest) data errno).bind WriteEnd.notify = some e ∧ e.writes = rest ∧
      e.errno = errnoAfter errno fs := by
  induction fs generalizing data errno with
  | nil =>
      cases data with
      | nil => exact ⟨_, by rw [flushLoop_nil]; rfl, rfl, rfl⟩
      | cons b data => exact absurd h not_flushTakes_nil
  | cons r fs ih =>
      cases data with
      | nil => exact absurd (flushTakes_zero.1 h) (List.cons_ne_nil _ _)
      | cons b data =>
          match r with
          | .count 0 =>
              rcases List.length_eq_one_iff.1 h with ⟨r', rfl⟩
              exact ⟨_, rfl, rfl, rfl⟩
          | .count (k + 1) =>
              rcases ih (flushTakes_count.1 h) errno with ⟨e, he, hwrites, herrno⟩
              apply Exists.intro (e.after ((b :: data).take (k + 1)))
              rw [List.cons_append, notify_count, he]
              exact ⟨rfl, hwrites, herrno⟩
          | .fail .eintr =>
              have hrest : FlushTakes (b :: data).length fs := h
              rcases ih hrest .eintr with ⟨e, he, hwrites, herrno⟩
              exact ⟨e, by rw [List.cons_append, flushLoop_interrupted, he], hwrites, herrno⟩
          | .fail .other =>
              rcases List.length_eq_one_iff.1 h with ⟨r', rfl⟩
              exact ⟨_, rfl, rfl, rfl⟩

/-- `FlushBuffer` needs all of the results that it takes. -/
theorem flushLoop_of_part {rs : List WriteResult} {data : Bytes} {r : WriteResult}
    {more : List WriteResult} (h : FlushTakes data.length (rs ++ r :: more)) (errno : Errno) :
    (flushLoop rs data errno).bind WriteEnd.notify = none := by
  induction rs generalizing data errno with
  | nil =>
      cases data with
      | nil => exact absurd (flushTakes_zero.1 h) (List.cons_ne_nil _ _)
      | cons b data => rfl
  | cons r' rs ih =>
      cases data with
      | nil => exact absurd (flushTakes_zero.1 h) (List.cons_ne_nil _ _)
      | cons b data =>
          match r' with
          | .count 0 =>
              have hlen : (rs ++ r :: more).length = 1 := h
              have hrs : rs = [] := by
                rw [List.length_append, List.length_cons] at hlen
                exact List.length_eq_zero_iff.1 (by omega)
              rw [hrs]
              rfl
          | .count (k + 1) =>
              rw [notify_count, ih (flushTakes_count.1 h), Option.map_none]
          | .fail .eintr =>
              rw [flushLoop_interrupted]
              have hrest : FlushTakes (b :: data).length (rs ++ r :: more) := h
              exact ih hrest .eintr
          | .fail .other =>
              have hlen : (rs ++ r :: more).length = 1 := h
              have hrs : rs = [] := by
                rw [List.length_append, List.length_cons] at hlen
                exact List.length_eq_zero_iff.1 (by omega)
              rw [hrs]
              rfl

/-- When signals interrupt finitely many calls, `FlushBuffer` comes to an end. -/
theorem exists_flushTakes {results : Nat → WriteResult} {N : Nat}
    (hN : ∀ i ≥ N, results i ≠ .fail .eintr) (n : Nat) :
    ∃ j, FlushTakes n (firstResults results j) := by
  -- every result writes a byte, uses up an interruption, or ends the loop
  generalize hm : n + N = m
  induction m using Nat.strong_induction_on generalizing n N results with
  | h m ih =>
      cases n with
      | zero => exact ⟨0, rfl⟩
      | succ n =>
          have hshift : ∀ M, (∀ i ≥ M + 1, results i ≠ .fail .eintr) →
              ∀ i ≥ M, results (i + 1) ≠ .fail .eintr := by
            intro M hM i hi
            exact hM (i + 1) (by omega)
          cases hr : results 0 with
          | count k =>
              cases k with
              | zero => exact ⟨2, by rw [firstResults_cons, hr]; rfl⟩
              | succ k =>
                  have hN' : ∀ i ≥ N + 1, results i ≠ .fail .eintr :=
                    fun i hi => hN i (by omega)
                  rcases ih (n - k + N) (by omega) (hshift N hN') (n - k) rfl with ⟨j, hj⟩
                  exact ⟨j + 1, by rw [firstResults_cons, hr]; exact hj⟩
          | fail errno =>
              cases errno with
              | eintr =>
                  cases N with
                  | zero => exact absurd hr (hN 0 (Nat.le_refl 0))
                  | succ N =>
                      rcases ih (n + 1 + N) (by omega) (hshift N hN) (n + 1) rfl with ⟨j, hj⟩
                      exact ⟨j + 1, by rw [firstResults_cons, hr]; exact hj⟩
              | other => exact ⟨2, by rw [firstResults_cons, hr]; rfl⟩

/-! ## The direct write -/

section DirectLoop

variable (rs : List WriteResult) (b : UInt8) (data : Bytes) (errno : Errno)

theorem directLoop_nil : directLoop rs [] errno =
    some { written := [], errno := errno, stderr := [], writes := rs } := by
  unfold directLoop
  rfl

theorem directLoop_count (n : Nat) : directLoop (.count (n + 1) :: rs) (b :: data) errno =
    (directLoop rs ((b :: data).drop (n + 1)) errno).map
      (WriteEnd.after ((b :: data).take (n + 1))) := by
  simp only [directLoop]

theorem directLoop_zero : directLoop (.count 0 :: rs) (b :: data) .eintr =
    directLoop rs (b :: data) .eintr := by
  simp only [directLoop]

theorem directLoop_interrupted : directLoop (.fail .eintr :: rs) (b :: data) errno =
    directLoop rs (b :: data) .eintr := by
  simp only [directLoop]

end DirectLoop

/-- The direct write goes on while bytes are left, nothing has failed hard and every zero
came while `errno` was `EINTR`. -/
theorem directLoop_eq_none_iff (rs : List WriteResult) (data : Bytes) (errno : Errno) :
    directLoop rs data errno = none ↔
      (∀ r ∈ rs, r ≠ .fail .other) ∧ ZerosRetried errno rs ∧
        (rs.map WriteResult.size).sum < data.length := by
  induction rs generalizing data errno with
  | nil => cases data <;> simp [directLoop, ZerosRetried]
  | cons r rs ih =>
      cases data with
      | nil => simp [directLoop_nil]
      | cons b data =>
          rw [List.forall_mem_cons, ZerosRetried, List.map_cons, List.sum_cons]
          cases r with
          | count k =>
              cases k with
              | zero =>
                  cases errno with
                  | eintr => simp [directLoop_zero, ih, WriteResult.size, WriteResult.setErrno]
                  | other => simp [directLoop]
              | succ k =>
                  rw [directLoop_count, Option.map_eq_none_iff, ih, List.drop_succ_cons,
                    List.length_drop, List.length_cons, WriteResult.size, WriteResult.setErrno]
                  have hlen : (rs.map WriteResult.size).sum < data.length - k ↔
                      k + 1 + (rs.map WriteResult.size).sum < data.length + 1 := by omega
                  simp [hlen]
          | fail e =>
              cases e with
              | eintr =>
                  simp [directLoop_interrupted, ih, WriteResult.size, WriteResult.setErrno]
              | other => simp [directLoop]

theorem zerosRetried_append (errno : Errno) (rs rs' : List WriteResult) :
    ZerosRetried errno (rs ++ rs') ↔
      ZerosRetried errno rs ∧ ZerosRetried (errnoAfter errno rs) rs' := by
  induction rs generalizing errno with
  | nil => simp [ZerosRetried, errnoAfter]
  | cons r rs ih =>
      rw [List.cons_append, ZerosRetried, ih, ZerosRetried, and_assoc]
      rfl

theorem zerosRetried_of_zeros {rs : List WriteResult} (h : ∀ r ∈ rs, r = .count 0) :
    ZerosRetried .eintr rs := by
  induction rs with
  | nil => trivial
  | cons r rs ih =>
      rw [List.forall_mem_cons] at h
      rw [h.1]
      exact ⟨fun _ => rfl, ih h.2⟩

/-- A result after which the direct write goes on without a byte less. -/
theorem eq_zero_of_retried {r : WriteResult} (hhard : r ≠ .fail .other)
    (hintr : r ≠ .fail .eintr) (hsize : r.size = 0) : r = .count 0 := by
  match r with
  | .count n => rw [show n = 0 from hsize]
  | .fail .eintr => exact absurd rfl hintr
  | .fail .other => exact absurd rfl hhard

/-- On which infinite sequences the direct write does not end. -/
theorem directLoop_spins_iff {results : Nat → WriteResult}
    (hfin : {i | results i = .fail .eintr}.Finite) (data : Bytes) (errno : Errno) :
    (∀ k, directLoop (firstResults results k) data errno = none) ↔
      Spins errno results data.length := by
  have hnone : ∀ k, directLoop (firstResults results k) data errno = none ↔
      (∀ i < k, results i ≠ .fail .other) ∧ ZerosRetried errno (firstResults results k) ∧
        firstSum WriteResult.size results k < data.length := by
    intro k
    rw [directLoop_eq_none_iff]
    apply and_congr_left
    intro _
    simp only [mem_firstResults]
    constructor
    · intro h i hi
      exact h _ ⟨i, hi, rfl⟩
    · rintro h r ⟨i, hi, rfl⟩
      exact h i hi
  simp only [hnone]
  constructor
  · intro h
    rcases eventually_zero (fun k => (h k).2.2) with ⟨N, hN⟩
    rcases eventually_ne hfin with ⟨M, hM⟩
    have hzero : ∀ i ≥ max N M, results i = .count 0 := by
      intro i hi
      exact eq_zero_of_retried ((h (i + 1)).1 i (Nat.lt_succ_self i))
        (hM i (le_of_max_le_right hi)) (hN i (le_of_max_le_left hi))
    -- the zero that comes next is retried
    have hnext := (h (max N M + 1)).2.1
    rw [firstResults_succ, zerosRetried_append] at hnext
    exact ⟨max N M, (h _).1, (h _).2.1, hnext.2.1 (hzero _ (Nat.le_refl _)), (h _).2.2, hzero⟩
  · rintro ⟨N, hhard, hretried, herrno, hsum, hzero⟩ k
    have hle : firstSum WriteResult.size results k ≤ firstSum WriteResult.size results N :=
      firstSum_le_of_zero (fun i hi => by rw [hzero i hi, WriteResult.size]) k
    refine ⟨?_, ?_, by omega⟩
    · intro i _
      rcases Nat.lt_or_ge i N with hi | hi
      · exact hhard i hi
      · simp [hzero i hi]
    · rcases Nat.le_total k N with hk | hk
      · rw [← Nat.add_sub_cancel' hk, firstResults_add, zerosRetried_append] at hretried
        exact hretried.1
      · rw [← Nat.add_sub_cancel' hk, firstResults_add, zerosRetried_append, herrno]
        apply And.intro hretried
        apply zerosRetried_of_zeros
        intro r hr
        rcases mem_firstResults.1 hr with ⟨i, _, rfl⟩
        exact hzero _ (Nat.le_add_right N i)

end FileSink
end Log
end DtCore
