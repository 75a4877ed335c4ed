import Mathlib.Tactic

/-!
# The watchdog

A `Watchdog` is valid while its counter is positive.  `Watch` and
`DecAndCheckValid` both count down, but only `Watch` stops at zero.  The counter
is a 32-bit `int` that wraps around.

Main definitions:

- `Watchdog.call`: one call, with its answer.
- `StaysExpired`: no call of a sequence finds the data valid.
- `CountsDown`: how long the data stays valid after `Watch(true)`.

Main results:

- Theorem `staysExpired_iff`: an expired watchdog stays expired until
  `DecAndCheckValid` wraps its counter around.
- Theorem `prefixes_valid_iff`: a positive counter is the number of decrements at
  which the data is no longer valid.
- Theorem `expired_stays_and_countsDown_iff`: the two together, with the sequences
  that are short enough.
-/

namespace DtCore
namespace Utils

/-- The member of a `Watchdog`. -/
structure Watchdog where
  counter : Int32
deriving DecidableEq

namespace Watchdog

/-! ## Operations -/

/-- Is the data valid? -/
def isValid (w : Watchdog) : Bool :=
  w.counter > 0

/-- `Reset`. -/
def reset (counter : Int32) (w : Watchdog) : Watchdog :=
  { w with counter := counter }

/-- `DecAndCheckValid`: decrement without a floor. -/
def decAndCheckValid (w : Watchdog) : Watchdog × Bool :=
  let w := { w with counter := w.counter - 1 }
  (w, w.counter > 0)

/-- `DecAndReset` with the value to reset to. -/
def decAndReset (counter : Int32) (w : Watchdog) : Watchdog × Bool :=
  let r := w.decAndCheckValid
  if r.2 then (r.1, false) else ({ r.1 with counter := counter }, true)

/-- The calls that can be made. -/
inductive Call where
  | watch (newData : Bool)
  | reset (counter : Int32)
  | isValid
  | decAndCheckValid
  | decAndReset (counter : Int32)
deriving DecidableEq

/-- `Watch(false)` and `DecAndCheckValid`. -/
def Call.Decrements (c : Call) : Prop :=
  c = .watch false ∨ c = .decAndCheckValid

section Calls

variable (counterMax : Int32)

/-- The default constructor; `counterMax` is the template argument. -/
def construct : Watchdog :=
  { counter := counterMax }

/-- The constructor with an initial value. -/
def constructWith (counterInit : Int32) : Watchdog :=
  if counterInit < 0 then { counter := counterMax } else { counter := counterInit }

/-- `Watch`: decrement down to zero. -/
def watch (watch : Bool) (w : Watchdog) : Watchdog :=
  if watch then { w with counter := counterMax }
  else if w.counter > 0 then { w with counter := w.counter - 1 }
  else w

/-- One call and what it returns. -/
def call (w : Watchdog) : Call → Watchdog × Option Bool
  | .watch newData => (w.watch counterMax newData, none)
  | .reset counter => (w.reset counter, none)
  | .isValid => (w, some w.isValid)
  | .decAndCheckValid => (w.decAndCheckValid.1, some w.decAndCheckValid.2)
  | .decAndReset counter => ((w.decAndReset counter).1, some (w.decAndReset counter).2)

/-- The watchdog after a sequence of calls. -/
def after : List Call → Watchdog → Watchdog
  | [], w => w
  | c :: cs, w => after cs (w.call counterMax c).1

/-- What a sequence of calls returns. -/
def answers : List Call → Watchdog → List Bool
  | [], _ => []
  | c :: cs, w => (w.call counterMax c).2.toList ++ answers cs (w.call counterMax c).1

/-- `IsValid` would return false before, between and after the calls. -/
def NeverValid (cs : List Call) (w : Watchdog) : Prop :=
  ∀ n ≤ cs.length, (after counterMax (cs.take n) w).isValid = false

/-- Neither `IsValid` nor a call of the sequence returns that the data is valid. -/
def StaysExpired (cs : List Call) (w : Watchdog) : Prop :=
  NeverValid counterMax cs w ∧ ∀ b ∈ answers counterMax cs w, b = false

/-- After `Watch(true)` the data is valid for the first `counterMax - 1` decrements
of a sequence and for no other. -/
def CountsDown (ds : List Call) (w : Watchdog) : Prop :=
  ∀ n ≤ ds.length, (after counterMax (ds.take n) (w.watch counterMax true)).isValid = true ↔
    n ≤ counterMax.toInt - 1

end Calls

/-! ## One decrement -/

variable {counterMax : Int32}

theorem isValid_iff (w : Watchdog) : w.isValid = true ↔ 0 < w.counter.toInt := by
  have hzero : (0 : Int32).toInt = 0 := rfl
  rw [isValid, decide_eq_true_iff, gt_iff_lt, Int32.lt_iff_toInt_lt, hzero]

/-- A decrement wraps around at the smallest `int` only. -/
theorem toInt_pred (c : Int32) :
    (c - 1).toInt = if c.toInt = -2 ^ 31 then 2 ^ 31 - 1 else c.toInt - 1 := by
  have hone : (1 : Int32).toInt = 1 := rfl
  have hle := c.le_toInt
  have hlt := c.toInt_lt
  rw [Int32.toInt_sub, hone, Int.bmod]
  split <;> omega

@[simp]
theorem decAndCheckValid_counter (w : Watchdog) :
    w.decAndCheckValid.1.counter = w.counter - 1 :=
  rfl

@[simp]
theorem decAndCheckValid_answer (w : Watchdog) :
    w.decAndCheckValid.2 = w.decAndCheckValid.1.isValid :=
  rfl

@[simp]
theorem watch_true_counter (w : Watchdog) : (w.watch counterMax true).counter = counterMax :=
  rfl

theorem watch_false (w : Watchdog) :
    w.watch counterMax false = if w.isValid then w.decAndCheckValid.1 else w := by
  simp [watch, isValid, decAndCheckValid]

theorem isValid_eq_false_of_expired {w : Watchdog} (hw : w.counter.toInt ≤ 0) :
    w.isValid = false := by
  rw [← Bool.not_eq_true, isValid_iff]
  omega

/-! ## Expired watchdogs -/

/-- A decrement of an expired watchdog leaves it expired, unless `DecAndCheckValid`
wraps the counter around. -/
theorem call_of_expired (counterMax : Int32) {w : Watchdog} (hw : w.counter.toInt ≤ 0) {c : Call}
    (hc : c.Decrements) :
    (c = .watch false ∧ (w.call counterMax c).1 = w) ∨
      (c = .decAndCheckValid ∧ w.counter.toInt = -2 ^ 31 ∧
        (w.call counterMax c).1.isValid = true) ∨
      (c = .decAndCheckValid ∧ -2 ^ 31 < w.counter.toInt ∧
        (w.call counterMax c).1.counter.toInt = w.counter.toInt - 1) := by
  have hle := w.counter.le_toInt
  have hpred := toInt_pred w.counter
  rcases hc with rfl | rfl
  · left
    simp [call, watch_false, isValid_eq_false_of_expired hw]
  · right
    by_cases hmin : w.counter.toInt = -2 ^ 31
    · left
      rw [if_pos hmin] at hpred
      rw [isValid_iff, call, decAndCheckValid_counter, hpred]
      exact ⟨rfl, hmin, by norm_num⟩
    · right
      rw [if_neg hmin] at hpred
      exact ⟨rfl, by omega, hpred⟩

theorem neverValid_cons (c : Call) (cs : List Call) (w : Watchdog) :
    NeverValid counterMax (c :: cs) w ↔
      w.isValid = false ∧ NeverValid counterMax cs (w.call counterMax c).1 := by
  constructor
  · intro h
    apply And.intro (h 0 (Nat.zero_le _))
    intro n hn
    exact h (n + 1) (Nat.succ_le_succ hn)
  · rintro ⟨hfirst, hrest⟩ n hn
    cases n with
    | zero => exact hfirst
    | succ n => exact hrest n (Nat.le_of_succ_le_succ hn)

/-- An expired watchdog becomes valid exactly when `DecAndCheckValid` is called more
often than the `int` has values left. -/
theorem neverValid_iff (counterMax : Int32) {cs : List Call} (hcs : ∀ c ∈ cs, c.Decrements)
    {w : Watchdog} (hw : w.counter.toInt ≤ 0) :
    NeverValid counterMax cs w ↔
      (cs.count .decAndCheckValid : Int) ≤ w.counter.toInt + 2 ^ 31 := by
  induction cs generalizing w with
  | nil =>
      have hle := w.counter.le_toInt
      have hnil : NeverValid counterMax [] w := by
        intro n _
        rw [List.take_nil]
        exact isValid_eq_false_of_expired hw
      rw [List.count_nil]
      exact iff_of_true hnil (by omega)
  | cons c cs ih =>
      rw [List.forall_mem_cons] at hcs
      rcases hcs with ⟨hc, hcs⟩
      rw [neverValid_cons, and_iff_right (isValid_eq_false_of_expired hw)]
      rcases call_of_expired counterMax hw hc with
        ⟨rfl, hsame⟩ | ⟨rfl, hmin, hvalid⟩ | ⟨rfl, hroom, hcounter⟩
      · rw [hsame, ih hcs hw, List.count_cons_of_ne (by simp)]
      · -- the counter has wrapped around
        have hnot : ¬ NeverValid counterMax cs (w.call counterMax .decAndCheckValid).1 := by
          intro h
          have hfirst := h 0 (Nat.zero_le _)
          rw [List.take_zero, after, hvalid] at hfirst
          contradiction
        rw [List.count_cons_self]
        exact iff_of_false hnot (by omega)
      · have hexpired : (w.call counterMax .decAndCheckValid).1.counter.toInt ≤ 0 := by omega
        rw [ih hcs hexpired, hcounter, List.count_cons_self]
        omega

/-- What a decrement answers is what `IsValid` would return after it. -/
theorem exists_prefix_of_mem_answers {cs : List Call} (hcs : ∀ c ∈ cs, c.Decrements)
    {w : Watchdog} {b : Bool} (hb : b ∈ answers counterMax cs w) :
    ∃ n ≤ cs.length, b = (after counterMax (cs.take n) w).isValid := by
  induction cs generalizing w with
  | nil => contradiction
  | cons c cs ih =>
      rw [List.forall_mem_cons] at hcs
      rw [answers, List.mem_append] at hb
      rcases hb with hb | hb
      · rcases hcs.1 with rfl | rfl
        · contradiction
        · have hanswer : b = w.decAndCheckValid.1.isValid := by simpa [call] using hb
          exact ⟨1, by simp, hanswer⟩
      · rcases ih hcs.2 hb with ⟨n, hn, hanswer⟩
        exact ⟨n + 1, Nat.succ_le_succ hn, hanswer⟩

theorem staysExpired_iff {cs : List Call} (hcs : ∀ c ∈ cs, c.Decrements) {w : Watchdog}
    (hw : w.counter.toInt ≤ 0) :
    StaysExpired counterMax cs w ↔
      (cs.count .decAndCheckValid : Int) ≤ w.counter.toInt + 2 ^ 31 := by
  rw [← neverValid_iff counterMax hcs hw, StaysExpired]
  apply and_iff_left_of_imp
  intro hnever b hb
  rcases exists_prefix_of_mem_answers hcs hb with ⟨n, hn, rfl⟩
  exact hnever n hn

/-! ## Counting down -/

/-- A decrement of a valid watchdog. -/
theorem call_of_pos (counterMax : Int32) {w : Watchdog} (hw : 0 < w.counter.toInt) {c : Call}
    (hc : c.Decrements) :
    (w.call counterMax c).1.counter.toInt = w.counter.toInt - 1 := by
  have hpred := toInt_pred w.counter
  rw [if_neg (by omega)] at hpred
  have hvalid : w.isValid = true := (isValid_iff w).2 hw
  rcases hc with rfl | rfl
  · rw [call, watch_false, if_pos hvalid, decAndCheckValid_counter, hpred]
  · rw [call, decAndCheckValid_counter, hpred]

/-- From a counter that is not negative the data is valid for as many decrements as the
counter says, and for no other, unless those after them wrap the counter around. -/
theorem prefixes_valid_iff (counterMax : Int32) {ds : List Call}
    (hds : ∀ c ∈ ds, c.Decrements) {w : Watchdog} {k : Nat} (hw : w.counter.toInt = k) :
    (∀ n ≤ ds.length, (after counterMax (ds.take n) w).isValid = true ↔ n < k) ↔
      (ds.drop k).count .decAndCheckValid ≤ 2 ^ 31 := by
  induction ds generalizing w k with
  | nil =>
      have hnil : ∀ n ≤ ([] : List Call).length,
          (after counterMax (List.take n []) w).isValid = true ↔ n < k := by
        intro n hn
        rw [Nat.le_zero.1 hn, List.take_zero, after, isValid_iff, hw, Int.natCast_pos]
      rw [List.drop_nil, List.count_nil]
      exact iff_of_true hnil (Nat.zero_le _)
  | cons c ds ih =>
      cases k with
      | zero =>
          have hnever := neverValid_iff counterMax hds (w := w) (by omega)
          rw [hw] at hnever
          simp only [List.drop_zero, Nat.not_lt_zero, iff_false, Bool.not_eq_true]
          rw [NeverValid] at hnever
          rw [hnever]
          omega
      | succ k =>
          rw [List.forall_mem_cons] at hds
          rcases hds with ⟨hc, hds⟩
          have hpos : 0 < w.counter.toInt := by omega
          have hcall := call_of_pos counterMax hpos hc
          have hvalid := (isValid_iff w).2 hpos
          rw [List.drop_succ_cons, ← ih hds (w := (w.call counterMax c).1) (by omega)]
          constructor
          · intro h n hn
            have hnext := h (n + 1) (Nat.succ_le_succ hn)
            rwa [List.take_succ_cons, after, Nat.succ_lt_succ_iff] at hnext
          · intro h n hn
            cases n with
            | zero => exact iff_of_true hvalid (Nat.succ_pos k)
            | succ n =>
                rw [List.take_succ_cons, after, Nat.succ_lt_succ_iff]
                exact h n (Nat.le_of_succ_le_succ hn)

theorem countsDown_iff (hmax : 0 < counterMax) {ds : List Call} (hds : ∀ c ∈ ds, c.Decrements)
    (w : Watchdog) :
    CountsDown counterMax ds w ↔
      (ds.drop counterMax.toInt.toNat).count .decAndCheckValid ≤ 2 ^ 31 := by
  have hpos : 0 < counterMax.toInt := Int32.lt_iff_toInt_lt.1 hmax
  have hk : (w.watch counterMax true).counter.toInt = counterMax.toInt.toNat := by
    rw [watch_true_counter]
    omega
  rw [← prefixes_valid_iff counterMax hds hk, CountsDown]
  apply forall₂_congr
  intro n _
  have hlt : (n : Int) ≤ counterMax.toInt - 1 ↔ n < counterMax.toInt.toNat := by omega
  rw [hlt]

/-- Exactly when an expired watchdog stays expired and a reset one counts down: no
sequence of `DecAndCheckValid` may be long enough to wrap the counter around. -/
theorem expired_stays_and_countsDown_iff (hmax : 0 < counterMax) (w : Watchdog)
    {cs ds : List Call} (hcs : ∀ c ∈ cs, c.Decrements) (hds : ∀ c ∈ ds, c.Decrements) :
    ((w.counter.toInt ≤ 0 → StaysExpired counterMax cs w) ∧ CountsDown counterMax ds w) ↔
      (w.counter.toInt ≤ 0 →
          (cs.count .decAndCheckValid : Int) ≤ w.counter.toInt + 2 ^ 31) ∧
        (ds.drop counterMax.toInt.toNat).count .decAndCheckValid ≤ 2 ^ 31 := by
  rw [countsDown_iff hmax hds]
  apply and_congr_left
  intro _
  apply imp_congr_right
  intro hw
  exact staysExpired_iff hcs hw

/-- After `Reset(INT_MIN)`. -/
def least : Watchdog :=
  (constructWith 10 0).reset (-2 ^ 31)

/-- At the least counter value `Watch(false)` keeps the watchdog expired, and the next
`DecAndCheckValid` wraps around. -/
theorem expired_stays_and_countsDown_iff_least :
    ((least.counter.toInt ≤ 0 → StaysExpired 10 [.watch false, .watch false] least) ∧
        CountsDown 10 [.decAndCheckValid, .watch false] least) ∧
      ¬ ((least.counter.toInt ≤ 0 → StaysExpired 10 [.watch false, .decAndCheckValid] least) ∧
        CountsDown 10 [.decAndCheckValid, .watch false] least) := by
  have hdown : ∀ c ∈ [Call.decAndCheckValid, .watch false], c.Decrements := by
    simp [Call.Decrements]
  constructor
  · rw [expired_stays_and_countsDown_iff (by decide) _ (by simp [Call.Decrements]) hdown]
    decide
  · rw [expired_stays_and_countsDown_iff (by decide) _ (by simp [Call.Decrements]) hdown]
    decide

/-- A watchdog that starts at zero is valid again after so many decrements that its
counter wraps around. -/
theorem not_staysExpired_wrapped :
    (constructWith 10 0).counter.toInt ≤ 0 ∧
      ¬ StaysExpired 10 (List.replicate (2 ^ 31 + 1) .decAndCheckValid) (constructWith 10 0) := by
  have hexpired : (constructWith 10 0).counter.toInt = 0 := rfl
  have hcs : ∀ c ∈ List.replicate (2 ^ 31 + 1) Call.decAndCheckValid, c.Decrements := by
    intro c hc
    exact Or.inr (List.eq_of_mem_replicate hc)
  rw [staysExpired_iff hcs hexpired.le, List.count_replicate_self, hexpired]
  norm_num

end Watchdog
end Utils
end DtCore
