import DtCore.Foundation.StepSystem
import Mathlib.Algebra.Order.BigOperators.Group.Finset
import Mathlib.Tactic
import Mathlib.Data.Fintype.BigOperators

/-!
# The lock

`dt::Utils::Lock` is a flag: `lock` sets it with one compare-and-exchange and fails when it is
set already, `unlock` clears it.  Threads that try `lock` until it succeeds, work on a shared
value and then call `unlock` have the value for themselves, although reading it and writing it
back are two accesses.  The example of the repository counts with such threads.

Main definitions:

- `Lock.lock` and `Lock.unlock`.
- `step`: threads that each make a number of rounds.

Main results:

- Theorem `sections_serialize`: the value is what the rounds give one after the other.
- Theorem `no_lost_increment`: counting threads lose no increment.
- Theorem `rounds_progress`: some thread that is not done gets on.
-/

namespace DtCore
namespace Utils
namespace SpinLock

open Foundation

variable {T V : Type}

/-! ## The lock and its threads -/

/-- The flag of a `Lock`. -/
structure Lock where
  flag : Bool
deriving DecidableEq

/-- `compare_exchange_strong(false, true)`. -/
def Lock.lock (l : Lock) : Bool × Lock :=
  if l.flag = false then (true, { flag := true }) else (false, l)

def Lock.unlock (_ : Lock) : Lock :=
  { flag := false }

/-- Where a thread is in its rounds. -/
inductive Pc (V : Type) where
  | spin (round : Nat)
  | load (round : Nat)
  | store (round : Nat) (loaded : V)
  | unlock (round : Nat)
  | done
deriving DecidableEq

/-- The lock, the shared value and the threads.  The list of the rounds that have stored is
history. -/
structure State (T V : Type) where
  lock : Lock
  value : V
  threads : T → Pc V
  stored : List (T × Nat)

/-- The start of a round, if there is one. -/
def startRound (rounds round : Nat) : Pc V :=
  if round < rounds then .spin round else .done

def initial (rounds : Nat) (value : V) : State T V where
  lock := { flag := false }
  value := value
  threads _ := startRound rounds 0
  stored := []

section Steps

variable [DecidableEq T]

/-- Move one thread on. -/
def State.setThread (s : State T V) (t : T) (pc : Pc V) : State T V :=
  { s with threads := Function.update s.threads t pc }

/-- One access of a thread; a round turns the value `v` that it loads into `work t round v`. -/
def step (work : T → Nat → V → V) (rounds : Nat) (s : State T V) (t : T) : Option (State T V) :=
  match s.threads t with
  | .spin round =>
      match s.lock.lock with
      | (true, lock) => some { s.setThread t (.load round) with lock := lock }
      | (false, lock) => some { s with lock := lock }
  | .load round => some (s.setThread t (.store round s.value))
  | .store round loaded =>
      some { s.setThread t (.unlock round) with
        value := work t round loaded
        stored := s.stored ++ [(t, round)] }
  | .unlock round =>
      some { s.setThread t (startRound rounds (round + 1)) with lock := s.lock.unlock }
  | .done => none

/-- The steps by what they find and what they leave. -/
inductive Moves (work : T → Nat → V → V) (rounds : Nat) (s : State T V) (t : T) :
    State T V → Prop where
  | acquire (round : Nat) (hpc : s.threads t = .spin round) (hfree : s.lock.flag = false) :
      Moves work rounds s t { s.setThread t (.load round) with lock := { flag := true } }
  | spin (round : Nat) (hpc : s.threads t = .spin round) (hheld : s.lock.flag = true) :
      Moves work rounds s t s
  | load (round : Nat) (hpc : s.threads t = .load round) :
      Moves work rounds s t (s.setThread t (.store round s.value))
  | store (round : Nat) (loaded : V) (hpc : s.threads t = .store round loaded) :
      Moves work rounds s t { s.setThread t (.unlock round) with
        value := work t round loaded
        stored := s.stored ++ [(t, round)] }
  | unlock (round : Nat) (hpc : s.threads t = .unlock round) :
      Moves work rounds s t { s.setThread t (startRound rounds (round + 1)) with
        lock := { flag := false } }

theorem step_moves {work : T → Nat → V → V} {rounds : Nat} {s s' : State T V} {t : T}
    (hs : step work rounds s t = some s') : Moves work rounds s t s' := by
  unfold step at hs
  split at hs <;> rename_i hpc
  · cases hflag : s.lock.flag with
    | false =>
        simp only [Lock.lock, hflag, if_true, Option.some.injEq] at hs
        exact hs ▸ Moves.acquire _ hpc hflag
    | true =>
        simp only [Lock.lock, hflag, Bool.true_eq_false, if_false, Option.some.injEq] at hs
        exact hs ▸ Moves.spin _ hpc hflag
  · exact (Option.some.inj hs) ▸ Moves.load _ hpc
  · exact (Option.some.inj hs) ▸ Moves.store _ _ hpc
  · exact (Option.some.inj hs) ▸ Moves.unlock _ hpc
  · contradiction

/-! ## Mutual exclusion -/

/-- The thread has the lock. -/
def Pc.Inside : Pc V → Prop
  | .load _ => True
  | .store _ _ => True
  | .unlock _ => True
  | _ => False

omit [DecidableEq T] in
@[simp]
theorem not_inside_startRound (rounds round : Nat) :
    ¬ (startRound rounds round : Pc V).Inside := by
  unfold startRound
  split <;> exact id

/-- At most one thread is inside, and the flag tells whether one is. -/
structure Exclusive (s : State T V) : Prop where
  unique : ∀ t u, (s.threads t).Inside → (s.threads u).Inside → t = u
  flag : s.lock.flag = true ↔ ∃ t, (s.threads t).Inside

omit [DecidableEq T] in
theorem exclusive_initial (rounds : Nat) (value : V) :
    Exclusive (initial rounds value : State T V) where
  unique t u ht _ := absurd ht (not_inside_startRound rounds 0)
  flag := by simp [initial]

/-- A thread takes the free lock. -/
theorem Exclusive.acquire {s : State T V} {t : T} (h : Exclusive s) (hfree : s.lock.flag = false)
    (pc : Pc V) (hpc : pc.Inside) :
    Exclusive { s.setThread t pc with lock := { flag := true } } := by
  have hnone : ∀ u, ¬ (s.threads u).Inside := by
    intro u hu
    have hheld := h.flag.mpr ⟨u, hu⟩
    simp [hfree] at hheld
  constructor
  case unique =>
    intro u w hu hw
    by_contra hne
    by_cases hut : u = t
    · have hwt : w ≠ t := fun heq => hne (hut.trans heq.symm)
      simp only [State.setThread, Function.update_of_ne hwt] at hw
      exact hnone w hw
    · simp only [State.setThread, Function.update_of_ne hut] at hu
      exact hnone u hu
  case flag =>
    exact iff_of_true rfl ⟨t, by simpa [State.setThread] using hpc⟩

/-- A thread gives the lock back. -/
theorem Exclusive.release {s : State T V} {t : T} (h : Exclusive s) (ht : (s.threads t).Inside)
    (pc : Pc V) (hpc : ¬ pc.Inside) :
    Exclusive { s.setThread t pc with lock := { flag := false } } := by
  have hnone : ∀ u, ¬ ((s.setThread t pc).threads u).Inside := by
    intro u hu
    by_cases hut : u = t
    · subst hut
      exact hpc (by simpa [State.setThread] using hu)
    · simp only [State.setThread, Function.update_of_ne hut] at hu
      exact hut (h.unique u t hu ht)
  constructor
  case unique =>
    intro u w hu
    exact absurd hu (hnone u)
  case flag =>
    refine iff_of_false (by simp) ?_
    rintro ⟨u, hu⟩
    exact hnone u hu

/-- A thread inside stays inside. -/
theorem Exclusive.stay {s s' : State T V} {t : T} (h : Exclusive s) (ht : (s.threads t).Inside)
    (hlock : s'.lock = s.lock) (pc : Pc V) (hpc : pc.Inside)
    (hthreads : s'.threads = Function.update s.threads t pc) : Exclusive s' := by
  have hinside : ∀ u, (s'.threads u).Inside ↔ (s.threads u).Inside := by
    intro u
    rw [hthreads]
    by_cases hut : u = t
    · subst hut
      simp [hpc, ht]
    · rw [Function.update_of_ne hut]
  constructor
  case unique =>
    intro u w hu hw
    exact h.unique u w ((hinside u).mp hu) ((hinside w).mp hw)
  case flag =>
    rw [hlock, h.flag]
    exact exists_congr fun u => (hinside u).symm

theorem Exclusive.step {work : T → Nat → V → V} {rounds : Nat} {s s' : State T V} {t : T}
    (h : Exclusive s) (hs : step work rounds s t = some s') : Exclusive s' := by
  cases step_moves hs with
  | acquire round hpc hfree => exact h.acquire hfree _ trivial
  | spin round hpc hheld => exact h
  | load round hpc =>
      exact h.stay (by simp [hpc, Pc.Inside]) rfl (.store round s.value) trivial rfl
  | store round loaded hpc =>
      exact h.stay (by simp [hpc, Pc.Inside]) rfl (.unlock round) trivial rfl
  | unlock round hpc => exact h.release (by simp [hpc, Pc.Inside]) _ (by simp)

/-! ## The rounds -/

/-- The rounds of a thread that have stored. -/
def Pc.completed (rounds : Nat) : Pc V → Nat
  | .spin round => round
  | .load round => round
  | .store round _ => round
  | .unlock round => round + 1
  | .done => rounds

/-- The round that a thread is in. -/
def Pc.round : Pc V → Option Nat
  | .spin round => some round
  | .load round => some round
  | .store round _ => some round
  | .unlock round => some round
  | .done => none

/-- The value of the stored rounds in their order. -/
def replay (work : T → Nat → V → V) (value : V) (stored : List (T × Nat)) : V :=
  stored.foldl (fun v p => work p.1 p.2 v) value

/-- The rounds of one thread that have stored, in their order. -/
def State.roundsOf (s : State T V) (t : T) : List Nat :=
  (s.stored.filter (fun p => p.1 = t)).map Prod.snd

omit [DecidableEq T] in
theorem completed_startRound {rounds round : Nat} (h : round ≤ rounds) :
    (startRound rounds round : Pc V).completed rounds = round := by
  unfold startRound
  split
  · rfl
  · simp only [Pc.completed]
    omega

omit [DecidableEq T] in
theorem round_startRound {rounds round round' : Nat}
    (h : (startRound rounds round : Pc V).round = some round') : round' < rounds := by
  unfold startRound at h
  split at h
  · simp only [Pc.round, Option.some.injEq] at h
    omega
  · contradiction

/-- What a run has done so far. -/
structure Serial (work : T → Nat → V → V) (rounds : Nat) (value : V) (s : State T V) : Prop where
  exclusive : Exclusive s
  current : ∀ t round loaded, s.threads t = .store round loaded → loaded = s.value
  value : s.value = replay work value s.stored
  ran : ∀ t, s.roundsOf t = List.range ((s.threads t).completed rounds)
  bound : ∀ t round, (s.threads t).round = some round → round < rounds

theorem serial_initial (work : T → Nat → V → V) (rounds : Nat) (value : V) :
    Serial work rounds value (initial rounds value : State T V) where
  exclusive := exclusive_initial rounds value
  current t round loaded h := by
    simp only [initial, startRound] at h
    split at h <;> contradiction
  value := rfl
  ran t := by
    simp [initial, State.roundsOf, completed_startRound (Nat.zero_le rounds)]
  bound t round h := round_startRound h

/-- A step of a thread that stores nothing. -/
theorem Serial.quiet {work : T → Nat → V → V} {rounds : Nat} {value : V} {s s' : State T V} {t : T}
    (h : Serial work rounds value s) (hexclusive : Exclusive s') (pc : Pc V)
    (hthreads : s'.threads = Function.update s.threads t pc) (hvalue : s'.value = s.value)
    (hstored : s'.stored = s.stored)
    (hcurrent : ∀ round loaded, pc = .store round loaded → loaded = s.value)
    (hcompleted : pc.completed rounds = (s.threads t).completed rounds)
    (hround : ∀ round, pc.round = some round → round < rounds) :
    Serial work rounds value s' := by
  have hself : s'.threads t = pc := by simp [hthreads]
  have hother : ∀ u, u ≠ t → s'.threads u = s.threads u := by
    intro u hut
    rw [hthreads, Function.update_of_ne hut]
  constructor
  case exclusive => exact hexclusive
  case current =>
    intro u round loaded hu
    rw [hvalue]
    by_cases hut : u = t
    · exact hcurrent round loaded (by rw [← hself, ← hut, hu])
    · exact h.current u round loaded (by rw [← hother u hut, hu])
  case value => rw [hvalue, hstored, h.value]
  case ran =>
    intro u
    have hrounds : s'.roundsOf u = s.roundsOf u := by simp [State.roundsOf, hstored]
    rw [hrounds, h.ran]
    by_cases hut : u = t
    · rw [hut, hself, hcompleted]
    · rw [hother u hut]
  case bound =>
    intro u round hu
    by_cases hut : u = t
    · exact hround round (by rw [← hself, ← hut, hu])
    · exact h.bound u round (by rw [← hother u hut, hu])

/-- A thread stores its round. -/
theorem Serial.store {work : T → Nat → V → V} {rounds : Nat} {value : V} {s : State T V} {t : T}
    {round : Nat} {loaded : V} (h : Serial work rounds value s)
    (hpc : s.threads t = .store round loaded) :
    Serial work rounds value { s.setThread t (.unlock round) with
      value := work t round loaded
      stored := s.stored ++ [(t, round)] } := by
  have hin : (s.threads t).Inside := by simp [hpc, Pc.Inside]
  constructor
  case exclusive => exact h.exclusive.stay hin rfl (.unlock round) trivial rfl
  case current =>
    intro u round' loaded' hu
    by_cases hut : u = t
    · subst hut
      simp [State.setThread] at hu
    · -- another thread that stores would be inside as well
      simp only [State.setThread, Function.update_of_ne hut] at hu
      exact absurd (h.exclusive.unique u t (by simp [hu, Pc.Inside]) hin) hut
  case value =>
    simp [replay, h.current t round loaded hpc, h.value]
  case ran =>
    intro u
    by_cases hut : u = t
    · subst hut
      have hran := h.ran u
      rw [hpc] at hran
      simp only [State.roundsOf] at hran ⊢
      simp [State.setThread, hran, Pc.completed, List.range_succ]
    · have hran := h.ran u
      simp only [State.roundsOf] at hran ⊢
      simp [State.setThread, Function.update_of_ne hut, Ne.symm hut, hran]
  case bound =>
    intro u round' hu
    by_cases hut : u = t
    · subst hut
      apply h.bound u
      simpa [State.setThread, hpc, Pc.round] using hu
    · simp only [State.setThread, Function.update_of_ne hut] at hu
      exact h.bound u round' hu

theorem Serial.step {work : T → Nat → V → V} {rounds : Nat} {value : V} {s s' : State T V} {t : T}
    (h : Serial work rounds value s) (hs : step work rounds s t = some s') :
    Serial work rounds value s' := by
  have hexclusive := h.exclusive.step hs
  have hbound := h.bound t
  cases step_moves hs with
  | acquire round hpc hfree =>
      refine h.quiet hexclusive (.load round) rfl rfl rfl (by simp) (by simp [hpc, Pc.completed]) ?_
      simpa [hpc, Pc.round] using hbound
  | spin round hpc hheld => exact h
  | load round hpc =>
      refine h.quiet hexclusive (.store round s.value) rfl rfl rfl ?_
        (by simp [hpc, Pc.completed]) ?_
      · intro round' loaded heq
        cases heq
        rfl
      · simpa [hpc, Pc.round] using hbound
  | store round loaded hpc => exact h.store hpc
  | unlock round hpc =>
      have hlt : round < rounds := hbound round (by simp [hpc, Pc.round])
      refine h.quiet hexclusive (startRound rounds (round + 1)) rfl rfl rfl ?_ ?_
        (fun _ hround => round_startRound hround)
      · intro round' loaded heq
        unfold startRound at heq
        split at heq <;> contradiction
      · rw [completed_startRound hlt, hpc]
        rfl

theorem serial_reachable {work : T → Nat → V → V} {rounds : Nat} {value : V} {s : State T V}
    (hr : Reach (SpinLock.step work rounds) (fun _ (_ : T) => True) (initial rounds value) s) :
    Serial work rounds value s := by
  apply hr.invariant (serial_initial work rounds value)
  intro t u t' ht _ hs
  exact ht.step hs

/-- In every run at most one thread is inside, the value is what the stored rounds give one after
the other, and every thread has stored its rounds in order, each once. -/
theorem sections_serialize (work : T → Nat → V → V) (rounds : Nat) (value : V) {s : State T V}
    (hr : Reach (SpinLock.step work rounds) (fun _ (_ : T) => True) (initial rounds value) s) :
    (∀ t u, (s.threads t).Inside → (s.threads u).Inside → t = u) ∧
    s.value = replay work value s.stored ∧
    ∀ t, s.roundsOf t = List.range ((s.threads t).completed rounds) := by
  have hserial := serial_reachable hr
  exact ⟨hserial.exclusive.unique, hserial.value, hserial.ran⟩

/-! ## Progress -/

/-- A thread inside gets on. -/
theorem inside_moves (work : T → Nat → V → V) (rounds : Nat) {s : State T V} {t : T}
    (h : (s.threads t).Inside) :
    ∃ s', SpinLock.step work rounds s t = some s' ∧ s'.threads t ≠ s.threads t := by
  cases hpc : s.threads t with
  | spin round => simp [hpc, Pc.Inside] at h
  | done => simp [hpc, Pc.Inside] at h
  | load round =>
      exact ⟨s.setThread t (.store round s.value), by rw [SpinLock.step, hpc],
        by simp [State.setThread]⟩
  | store round loaded =>
      exact ⟨{ s.setThread t (.unlock round) with
          value := work t round loaded, stored := s.stored ++ [(t, round)] },
        by rw [SpinLock.step, hpc], by simp [State.setThread]⟩
  | unlock round =>
      refine ⟨{ s.setThread t (startRound rounds (round + 1)) with lock := s.lock.unlock },
        by rw [SpinLock.step, hpc], ?_⟩
      have hout := not_inside_startRound (V := V) rounds (round + 1)
      intro heq
      simp only [State.setThread, Function.update_self] at heq
      exact hout (heq ▸ trivial)

/-- As long as some thread is not done, one that is inside or finds the lock free gets on. -/
theorem rounds_progress (work : T → Nat → V → V) (rounds : Nat) (value : V) {s : State T V}
    (hr : Reach (SpinLock.step work rounds) (fun _ (_ : T) => True) (initial rounds value) s)
    (hbusy : ∃ t, s.threads t ≠ .done) :
    ∃ t s', SpinLock.step work rounds s t = some s' ∧ s'.threads t ≠ s.threads t := by
  rcases hbusy with ⟨t, ht⟩
  by_cases hin : ∃ u, (s.threads u).Inside
  · rcases hin with ⟨u, hu⟩
    exact ⟨u, inside_moves work rounds hu⟩
  · -- nobody is inside, so the lock is free
    have hfree : s.lock.flag = false := by
      by_contra hheld
      exact hin ((serial_reachable hr).exclusive.flag.mp (by simpa using hheld))
    cases hpc : s.threads t with
    | spin round =>
        refine ⟨t, { s.setThread t (.load round) with lock := { flag := true } }, ?_, ?_⟩
        · simp only [SpinLock.step, hpc, Lock.lock, hfree, if_true]
        · simp [State.setThread, hpc]
    | done => exact absurd hpc ht
    | load | store | unlock => exact absurd ⟨t, by simp [hpc, Pc.Inside]⟩ hin

end Steps

/-! ## Counting threads -/

variable [Fintype T] [DecidableEq T]

/-- Every stored round belongs to one thread. -/
theorem sum_roundsOf (stored : List (T × Nat)) :
    ∑ t, (stored.filter (fun p => p.1 = t)).length = stored.length := by
  induction stored with
  | nil => simp
  | cons p stored ih =>
      have hcons : ∀ t, ((p :: stored).filter (fun q => q.1 = t)).length =
          (if p.1 = t then 1 else 0) + (stored.filter (fun q => q.1 = t)).length := by
        intro t
        by_cases hp : p.1 = t
        · simp [hp, Nat.add_comm]
        · simp [hp]
      simp only [hcons, Finset.sum_add_distrib, ih, Finset.sum_ite_eq, Finset.mem_univ, if_true,
        List.length_cons]
      omega

/-- `*sum = *sum + 1`. -/
def increment (_ : T) (_ : Nat) (sum : Int) : Int :=
  sum + 1

omit [Fintype T] [DecidableEq T] in
theorem replay_increment (sum : Int) (stored : List (T × Nat)) :
    replay increment sum stored = sum + stored.length := by
  induction stored generalizing sum with
  | nil => simp [replay]
  | cons p stored ih =>
      have hrest := ih (sum + 1)
      simp only [replay, List.foldl_cons, increment, List.length_cons] at hrest ⊢
      rw [hrest]
      omega

omit [Fintype T] in
theorem Serial.completed_le {work : T → Nat → V → V} {rounds : Nat} {value : V} {s : State T V}
    (h : Serial work rounds value s) (t : T) : (s.threads t).completed rounds ≤ rounds := by
  have hbound := h.bound t
  cases hpc : s.threads t with
  | done => exact le_refl rounds
  | spin round | load round | store round | unlock round =>
      have hlt := hbound round (by rw [hpc]; rfl)
      simp only [Pc.completed]
      omega

/-- The number of stored rounds, by threads. -/
theorem Serial.stored_length {work : T → Nat → V → V} {rounds : Nat} {value : V} {s : State T V}
    (h : Serial work rounds value s) :
    s.stored.length = ∑ t, (s.threads t).completed rounds := by
  rw [← sum_roundsOf s.stored]
  apply Finset.sum_congr rfl
  intro t _
  have hlength := congrArg List.length (h.ran t)
  simpa [State.roundsOf] using hlength

/-- Threads that count with the lock never pass the expected sum, and reach it when all are
done; an `int` holds the sum as long as the expected one is below `2 ^ 31`. -/
theorem no_lost_increment (rounds : Nat) {s : State T Int}
    (hr : Reach (step increment rounds) (fun _ (_ : T) => True) (initial rounds 0) s) :
    s.value ≤ Fintype.card T * rounds ∧
    ((∀ t, s.threads t = .done) → s.value = Fintype.card T * rounds) := by
  have hserial := serial_reachable hr
  have hvalue : s.value = s.stored.length := by
    rw [hserial.value, replay_increment, Int.zero_add]
  rw [hvalue, hserial.stored_length]
  constructor
  · have hle : ∑ t, (s.threads t).completed rounds ≤ Fintype.card T • rounds :=
      Finset.sum_le_card_nsmul _ _ _ fun t _ => hserial.completed_le t
    rw [smul_eq_mul] at hle
    exact_mod_cast hle
  · intro hdone
    simp [hdone, Pc.completed]

/-- Two threads that count once each; the second one spins while the first one is inside. -/
def countTwice : List Bool :=
  [false, true, false, true, false, false, true, true, true, true]

theorem no_lost_increment_two : ∃ s : State Bool Int, s.value = 2 ∧ s.value ≤ 2 * 1 := by
  have hrun : (run (step increment 1) (fun _ (_ : Bool) => True) (initial 1 0)
      countTwice).map State.value = some 2 := by decide
  rcases exists_reach_of_run hrun with ⟨s, hs, hvalue⟩
  have hle := (no_lost_increment 1 hs).1
  exact ⟨s, hvalue, by simpa using hle⟩

theorem sections_serialize_two :
    ∃ s : State Bool Int, s.value = 2 ∧ s.value = replay increment 0 s.stored := by
  have hrun : (run (step increment 1) (fun _ (_ : Bool) => True) (initial 1 0)
      countTwice).map State.value = some 2 := by decide
  rcases exists_reach_of_run hrun with ⟨s, hs, hvalue⟩
  exact ⟨s, hvalue, (sections_serialize increment 1 0 hs).2.1⟩

end SpinLock
end Utils
end DtCore
