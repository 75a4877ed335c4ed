import DtCore.Thread.Registry

/-!
# Releasing what is registered

`DeleteAll*` releases what its array refers to and leaves the slots as they are, unlike
`Delete*`, which clears one.  A second `DeleteAll*` then releases the same objects once
more, and so does a call after one that failed half way.

Main results:

- Theorem `Registry.deleteFrom_again`: when the loop releases nothing a second time.
- Theorem `released_once_iff`: when a sequence of calls releases nothing twice and every
  successful `DeleteAll*` leaves no slot that refers to a released object.
- Theorem `delete_all_twice`: one thread, `DeleteAllThread` called twice.
-/

namespace DtCore
namespace Thread

variable {H : Type}

/-! ## What the slots refer to -/

/-- The object in the structure that slot `n` points into. -/
def Registry.referent (s : Registry H) (n : Nat) : Option Nat :=
  (s.slots n).bind fun h => (s.info h).object

theorem Registry.referent_congr {s t : Registry H} (hslots : t.slots = s.slots)
    (hinfo : t.info = s.info) : t.referent = s.referent := by
  unfold Registry.referent
  rw [hslots, hinfo]

/-- `DeleteAll*` reaches slot `n`: it is below `count`, and no release above it fails. -/
def Registry.Reached (s : Registry H) (ok : Nat → Bool) (count n : Nat) : Prop :=
  n < count ∧ ∀ m, n < m → m < count → s.referent m ≠ none → ok m = true

/-- What the reached slots refer to has not been released, and no two of them refer to the
same object. -/
structure Registry.Fresh (s : Registry H) (ok : Nat → Bool) (count : Nat) : Prop where
  unreleased : ∀ n object, s.Reached ok count n → s.referent n = some object →
    ¬ s.Released object
  distinct : ∀ n n' object, s.Reached ok count n → s.Reached ok count n' →
    s.referent n = some object → s.referent n' = some object → n = n'

theorem Registry.reached_succ {s : Registry H} {ok : Nat → Bool} {idx : Nat}
    (hnext : s.referent idx ≠ none → ok idx = true) (n : Nat) :
    s.Reached ok (idx + 1) n ↔ n = idx ∨ s.Reached ok idx n := by
  unfold Registry.Reached
  constructor
  · intro hreached
    rcases Nat.lt_succ_iff_lt_or_eq.mp hreached.1 with hlt | heq
    · exact Or.inr ⟨hlt, fun m hm hmidx => hreached.2 m hm (Nat.lt_succ_of_lt hmidx)⟩
    · exact Or.inl heq
  · intro hcases
    rcases hcases with heq | hreached
    · refine ⟨heq ▸ Nat.lt_succ_self idx, fun m hm hmidx => ?_⟩
      omega
    · refine ⟨Nat.lt_succ_of_lt hreached.1, fun m hm hmidx hsome => ?_⟩
      rcases Nat.lt_succ_iff_lt_or_eq.mp hmidx with hlt | heq
      · exact hreached.2 m hm hlt hsome
      · rw [heq] at hsome ⊢
        exact hnext hsome

theorem Registry.reached_of_failure {s : Registry H} {ok : Nat → Bool} {idx n : Nat}
    (hsome : s.referent idx ≠ none) (hfail : ok idx = false)
    (hreached : s.Reached ok (idx + 1) n) : n = idx := by
  by_contra hne
  have hlt : n < idx := Nat.lt_of_le_of_ne (Nat.le_of_lt_succ hreached.1) hne
  have hok := hreached.2 idx hlt (Nat.lt_succ_self idx) hsome
  rw [hfail] at hok
  exact Bool.false_ne_true hok

theorem Registry.reached_last (s : Registry H) (ok : Nat → Bool) (idx : Nat) :
    s.Reached ok (idx + 1) idx := by
  refine ⟨Nat.lt_succ_self idx, fun m hm hmidx => ?_⟩
  omega

/-! ## The loop -/

/-- The state of the loop after the release of what slot `idx` refers to. -/
def Registry.afterRelease (s : Registry H) (idx object : Nat) : Registry H :=
  { (s.access idx).callRelease object with bulk := object :: s.bulk }

@[simp]
theorem Registry.released_afterRelease (s : Registry H) (idx object object' : Nat) :
    (s.afterRelease idx object).Released object' ↔ object' = object ∨ s.Released object' := by
  simp [Registry.afterRelease, Registry.callRelease, Registry.access, Registry.Released,
    or_left_comm]

@[simp]
theorem Registry.referent_afterRelease (s : Registry H) (idx object : Nat) :
    (s.afterRelease idx object).referent = s.referent := rfl

@[simp]
theorem Registry.referent_access (s : Registry H) (idx : Int) :
    (s.access idx).referent = s.referent := rfl

theorem Registry.callRelease_again (s : Registry H) (object : Nat) :
    (s.callRelease object).again = [] ↔ s.again = [] ∧ ¬ s.Released object := by
  unfold Registry.callRelease
  by_cases hreleased : s.Released object
  · simp [hreleased]
  · simp [hreleased]

/-- One round of the loop. -/
theorem Registry.deleteFrom_succ (ok : Nat → Bool) (s : Registry H) (idx : Nat) :
    s.deleteFrom ok (idx + 1) =
      match s.referent idx with
      | none => (s.access idx).deleteFrom ok idx
      | some object =>
          if ok idx then (s.afterRelease idx object).deleteFrom ok idx
          else ((s.access idx).callRelease object, false) := by
  rw [Registry.deleteFrom, Registry.referent]
  cases hslot : s.slots idx with
  | none => rfl
  | some h =>
      show (match (s.info h).object with | none => _ | some object => _) = _
      cases hobject : (s.info h).object with
      | none => simp [hobject]
      | some object =>
          simp only [Option.bind_some, hobject]
          rfl

/-- The loop changes nothing but the history. -/
theorem Registry.deleteFrom_frame (ok : Nat → Bool) (count : Nat) (s : Registry H) :
    (s.deleteFrom ok count).1.slots = s.slots ∧ (s.deleteFrom ok count).1.info = s.info ∧
      (s.deleteFrom ok count).1.num = s.num := by
  induction count generalizing s with
  | zero => exact ⟨rfl, rfl, rfl⟩
  | succ idx ih =>
      rw [Registry.deleteFrom_succ]
      cases hreferent : s.referent idx with
      | none => exact ih (s.access idx)
      | some object =>
          dsimp only
          split
          · exact ih (s.afterRelease idx object)
          · exact ⟨rfl, rfl, rfl⟩

/-- The loop succeeds exactly if every release that it may call for does. -/
theorem Registry.deleteFrom_success (ok : Nat → Bool) (count : Nat) (s : Registry H) :
    (s.deleteFrom ok count).2 = true ↔
      ∀ n, n < count → s.referent n ≠ none → ok n = true := by
  induction count generalizing s with
  | zero => simp [Registry.deleteFrom]
  | succ idx ih =>
      rw [Registry.deleteFrom_succ, Nat.forall_lt_succ_right]
      cases hreferent : s.referent idx with
      | none => simp [ih]
      | some object =>
          cases hok : ok idx with
          | false => simp
          | true => simp [ih]

/-- After a loop that succeeds, everything its slots refer to is released. -/
theorem Registry.deleteFrom_released (ok : Nat → Bool) (count : Nat) (s : Registry H)
    (hsuccess : (s.deleteFrom ok count).2 = true) :
    (∀ object, s.Released object → (s.deleteFrom ok count).1.Released object) ∧
      ∀ n object, n < count → s.referent n = some object →
        (s.deleteFrom ok count).1.Released object := by
  induction count generalizing s with
  | zero => exact ⟨fun _ hreleased => hreleased, fun n _ hn _ => absurd hn (Nat.not_lt_zero n)⟩
  | succ idx ih =>
      rw [Registry.deleteFrom_succ] at hsuccess ⊢
      cases hreferent : s.referent idx with
      | none =>
          rw [hreferent] at hsuccess
          have hrest := ih (s.access idx) hsuccess
          apply And.intro hrest.1
          intro n object hn hobject
          rcases Nat.lt_succ_iff_lt_or_eq.mp hn with hlt | heq
          · exact hrest.2 n object hlt hobject
          · rw [heq, hreferent] at hobject
            exact absurd hobject (by simp)
      | some last =>
          rw [hreferent] at hsuccess
          cases hok : ok idx with
          | false => simp [hok] at hsuccess
          | true =>
              simp only [hok, if_true] at hsuccess ⊢
              have hrest := ih (s.afterRelease idx last) hsuccess
              apply And.intro
              · intro object hreleased
                exact hrest.1 object (by simp [hreleased])
              · intro n object hn hobject
                rcases Nat.lt_succ_iff_lt_or_eq.mp hn with hlt | heq
                · exact hrest.2 n object hlt hobject
                · rw [heq, hreferent, Option.some.injEq] at hobject
                  exact hrest.1 object (by simp [hobject])

theorem Registry.Fresh.of_reached {s : Registry H} {ok : Nat → Bool} {count count' : Nat}
    (hfresh : s.Fresh ok count)
    (hreached : ∀ n object, s.referent n = some object → s.Reached ok count' n →
      s.Reached ok count n) :
    s.Fresh ok count' where
  unreleased n object hn hobject :=
    hfresh.unreleased n object (hreached n object hobject hn) hobject
  distinct n n' object hn hn' hobject hobject' :=
    hfresh.distinct n n' object (hreached n object hobject hn) (hreached n' object hobject' hn')
      hobject hobject'

theorem Registry.fresh_access (s : Registry H) (idx : Int) (ok : Nat → Bool) (count : Nat) :
    (s.access idx).Fresh ok count ↔ s.Fresh ok count :=
  ⟨fun hfresh => ⟨hfresh.unreleased, hfresh.distinct⟩,
    fun hfresh => ⟨hfresh.unreleased, hfresh.distinct⟩⟩

theorem Registry.fresh_afterRelease {s : Registry H} {ok : Nat → Bool} {idx object : Nat}
    (hreferent : s.referent idx = some object) (hok : ok idx = true) :
    s.Fresh ok (idx + 1) ↔
      ¬ s.Released object ∧ (s.afterRelease idx object).Fresh ok idx := by
  have hsucc : ∀ n, s.Reached ok (idx + 1) n ↔ n = idx ∨ s.Reached ok idx n :=
    Registry.reached_succ fun _ => hok
  constructor
  · intro hfresh
    apply And.intro (hfresh.unreleased idx object (s.reached_last ok idx) hreferent)
    constructor
    case unreleased =>
      intro n object' hreached hobject'
      have hlater := (hsucc n).mpr (Or.inr hreached)
      rw [Registry.released_afterRelease]
      rintro (heq | hreleased)
      · have hidx := hfresh.distinct n idx object' hlater (s.reached_last ok idx) hobject'
          (by rw [heq, hreferent])
        have := hreached.1
        omega
      · exact hfresh.unreleased n object' hlater hobject' hreleased
    case distinct =>
      intro n n' object' hreached hreached'
      exact hfresh.distinct n n' object' ((hsucc n).mpr (Or.inr hreached))
        ((hsucc n').mpr (Or.inr hreached'))
  · rintro ⟨hunreleased, hfresh⟩
    have hother : ∀ n, s.Reached ok idx n → s.referent n ≠ some object := by
      intro n hreached hobject
      apply hfresh.unreleased n object hreached hobject
      simp
    constructor
    case unreleased =>
      intro n object' hreached hobject' hreleased
      rcases (hsucc n).mp hreached with heq | hrest
      · rw [heq, hreferent, Option.some.injEq] at hobject'
        exact hunreleased (hobject' ▸ hreleased)
      · apply hfresh.unreleased n object' hrest hobject'
        simp [hreleased]
    case distinct =>
      intro n n' object' hreached hreached' hobject' hobject''
      rcases (hsucc n).mp hreached with heq | hrest
      · rw [heq, hreferent] at hobject'
        rcases (hsucc n').mp hreached' with heq' | hrest'
        · rw [heq, heq']
        · exact absurd (hobject''.trans hobject'.symm) (hother n' hrest')
      · rcases (hsucc n').mp hreached' with heq' | hrest'
        · rw [heq', hreferent] at hobject''
          exact absurd (hobject'.trans hobject''.symm) (hother n hrest)
        · exact hfresh.distinct n n' object' hrest hrest' hobject' hobject''

theorem Registry.fresh_of_failure {s : Registry H} {ok : Nat → Bool} {idx object : Nat}
    (hreferent : s.referent idx = some object) (hok : ok idx = false) :
    s.Fresh ok (idx + 1) ↔ ¬ s.Released object := by
  have hsome : s.referent idx ≠ none := by simp [hreferent]
  constructor
  · intro hfresh
    exact hfresh.unreleased idx object (s.reached_last ok idx) hreferent
  · intro hunreleased
    constructor
    case unreleased =>
      intro n object' hreached hobject'
      rw [Registry.reached_of_failure hsome hok hreached, hreferent,
        Option.some.injEq] at hobject'
      exact hobject' ▸ hunreleased
    case distinct =>
      intro n n' object' hreached hreached' _ _
      rw [Registry.reached_of_failure hsome hok hreached,
        Registry.reached_of_failure hsome hok hreached']

theorem Registry.fresh_of_null {s : Registry H} {ok : Nat → Bool} {idx : Nat}
    (hreferent : s.referent idx = none) :
    s.Fresh ok (idx + 1) ↔ s.Fresh ok idx := by
  have hsucc : ∀ n object, s.referent n = some object →
      (s.Reached ok (idx + 1) n ↔ s.Reached ok idx n) := by
    intro n object hobject
    have hne : n ≠ idx := by
      intro heq
      rw [heq, hreferent] at hobject
      exact absurd hobject (by simp)
    rw [Registry.reached_succ (fun hsome => absurd hreferent hsome)]
    simp [hne]
  constructor
  · intro hfresh
    exact hfresh.of_reached fun n object hobject => (hsucc n object hobject).mpr
  · intro hfresh
    exact hfresh.of_reached fun n object hobject => (hsucc n object hobject).mp

/-- The loop releases nothing a second time exactly if what it reaches is fresh. -/
theorem Registry.deleteFrom_again (ok : Nat → Bool) (count : Nat) (s : Registry H) :
    (s.deleteFrom ok count).1.again = [] ↔ s.again = [] ∧ s.Fresh ok count := by
  induction count generalizing s with
  | zero =>
      have hfresh : s.Fresh ok 0 :=
        ⟨fun n _ hreached => absurd hreached.1 (Nat.not_lt_zero n),
          fun n _ _ hreached => absurd hreached.1 (Nat.not_lt_zero n)⟩
      simp [Registry.deleteFrom, hfresh]
  | succ idx ih =>
      rw [Registry.deleteFrom_succ]
      cases hreferent : s.referent idx with
      | none =>
          rw [Registry.fresh_of_null hreferent, ← s.fresh_access idx]
          exact ih (s.access idx)
      | some object =>
          cases hok : ok idx with
          | false =>
              rw [Registry.fresh_of_failure hreferent hok]
              exact (s.access idx).callRelease_again object
          | true =>
              rw [Registry.fresh_afterRelease hreferent hok, ← and_assoc]
              have hcall := (s.access idx).callRelease_again object
              exact (ih (s.afterRelease idx object)).trans (and_congr_left' hcall)

/-! ## The calls -/

/-- Only slots below the counter refer to anything. -/
def Registry.Below (s : Registry H) : Prop :=
  ∀ n, s.slots n ≠ none → n < s.num

theorem Registry.Below.referent {s : Registry H} (hs : s.Below) {n : Nat}
    (hreferent : s.referent n ≠ none) : n < s.num := by
  apply hs
  intro hnull
  apply hreferent
  simp [Registry.referent, hnull]

/-- After the call nothing has been released twice, and if it was a `DeleteAll*` that
succeeded, no slot refers to a released object. -/
structure ReleasedOnce [DecidableEq H] (kind : Kind) (s : Registry H) (c : Call H) : Prop where
  once : (s.call kind c).again = []
  cleared : ∀ ok, c = .deleteAll ok → (s.deleteAll ok).2 = true →
    ∀ n object, (s.deleteAll ok).1.referent n = some object →
      ¬ (s.deleteAll ok).1.Released object

/-- What the call releases has not been released before; a `DeleteAll*` finds no object at
all, or else it reaches one whose release fails. -/
def Clean (s : Registry H) : Call H → Prop
  | .create _ _ _ => True
  | .delete h _ => ∀ object, (s.info h).object = some object → ¬ s.Released object
  | .deleteAll ok =>
      (∀ n, s.referent n = none) ∨
        (∃ n, s.referent n ≠ none ∧ ok n = false) ∧ s.Fresh ok s.num

theorem Registry.delete_again (kind : Kind) (s : Registry H) (h : H) (ok : Bool) :
    (s.delete kind h ok).again = [] ↔
      s.again = [] ∧ ∀ object, (s.info h).object = some object → ¬ s.Released object := by
  unfold Registry.delete
  cases hobject : (s.info h).object with
  | none => simp
  | some object =>
      have hcall : (s.callRelease object).again = [] ↔ s.again = [] ∧ ¬ s.Released object :=
        s.callRelease_again object
      cases ok with
      | false => simpa using hcall
      | true => simpa using hcall

/-- A `DeleteAll*` meets the property exactly if it is clean: if it succeeds and a slot
refers to an object, that slot still does afterwards. -/
theorem Registry.Below.deleteAll_iff [DecidableEq H] {s : Registry H} (hs : s.Below)
    (kind : Kind) (hagain : s.again = []) (ok : Nat → Bool) :
    ReleasedOnce kind s (.deleteAll ok) ↔ Clean s (.deleteAll ok) := by
  have hloop := Registry.deleteFrom_again ok s.num s
  have hsuccess := Registry.deleteFrom_success ok s.num s
  have hreferent : (s.deleteAll ok).1.referent = s.referent :=
    have hframe := Registry.deleteFrom_frame ok s.num s
    Registry.referent_congr hframe.1 hframe.2.1
  constructor
  · intro hreleased
    have hfresh : s.Fresh ok s.num := (hloop.mp hreleased.once).2
    by_cases hnull : ∀ n, s.referent n = none
    · exact Or.inl hnull
    · apply Or.inr (And.intro _ hfresh)
      by_contra hall
      apply hnull
      intro n
      by_contra hsome
      have hok : (s.deleteAll ok).2 = true := by
        apply hsuccess.mpr
        intro m _ hm
        by_contra hfail
        exact hall ⟨m, hm, by simpa using hfail⟩
      cases hobject : s.referent n with
      | none => exact hsome hobject
      | some object =>
          apply hreleased.cleared ok rfl hok n object (by rw [hreferent, hobject])
          exact (Registry.deleteFrom_released ok s.num s hok).2 n object
            (hs.referent hsome) hobject
  · intro hclean
    rcases hclean with hnull | ⟨⟨n, hsome, hfail⟩, hfresh⟩
    · constructor
      case once =>
        apply hloop.mpr
        refine ⟨hagain, ?_, ?_⟩
        · intro n object _ hobject
          rw [hnull] at hobject
          exact absurd hobject (by simp)
        · intro n n' object _ _ hobject
          rw [hnull] at hobject
          exact absurd hobject (by simp)
      case cleared =>
        intro ok' heq _ n object hobject
        cases heq
        rw [hreferent, hnull] at hobject
        exact absurd hobject (by simp)
    · constructor
      case once => exact hloop.mpr ⟨hagain, hfresh⟩
      case cleared =>
        intro ok' heq hok
        cases heq
        have hn := hsuccess.mp hok n (hs.referent hsome) hsome
        rw [hfail] at hn
        exact absurd hn (by simp)

/-- One call. -/
theorem Registry.Below.releasedOnce_iff [DecidableEq H] {s : Registry H} (hs : s.Below)
    (kind : Kind) (hagain : s.again = []) (c : Call H) :
    ReleasedOnce kind s c ↔ Clean s c := by
  cases c with
  | create h addList result =>
      have hcreate : (s.create kind h addList result).again = [] := by
        rw [← hagain]
        cases result with
        | ok =>
            unfold Registry.create
            dsimp only
            split <;> rfl
        | failed => rfl
        | late => rfl
      exact ⟨fun _ => trivial, fun _ => ⟨hcreate, fun ok heq => by cases heq⟩⟩
  | delete h ok =>
      have hdelete := s.delete_again kind h ok
      constructor
      · intro hreleased
        exact (hdelete.mp hreleased.once).2
      · intro hclean
        exact ⟨hdelete.mpr ⟨hagain, hclean⟩, fun ok' heq => by cases heq⟩
  | deleteAll ok => exact hs.deleteAll_iff kind hagain ok

theorem Registry.Below.call [DecidableEq H] {s : Registry H} (hs : s.Below) (kind : Kind)
    (c : Call H) : (s.call kind c).Below := by
  cases c with
  | create h addList result =>
      cases result with
      | failed => exact hs
      | late => exact hs
      | ok =>
          unfold Registry.call Registry.create
          dsimp only
          split
          · exact hs
          · intro n hn
            show n < s.num + 1
            by_cases heq : n = s.num
            · omega
            · have hold : s.slots n ≠ none := by
                simpa [Function.update_of_ne heq] using hn
              exact Nat.lt_succ_of_lt (hs n hold)
  | delete h ok =>
      unfold Registry.call Registry.delete
      dsimp only
      split
      · exact hs
      · split
        · unfold Registry.clear
          split
          · exact hs
          · intro n hn
            apply hs n
            intro hnull
            apply hn
            dsimp only
            split
            · exact hnull
            · by_cases heq : n = (s.info h).listIdx.toNat
              · rw [heq, Function.update_self]
              · rw [Function.update_of_ne heq]
                exact hnull
        · exact hs
  | deleteAll ok =>
      have hframe := Registry.deleteFrom_frame ok s.num s
      intro n hn
      unfold Registry.call Registry.deleteAll at hn ⊢
      dsimp only at hn ⊢
      rw [hframe.1] at hn
      rw [hframe.2.2]
      exact hs n hn

/-! ## Runs -/

section Runs

variable [DecidableEq H]

/-- Every call of the sequence releases once. -/
def ReleasedOnceRun : Registries H → List (Kind × Call H) → Prop
  | _, [] => True
  | r, c :: cs => ReleasedOnce c.1 (r c.1) c.2 ∧ ReleasedOnceRun (r.call c) cs

/-- Every call of the sequence is clean. -/
def CleanRun : Registries H → List (Kind × Call H) → Prop
  | _, [] => True
  | r, c :: cs => Clean (r c.1) c.2 ∧ CleanRun (r.call c) cs

theorem releasedOnceRun_iff (cs : List (Kind × Call H)) {r : Registries H}
    (hr : ∀ kind, (r kind).Below ∧ (r kind).again = []) :
    ReleasedOnceRun r cs ↔ CleanRun r cs := by
  induction cs generalizing r with
  | nil => rfl
  | cons c cs ih =>
      have hstep := (hr c.1).1.releasedOnce_iff c.1 (hr c.1).2 c.2
      have hkeep : ReleasedOnce c.1 (r c.1) c.2 →
          ∀ kind, (r.call c kind).Below ∧ (r.call c kind).again = [] := by
        intro hreleased kind
        unfold Registries.call
        by_cases hkind : kind = c.1
        · rw [hkind, Function.update_self]
          exact ⟨(hr c.1).1.call c.1 c.2, hreleased.once⟩
        · rw [Function.update_of_ne hkind]
          exact hr kind
      constructor
      · rintro ⟨hfirst, hrest⟩
        exact ⟨hstep.mp hfirst, (ih (hkeep hfirst)).mp hrest⟩
      · rintro ⟨hfirst, hrest⟩
        have hreleased := hstep.mpr hfirst
        exact ⟨hreleased, (ih (hkeep hreleased)).mpr hrest⟩

/-- In every sequence of calls, nothing is released twice and every successful `DeleteAll*`
leaves no slot that refers to a released object, exactly if every call is clean. -/
theorem released_once_iff (cs : List (Kind × Call H)) :
    ReleasedOnceRun Registries.start cs ↔ CleanRun Registries.start cs := by
  apply releasedOnceRun_iff
  intro kind
  apply And.intro
  · intro n hn
    exact absurd rfl hn
  · rfl

end Runs

/-- `DeleteAllThread` called twice joins the thread twice. -/
theorem delete_all_twice :
    ¬ ∀ cs : List (Kind × Call Unit), ReleasedOnceRun Registries.start cs := by
  intro hall
  have hrun := hall [(.thread, .create () true .ok), (.thread, .deleteAll fun _ => true),
    (.thread, .deleteAll fun _ => true)]
  exact absurd hrun.2.2.1.once (by decide)

end Thread
end DtCore
