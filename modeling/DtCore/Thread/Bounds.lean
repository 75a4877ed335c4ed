import DtCore.Thread.Registry

/-!
# The bounds of the registries

The counter of a registry is the number of objects ever registered: deleting an object
clears its slot and gives no index back.  So the accesses stay inside the array exactly as
long as the number of creations does, however few objects exist at a time.

Main results:

- Structure `Filled`: the accessed indices are those below the counter.
- Theorem `in_bounds_iff`: when all accesses are inside the arrays.
- Theorem `thirty_third_thread_out_of_bounds`: threads created and deleted one at a time.
-/

namespace DtCore
namespace Thread

variable {H : Type}

/-! ## Runs without failures -/

/-- A successful creation with `addList`, or the successful deletion of an object that
exists. -/
def Legal (s : Registry H) : Call H → Prop
  | .create _ addList result => addList = true ∧ result = .ok
  | .delete h ok => ok = true ∧ ∃ object, (s.info h).object = some object ∧ ¬ s.Released object
  | .deleteAll _ => False

/-- All calls are legal, and no more objects exist at a time than the arrays have slots. -/
def LegalRun [DecidableEq H] : Registries H → List (Kind × Call H) → Prop
  | _, [] => True
  | r, c :: cs =>
      Legal (r c.1) c.2 ∧ (∀ kind, (r.call c kind).existing.length ≤ kind.capacity) ∧
        LegalRun (r.call c) cs

/-- Every accessed index is inside the array. -/
def InBounds (kind : Kind) (s : Registry H) : Prop :=
  ∀ idx ∈ s.accessed, 0 ≤ idx ∧ idx < kind.capacity

/-- No two existing objects have been handed the same index. -/
def DistinctIdx (s : Registry H) : Prop :=
  ∀ object object' idx, (object, idx) ∈ s.handed → (object', idx) ∈ s.handed →
    object ∈ s.existing → object' ∈ s.existing → object = object'

/-- The call creates an object. -/
def Call.creates : Call H → Bool
  | .create _ _ _ => true
  | _ => false

/-- The number of creations in one registry. -/
def creations (kind : Kind) (cs : List (Kind × Call H)) : Nat :=
  cs.countP fun c => c.1 == kind && c.2.creates

/-! ## The counter -/

/-- The accessed indices are those below the counter, and each index below it was handed
out once. -/
structure Filled (s : Registry H) : Prop where
  accessed_lt : ∀ idx ∈ s.accessed, 0 ≤ idx ∧ idx < s.num
  accessed_all : ∀ n, n < s.num → (n : Int) ∈ s.accessed
  listIdx_lt : ∀ h object, (s.info h).object = some object →
    0 ≤ (s.info h).listIdx ∧ (s.info h).listIdx < s.num
  handed_lt : ∀ object idx, (object, idx) ∈ s.handed → idx < s.num
  handed_inj : ∀ object object' idx, (object, idx) ∈ s.handed → (object', idx) ∈ s.handed →
    object = object'

theorem filled_start : Filled (Registry.start : Registry H) where
  accessed_lt := by simp [Registry.start]
  accessed_all := by simp [Registry.start]
  listIdx_lt := by simp [Registry.start]
  handed_lt := by simp [Registry.start]
  handed_inj := by simp [Registry.start]

section Steps

variable [DecidableEq H]

theorem Filled.create {s : Registry H} (hs : Filled s) (kind : Kind) (h : H) :
    Filled (s.create kind h true .ok) ∧ (s.create kind h true .ok).num = s.num + 1 := by
  have hcreate : s.create kind h true .ok =
      { s.access s.num with
        slots := Function.update s.slots s.num (some h)
        info := Function.update s.info h { object := some s.created, listIdx := s.num }
        num := s.num + 1
        created := s.created + 1
        handed := (s.created, (s.num : Int)) :: s.handed } := by
    simp [Registry.create]
  rw [hcreate]
  apply And.intro
  · constructor
    case accessed_lt =>
      intro idx hidx
      show 0 ≤ idx ∧ idx < ((s.num + 1 : Nat) : Int)
      rcases List.mem_cons.mp hidx with heq | hold
      · omega
      · have := hs.accessed_lt idx hold
        omega
    case accessed_all =>
      intro n hn
      rcases Nat.lt_succ_iff_lt_or_eq.mp hn with hlt | heq
      · exact List.mem_cons_of_mem _ (hs.accessed_all n hlt)
      · rw [heq]
        exact List.mem_cons_self
    case listIdx_lt =>
      intro h' object hobject
      show 0 ≤ (Function.update s.info h _ h').listIdx ∧
        (Function.update s.info h _ h').listIdx < ((s.num + 1 : Nat) : Int)
      by_cases hh : h' = h
      · rw [hh, Function.update_self]
        dsimp only
        omega
      · rw [Function.update_of_ne hh]
        have hold : (s.info h').object = some object := by
          rw [← hobject]
          show _ = (Function.update s.info h _ h').object
          rw [Function.update_of_ne hh]
        have := hs.listIdx_lt h' object hold
        omega
    case handed_lt =>
      intro object idx hidx
      show idx < ((s.num + 1 : Nat) : Int)
      rcases List.mem_cons.mp hidx with heq | hold
      · have hnum : idx = s.num := (Prod.mk.inj heq).2
        omega
      · have := hs.handed_lt object idx hold
        omega
    case handed_inj =>
      intro object object' idx hidx hidx'
      rcases List.mem_cons.mp hidx with heq | hold
      · rcases List.mem_cons.mp hidx' with heq' | hold'
        · rw [(Prod.mk.inj heq).1, (Prod.mk.inj heq').1]
        · have hlt := hs.handed_lt object' idx hold'
          have hnum : idx = s.num := (Prod.mk.inj heq).2
          omega
      · rcases List.mem_cons.mp hidx' with heq' | hold'
        · have hlt := hs.handed_lt object idx hold
          have hnum : idx = s.num := (Prod.mk.inj heq').2
          omega
        · exact hs.handed_inj object object' idx hold hold'
  · rfl

omit [DecidableEq H] in
theorem Filled.delete {s : Registry H} (hs : Filled s) (kind : Kind) {h : H} {object : Nat}
    (hobject : (s.info h).object = some object) :
    Filled (s.delete kind h true) ∧ (s.delete kind h true).num = s.num := by
  have hidx := hs.listIdx_lt h object hobject
  have hdelete : s.delete kind h true =
      { ({ s.callRelease object with deleted := object :: s.deleted } : Registry H).access
          (s.info h).listIdx with
        slots := Function.update s.slots (s.info h).listIdx.toNat none } := by
    have hneg : ¬ (s.info h).listIdx < 0 := by omega
    unfold Registry.delete
    rw [hobject]
    simp only [if_true, Registry.clear, hneg, and_false, if_false]
    rfl
  rw [hdelete]
  apply And.intro
  · constructor
    case accessed_lt =>
      intro idx hmem
      rcases List.mem_cons.mp hmem with heq | hold
      · rw [heq]
        exact hidx
      · exact hs.accessed_lt idx hold
    case accessed_all =>
      intro n hn
      exact List.mem_cons_of_mem _ (hs.accessed_all n hn)
    case listIdx_lt => exact hs.listIdx_lt
    case handed_lt => exact hs.handed_lt
    case handed_inj => exact hs.handed_inj
  · rfl

/-- A legal call keeps the registry filled and counts the creations. -/
theorem Filled.call {s : Registry H} (hs : Filled s) (kind : Kind) {c : Call H}
    (hlegal : Legal s c) :
    Filled (s.call kind c) ∧ (s.call kind c).num = s.num + c.creates.toNat := by
  cases c with
  | create h addList result =>
      rcases hlegal with ⟨rfl, rfl⟩
      exact hs.create kind h
  | delete h ok =>
      rcases hlegal with ⟨rfl, object, hobject, _⟩
      exact hs.delete kind hobject
  | deleteAll ok => exact hlegal.elim

theorem filled_calls (cs : List (Kind × Call H)) {r : Registries H}
    (hr : ∀ kind, Filled (r kind)) (hlegal : LegalRun r cs) (kind : Kind) :
    Filled (r.calls cs kind) ∧ (r.calls cs kind).num = (r kind).num + creations kind cs := by
  induction cs generalizing r with
  | nil => exact ⟨hr kind, rfl⟩
  | cons c cs ih =>
      have hstep := (hr c.1).call c.1 hlegal.1
      have hfilled : ∀ kind, Filled (r.call c kind) := by
        intro kind
        unfold Registries.call
        by_cases hkind : kind = c.1
        · rw [hkind, Function.update_self]
          exact hstep.1
        · rw [Function.update_of_ne hkind]
          exact hr kind
      have hrest := ih hfilled hlegal.2.2
      apply And.intro hrest.1
      show ((r.call c).calls cs kind).num = _
      rw [hrest.2]
      unfold creations Registries.call
      rw [List.countP_cons]
      by_cases hkind : kind = c.1
      · rw [hkind, Function.update_self, hstep.2]
        cases hcreates : c.2.creates
        · simp
        · simp
          omega
      · rw [Function.update_of_ne hkind]
        have hne : (c.1 == kind) = false := by simpa using Ne.symm hkind
        simp [hne]

/-- The counters are the numbers of creations. -/
theorem filled_run (cs : List (Kind × Call H)) (hlegal : LegalRun Registries.start cs)
    (kind : Kind) :
    Filled (Registries.start.calls cs kind) ∧
      (Registries.start.calls cs kind).num = creations kind cs := by
  have hfilled : Filled (Registries.start.calls cs kind) ∧
      (Registries.start.calls cs kind).num = (Registries.start kind).num + creations kind cs :=
    filled_calls cs (fun _ => filled_start) hlegal kind
  apply And.intro hfilled.1
  rw [hfilled.2]
  exact Nat.zero_add _

omit [DecidableEq H] in
/-- The accesses of a filled registry are inside the array exactly if its counter is. -/
theorem Filled.inBounds_iff {s : Registry H} (hs : Filled s) (kind : Kind) :
    InBounds kind s ↔ s.num ≤ kind.capacity := by
  constructor
  · intro hin
    by_contra hlt
    have hlast := hin kind.capacity (hs.accessed_all kind.capacity (Nat.lt_of_not_le hlt))
    exact Int.lt_irrefl _ hlast.2
  · intro hle idx hidx
    have := hs.accessed_lt idx hidx
    omega

/-! ## One object at a time -/

/-- Everything created has been released, and nothing else. -/
def AllReleased (s : Registry H) : Prop :=
  ∀ object, s.Released object ↔ object < s.created

omit [DecidableEq H] in
theorem AllReleased.existing {s : Registry H} (hs : AllReleased s) : s.existing = [] := by
  apply List.filter_eq_nil_iff.mpr
  intro object hobject
  simp [(hs object).mpr (List.mem_range.mp hobject)]

/-- `n` times an object is created in the same structure and deleted. -/
def rounds (kind : Kind) (h : H) : Nat → List (Kind × Call H)
  | 0 => []
  | n + 1 => (kind, .create h true .ok) :: (kind, .delete h true) :: rounds kind h n

omit [DecidableEq H] in
theorem creations_rounds (kind : Kind) (h : H) (n : Nat) :
    creations kind (rounds kind h n) = n := by
  induction n with
  | zero => rfl
  | succ n ih =>
      unfold creations at ih ⊢
      rw [rounds, List.countP_cons, List.countP_cons, ih]
      simp [Call.creates]

/-- Between the two calls of a round there is one object. -/
theorem existing_create {s : Registry H} (hs : AllReleased s) (kind : Kind) (h : H) :
    (s.create kind h true .ok).existing.length ≤ 1 := by
  have hexisting : (s.create kind h true .ok).existing =
      (List.range (s.created + 1)).filter fun object => ¬ s.Released object := by
    simp [Registry.create, Registry.existing, Registry.access, Registry.Released]
  have hold : (List.range s.created).filter (fun object => ¬ s.Released object) = [] :=
    hs.existing
  rw [hexisting, List.range_succ, List.filter_append, hold, List.nil_append]
  exact List.length_filter_le _ _

theorem legal_delete {s : Registry H} (hs : AllReleased s) (kind : Kind) (h : H) :
    Legal (s.create kind h true .ok) (.delete h true) := by
  apply And.intro rfl
  refine ⟨s.created, by simp [Registry.create], ?_⟩
  intro hreleased
  have hlt := (hs s.created).mp
    (by simpa [Registry.create, Registry.access, Registry.Released] using hreleased)
  exact Nat.lt_irrefl _ hlt

theorem AllReleased.round {s : Registry H} (hs : AllReleased s) (kind : Kind) (h : H) :
    AllReleased ((s.create kind h true .ok).delete kind h true) := by
  intro object
  have hold := hs object
  have hreleased : ((s.create kind h true .ok).delete kind h true).Released object ↔
      object = s.created ∨ s.Released object := by
    simp [Registry.create, Registry.delete, Registry.callRelease, Registry.access,
      Registry.Released, or_assoc]
  have hcreated : ((s.create kind h true .ok).delete kind h true).created = s.created + 1 := by
    simp [Registry.create, Registry.delete, Registry.callRelease, Registry.access]
  rw [hreleased, hcreated, hold]
  omega

theorem legalRun_rounds (kind : Kind) (h : H) (n : Nat) {r : Registries H}
    (hr : ∀ kind, AllReleased (r kind)) : LegalRun r (rounds kind h n) := by
  have hroom : ∀ kind' : Kind, 1 ≤ kind'.capacity := by
    intro kind'
    cases kind' <;> decide
  induction n generalizing r with
  | zero => trivial
  | succ n ih =>
      have hcreate : ∀ kind', (r.call (kind, .create h true .ok) kind').existing.length ≤ 1 := by
        intro kind'
        unfold Registries.call
        by_cases hkind : kind' = kind
        · rw [hkind, Function.update_self]
          exact existing_create (hr kind) kind h
        · rw [Function.update_of_ne hkind, (hr kind').existing]
          exact Nat.zero_le 1
      have hround : ∀ kind', AllReleased
          ((r.call (kind, .create h true .ok)).call (kind, .delete h true) kind') := by
        intro kind'
        unfold Registries.call
        by_cases hkind : kind' = kind
        · rw [hkind, Function.update_self, Function.update_self]
          exact (hr kind).round kind h
        · rw [Function.update_of_ne hkind, Function.update_of_ne hkind]
          exact hr kind'
      refine ⟨⟨rfl, rfl⟩, fun kind' => (hcreate kind').trans (hroom kind'), ?_, ?_, ih hround⟩
      · show Legal (r.call (kind, .create h true .ok) kind) (.delete h true)
        unfold Registries.call
        rw [Function.update_self]
        exact legal_delete (hr kind) kind h
      · intro kind'
        rw [(hround kind').existing]
        exact Nat.zero_le _

omit [DecidableEq H] in
theorem allReleased_start : AllReleased (Registry.start : Registry H) := by
  intro object
  simp [Registry.start, Registry.Released]

/-! ## The exact condition -/

/-- In every sequence of successful creations and deletions with no more objects at a
time than slots, all accessed indices are inside the arrays, and each index handed out
belongs to at most one existing object, exactly if no array is given more creations than
it has slots. -/
theorem in_bounds_iff (cs : List (Kind × Call H)) (hlegal : LegalRun Registries.start cs) :
    (∀ kind, InBounds kind (Registries.start.calls cs kind) ∧
        DistinctIdx (Registries.start.calls cs kind)) ↔
      ∀ kind, creations kind cs ≤ kind.capacity := by
  constructor
  · intro hall kind
    rw [← (filled_run cs hlegal kind).2]
    exact ((filled_run cs hlegal kind).1.inBounds_iff kind).mp (hall kind).1
  · intro hle kind
    have hfilled := filled_run cs hlegal kind
    apply And.intro
    · rw [hfilled.1.inBounds_iff, hfilled.2]
      exact hle kind
    · intro object object' idx hidx hidx' _ _
      exact hfilled.1.handed_inj object object' idx hidx hidx'

end Steps

/-- Two semaphores, one after the other. -/
theorem in_bounds_iff_two_semaphores :
    LegalRun Registries.start (rounds Kind.semaphore () 2) ∧
      ∀ kind, InBounds kind (Registries.start.calls (rounds Kind.semaphore () 2) kind) ∧
        DistinctIdx (Registries.start.calls (rounds Kind.semaphore () 2) kind) := by
  have hlegal : LegalRun Registries.start (rounds Kind.semaphore () 2) :=
    legalRun_rounds _ _ 2 fun _ => allReleased_start
  have hfew : ∀ kind, creations kind (rounds Kind.semaphore () 2) ≤ kind.capacity := by
    intro kind
    cases kind <;> decide
  exact ⟨hlegal, (in_bounds_iff _ hlegal).mpr hfew⟩

/-- Threads that are created and deleted one at a time leave the array with the 33rd. -/
theorem thirty_third_thread_out_of_bounds :
    ¬ ∀ cs : List (Kind × Call Unit), LegalRun Registries.start cs →
      ∀ kind, InBounds kind (Registries.start.calls cs kind) ∧
        DistinctIdx (Registries.start.calls cs kind) := by
  intro hall
  have hlegal : LegalRun Registries.start (rounds Kind.thread () 33) :=
    legalRun_rounds _ _ 33 fun _ => allReleased_start
  have hfilled := filled_run _ hlegal Kind.thread
  have hle := (hfilled.1.inBounds_iff _).mp (hall _ hlegal Kind.thread).1
  rw [hfilled.2, creations_rounds] at hle
  exact absurd hle (by decide)

end Thread
end DtCore
