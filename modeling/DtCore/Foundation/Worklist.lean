import Mathlib.Data.Set.Card
import Mathlib.Data.List.Nodup
import Mathlib.Data.List.Dedup
import Mathlib.Logic.Relation

/-!
# Worklist search

A search of a graph with a queue.  A vertex is put in the queue when its key is met
for the first time, so that the search tells vertices apart by their keys only.

Main definitions:

- `Search.discover`: queue the vertices of a list whose keys are new.
- `Search.run`: visit what is in the queue, for a number of rounds.
- `Search.Found`: what the search knows of the graph.

Main results:

- Theorem `Search.run_finds`: when different reachable vertices have different keys
  and there are finitely many of them, enough rounds visit each of them once and
  nothing else.
- Theorem `Search.run_mono`: more rounds make no difference.
-/

namespace DtCore
namespace Foundation

variable {V κ : Type}

/-- The vertices to visit, the keys that were met and the vertices that were visited. -/
structure Search (V κ : Type) where
  queue : List V
  seen : Finset κ
  visited : List V

namespace Search

section Definitions

variable (key : V → κ) (succ : V → List V)

/-- The search before its first round. -/
def start (root : V) : Search V κ where
  queue := [root]
  seen := {key root}
  visited := []

/-- A path leads from one vertex to another. -/
def Leads : V → V → Prop :=
  Relation.ReflTransGen (fun v w => w ∈ succ v)

/-- What was found so far is reachable, has no repetitions and is what was seen. -/
structure Found (root : V) (s : Search V κ) : Prop where
  nodup : (s.visited ++ s.queue).Nodup
  leads : ∀ v ∈ s.visited ++ s.queue, Leads succ root v
  seen : ∀ v, Leads succ root v → (key v ∈ s.seen ↔ v ∈ s.visited ++ s.queue)
  root_mem : root ∈ s.visited ++ s.queue

/-- The successors of the visited vertices were found. -/
def Closed (s : Search V κ) : Prop :=
  ∀ v ∈ s.visited, ∀ w ∈ succ v, w ∈ s.visited ++ s.queue

end Definitions

variable {key : V → κ} {succ : V → List V} {root : V}

theorem found_start (hkey : Set.InjOn key {v | Leads succ root v}) :
    Found key succ root (start key root) where
  nodup := by simp [start]
  leads := by
    intro v hv
    have hroot : v = root := by simpa [start] using hv
    rw [hroot]
    exact Relation.ReflTransGen.refl
  seen := by
    intro v hv
    have hsame : key v = key root ↔ v = root :=
      ⟨fun heq => hkey hv Relation.ReflTransGen.refl heq, fun heq => heq ▸ rfl⟩
    simpa [start] using hsame
  root_mem := by simp [start]

/-- No more vertices are found than are reachable. -/
theorem Found.length_le (hfin : {v | Leads succ root v}.Finite) {s : Search V κ}
    (h : Found key succ root s) :
    (s.visited ++ s.queue).length ≤ {v | Leads succ root v}.ncard := by
  classical
  have hsub : ((s.visited ++ s.queue).toFinset : Set V) ⊆ {v | Leads succ root v} := by
    intro v hv
    exact h.leads v (List.mem_toFinset.1 hv)
  have hcard := Set.ncard_le_ncard hsub hfin
  rwa [Set.ncard_coe_finset, List.toFinset_card_of_nodup h.nodup] at hcard

/-- A search that has ended has visited what is reachable. -/
theorem Found.mem_visited_iff {s : Search V κ} (h : Found key succ root s)
    (hclosed : Closed succ s) (hqueue : s.queue = []) {v : V} :
    v ∈ s.visited ↔ Leads succ root v := by
  have hvisited : s.visited ++ s.queue = s.visited := by rw [hqueue, List.append_nil]
  constructor
  · intro hv
    exact h.leads v (List.mem_append_left _ hv)
  · intro hv
    induction hv with
    | refl => exact hvisited ▸ h.root_mem
    | tail _ hw ih => exact hvisited ▸ hclosed _ ih _ hw

/-! ## One round -/

variable [DecidableEq κ]

/-- Queue the vertices whose keys are new. -/
def discover (key : V → κ) : Search V κ → List V → Search V κ
  | s, [] => s
  | s, v :: vs =>
      if key v ∈ s.seen then discover key s vs
      else discover key { s with queue := s.queue ++ [v], seen := insert (key v) s.seen } vs

/-- The rounds of the search; `none` when they do not empty the queue. -/
def run (key : V → κ) (succ : V → List V) : Nat → Search V κ → Option (Search V κ)
  | _, ⟨[], seen, visited⟩ => some ⟨[], seen, visited⟩
  | 0, ⟨_ :: _, _, _⟩ => none
  | n + 1, ⟨v :: queue, seen, visited⟩ =>
      run key succ n (discover key ⟨queue, seen, visited ++ [v]⟩ (succ v))

@[simp]
theorem discover_visited (s : Search V κ) (vs : List V) :
    (discover key s vs).visited = s.visited := by
  induction vs generalizing s with
  | nil => rfl
  | cons v vs ih =>
      rw [discover]
      split
      · exact ih s
      · exact ih _

/-- Discovering only adds to the queue. -/
theorem mem_discover_of_mem {s : Search V κ} {w : V} (h : w ∈ s.visited ++ s.queue)
    (vs : List V) : w ∈ (discover key s vs).visited ++ (discover key s vs).queue := by
  induction vs generalizing s with
  | nil => exact h
  | cons v vs ih =>
      rw [discover]
      split
      · exact ih h
      · apply ih
        rw [← List.append_assoc]
        exact List.mem_append_left _ h

/-- Finding one more vertex. -/
theorem Found.push (hkey : Set.InjOn key {v | Leads succ root v}) {s : Search V κ}
    (h : Found key succ root s) {v : V} (hv : Leads succ root v) (hnew : key v ∉ s.seen) :
    Found key succ root
      { s with queue := s.queue ++ [v], seen := insert (key v) s.seen } where
  nodup := by
    have hfresh : v ∉ s.visited ++ s.queue := fun hmem => hnew ((h.seen v hv).2 hmem)
    rw [← List.append_assoc, ← List.concat_eq_append]
    exact h.nodup.concat hfresh
  leads := by
    intro w hw
    rw [← List.append_assoc, List.mem_append, List.mem_singleton] at hw
    rcases hw with hw | rfl
    · exact h.leads w hw
    · exact hv
  seen := by
    intro w hw
    have hsame : key w = key v ↔ w = v := ⟨fun heq => hkey hw hv heq, fun heq => heq ▸ rfl⟩
    rw [Finset.mem_insert, hsame, h.seen w hw, ← List.append_assoc, List.mem_append (s := _ ++ _),
      List.mem_singleton, or_comm]
  root_mem := by
    rw [← List.append_assoc]
    exact List.mem_append_left _ h.root_mem

theorem Found.discover (hkey : Set.InjOn key {v | Leads succ root v}) {s : Search V κ}
    (h : Found key succ root s) {vs : List V} (hvs : ∀ v ∈ vs, Leads succ root v) :
    Found key succ root (s.discover key vs) ∧
      ∀ v ∈ vs, v ∈ (s.discover key vs).visited ++ (s.discover key vs).queue := by
  induction vs generalizing s with
  | nil => exact ⟨h, fun v hv => by contradiction⟩
  | cons v vs ih =>
      rw [List.forall_mem_cons] at hvs
      rcases hvs with ⟨hv, hvs⟩
      rw [Search.discover, List.forall_mem_cons]
      split
      · rename_i hseen
        rcases ih h hvs with ⟨hfound, hmem⟩
        exact ⟨hfound, mem_discover_of_mem ((h.seen v hv).1 hseen) vs, hmem⟩
      · rename_i hnew
        have hpush := h.push hkey hv hnew
        rcases ih hpush hvs with ⟨hfound, hmem⟩
        exact ⟨hfound, mem_discover_of_mem (by simp) vs, hmem⟩

/-- Visiting the first vertex of the queue. -/
theorem Found.visit (hkey : Set.InjOn key {v | Leads succ root v}) {v : V} {queue visited : List V}
    {seen : Finset κ} (h : Found key succ root ⟨v :: queue, seen, visited⟩)
    (hclosed : Closed succ (⟨v :: queue, seen, visited⟩ : Search V κ)) :
    Found key succ root (Search.discover key ⟨queue, seen, visited ++ [v]⟩ (succ v)) ∧
      Closed succ (Search.discover key ⟨queue, seen, visited ++ [v]⟩ (succ v)) := by
  have hmove : visited ++ [v] ++ queue = visited ++ v :: queue := by simp
  have hsame : Found key succ root ⟨queue, seen, visited ++ [v]⟩ := by
    constructor <;> simp only [hmove]
    · exact h.nodup
    · exact h.leads
    · exact h.seen
    · exact h.root_mem
  have hsucc : ∀ w ∈ succ v, Leads succ root w := by
    intro w hw
    exact (h.leads v (by simp)).tail hw
  rcases hsame.discover hkey hsucc with ⟨hfound, hmem⟩
  apply And.intro hfound
  intro u hu w hw
  rw [discover_visited, List.mem_append, List.mem_singleton] at hu
  rcases hu with hu | rfl
  · apply mem_discover_of_mem
    simp only [hmove]
    exact hclosed u hu w hw
  · exact hmem w hw

/-! ## The run -/

/-- Every round visits one vertex, and there is no room for more than the reachable ones. -/
theorem run_found (hkey : Set.InjOn key {v | Leads succ root v})
    (hfin : {v | Leads succ root v}.Finite) {n : Nat} {s : Search V κ}
    (hfound : Found key succ root s) (hclosed : Closed succ s)
    (hn : {v | Leads succ root v}.ncard ≤ s.visited.length + n) :
    ∃ s', run key succ n s = some s' ∧ s'.queue = [] ∧ Found key succ root s' ∧
      Closed succ s' := by
  induction n generalizing s with
  | zero =>
      rcases s with ⟨queue, seen, visited⟩
      cases queue with
      | nil => exact ⟨_, by rw [run], rfl, hfound, hclosed⟩
      | cons v queue =>
          have hlen := hfound.length_le hfin
          simp only [List.length_append, List.length_cons] at hlen hn
          omega
  | succ n ih =>
      rcases s with ⟨queue, seen, visited⟩
      cases queue with
      | nil => exact ⟨_, by rw [run], rfl, hfound, hclosed⟩
      | cons v queue =>
          rcases hfound.visit hkey hclosed with ⟨hfound', hclosed'⟩
          rw [run]
          apply ih hfound' hclosed'
          simp only [discover_visited, List.length_append, List.length_singleton] at hn ⊢
          omega

/-- A search that has ended is not changed by more rounds. -/
theorem run_mono {n m : Nat} (hnm : n ≤ m) {s s' : Search V κ}
    (h : run key succ n s = some s') : run key succ m s = some s' := by
  induction n generalizing s m with
  | zero =>
      rcases s with ⟨queue, seen, visited⟩
      cases queue with
      | nil => rwa [run] at h ⊢
      | cons v queue => contradiction
  | succ n ih =>
      rcases s with ⟨queue, seen, visited⟩
      cases queue with
      | nil => rwa [run] at h ⊢
      | cons v queue =>
          cases m with
          | zero => omega
          | succ m =>
              rw [run] at h ⊢
              exact ih (Nat.le_of_succ_le_succ hnm) h

/-- The search ends and has visited every reachable vertex once. -/
theorem run_finds (hkey : Set.InjOn key {v | Leads succ root v})
    (hfin : {v | Leads succ root v}.Finite) {n : Nat}
    (hn : {v | Leads succ root v}.ncard ≤ n) :
    ∃ s, run key succ n (start key root) = some s ∧ s.visited.Nodup ∧
      ∀ v, v ∈ s.visited ↔ Leads succ root v := by
  have hclosed : Closed succ (start key root) := by
    intro v hv
    contradiction
  have hroom : {v | Leads succ root v}.ncard ≤ (start key root).visited.length + n := by
    rwa [start, List.length_nil, Nat.zero_add]
  rcases run_found hkey hfin (found_start hkey) hclosed hroom with
    ⟨s, hrun, hqueue, hfound, hclosed⟩
  exact ⟨s, hrun, hfound.nodup.of_append_left, fun v => hfound.mem_visited_iff hclosed hqueue⟩

end Search

end Foundation
end DtCore
