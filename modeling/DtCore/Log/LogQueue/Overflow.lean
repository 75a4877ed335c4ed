import DtCore.Log.LogQueue.Invariant
import DtCore.Log.LogQueue.Sequential

/-!
# The signed comparisons of the queue

`TryPush` and `TryPop` compare a slot's sequence number with a counter by subtracting
`int32_t` values.  Both are words of tickets that lie close together, but the words jump
from `2 ^ 31 - 1` to `-2 ^ 31`, and a subtraction across the jump does not fit into
`int32_t`.

Main results:

- Definition `State.seqTicket`: the true ticket behind a slot's sequence number.
- Inductive `Compares`: the comparisons with their operands and true tickets.
- Theorem `comparison_sound_iff`: when a comparison does not overflow and is right.
- Theorem `empty_pop_overflows`: `TryPop` on the empty queue after `2 ^ 31 - 1` messages.
-/

namespace DtCore
namespace Log
namespace LogQueue

open Foundation

variable {P Entry : Type}

/-! ## The ticket of a slot -/

/-- The unreleased ticket that slot `i` serves. -/
def State.windowTicket (N : Nat) (s : State P Entry) (i : Nat) : Nat :=
  s.popped.length + (i + (N - s.popped.length % N)) % N

/-- The ticket behind the sequence number of slot `i`: the one that it serves, or, if that
is published, the next one. -/
def State.seqTicket (N : Nat) (s : State P Entry) (i : Nat) : Nat :=
  if (s.slots i).seq = BitVec.ofNat 32 (s.windowTicket N i + 1) then s.windowTicket N i + 1
  else s.windowTicket N i

theorem windowTicket_ge (N : Nat) (s : State P Entry) (i : Nat) :
    s.popped.length ≤ s.windowTicket N i :=
  Nat.le_add_right _ _

theorem windowTicket_lt {N : Nat} (hN : 0 < N) (s : State P Entry) (i : Nat) :
    s.windowTicket N i < s.popped.length + N :=
  Nat.add_lt_add_left (Nat.mod_lt _ hN) _

theorem windowTicket_mod {N : Nat} (s : State P Entry) {i : Nat} (hi : i < N) :
    s.windowTicket N i % N = i := by
  have hlt := Nat.mod_lt s.popped.length (Nat.zero_lt_of_lt hi)
  unfold State.windowTicket
  rw [Nat.add_mod_mod]
  calc
    (s.popped.length + (i + (N - s.popped.length % N))) % N
        = (s.popped.length % N + (i + (N - s.popped.length % N))) % N := by
          rw [Nat.mod_add_mod]
    _ = (i + N) % N := by
          congr 1
          omega
    _ = i := by rw [Nat.add_mod_right, Nat.mod_eq_of_lt hi]

theorem seqTicket_ge (N : Nat) (s : State P Entry) (i : Nat) :
    s.popped.length ≤ s.seqTicket N i := by
  have hge := windowTicket_ge N s i
  unfold State.seqTicket
  split
  · omega
  · exact hge

theorem seqTicket_le {N : Nat} (hN : 0 < N) (s : State P Entry) (i : Nat) :
    s.seqTicket N i ≤ s.popped.length + N := by
  have hlt := windowTicket_lt hN s i
  unfold State.seqTicket
  split
  · omega
  · omega

/-- A slot holds the word of its ticket. -/
theorem Invariant.seq_eq {N : Nat} {s : State P Entry} (h : Invariant N s) {i : Nat}
    (hi : i < N) : (s.slots i).seq = BitVec.ofNat 32 (s.seqTicket N i) := by
  have hslot : s.slotOf N (s.windowTicket N i) = s.slots i := by
    unfold State.slotOf
    rw [windowTicket_mod s hi]
  have hge := windowTicket_ge N s i
  have hlt := windowTicket_lt (Nat.zero_lt_of_lt hi) s i
  unfold State.seqTicket
  by_cases hnext : (s.slots i).seq = BitVec.ofNat 32 (s.windowTicket N i + 1)
  · rw [if_pos hnext, hnext]
  · rw [if_neg hnext, ← hslot]
    by_cases hclaimed : s.windowTicket N i < s.claims.length
    · rcases h.claimed _ _ (List.getElem?_eq_getElem hclaimed) hge with hpub | hpend
      · exact absurd (hslot ▸ hpub.1) hnext
      · rcases (h.producers _).pending_owns hpend with ⟨entry, hown⟩
        exact hown.2.2
    · exact (h.free _ (Nat.le_of_not_lt hclaimed) hlt).1

/-! ## The comparisons -/

/-- The step compares the words `seq` and `head` of the tickets `q` and `t`. -/
inductive Compares (N : Nat) (s : State P Entry) :
    Label P Entry → BitVec 32 → BitVec 32 → Nat → Nat → Prop where
  | push {p : P} {entry : Entry} {head : BitVec 32} {t : Nat} :
      s.producers p = .loadSeq entry head t →
      Compares N s (.producer p) (s.slots (slotIndex N head)).seq head
        (s.seqTicket N (slotIndex N head)) t
  | pop {tail : BitVec 32} :
      s.consumer = .loadSeq tail →
      Compares N s .consumer (s.slots (slotIndex N tail)).seq (tail + 1)
        (s.seqTicket N (slotIndex N tail)) (s.popped.length + 1)

/-- The words compared are those of the tickets, which are not too far apart. -/
theorem Compares.near {N : Nat} {s : State P Entry} {l : Label P Entry}
    {seq head : BitVec 32} {q t : Nat} (hN : ValidCapacity N) (hinv : Invariant N s)
    (hfresh : FreshHeads (2 ^ 31) s l) (h : Compares N s l seq head q t) :
    seq = BitVec.ofNat 32 q ∧ head = BitVec.ofNat 32 t ∧ t ≤ q + 2 ^ 31 ∧
      q < t + 2 * 2 ^ 31 := by
  have hpos : 0 < N := Nat.lt_of_lt_of_le Nat.zero_lt_two hN.two_le
  have hle := hN.le
  cases h with
  | push hpc =>
      rename_i p entry
      have hok := hinv.producers p
      rw [hpc] at hok
      rcases hok with ⟨hword, hclaims⟩
      have hage : s.headAge p < 2 ^ 31 := hfresh
      unfold State.headAge at hage
      rw [hpc] at hage
      dsimp only at hage
      have hindex : slotIndex N head < N := by
        rw [hword, hN.slotIndex_eq]
        exact Nat.mod_lt t hpos
      have hge := seqTicket_ge N s (slotIndex N head)
      have hle' := seqTicket_le hpos s (slotIndex N head)
      have hroom := hinv.room
      have htail := hinv.tail_le
      refine ⟨hinv.seq_eq hindex, hword, ?_, ?_⟩
      · omega
      · omega
  | pop hpc =>
      have hok := hinv.consumer
      rw [hpc] at hok
      have hword : _ = BitVec.ofNat 32 s.popped.length := hok
      rw [hword, hN.slotIndex_eq]
      have hge := seqTicket_ge N s (s.popped.length % N)
      have hle' := seqTicket_le hpos s (s.popped.length % N)
      refine ⟨hinv.seq_eq (Nat.mod_lt _ hpos), ofNat_add_one 32 _, ?_, ?_⟩
      · omega
      · omega

variable [DecidableEq P] [Inhabited Entry]

/-- Every comparison of every run in which fewer than `2 ^ 31` claims happen between a load
of `m_head` and its uses: it does not overflow and its sign is that of the true distance,
exactly if that distance is below `2 ^ 31` and neither word jumps between the tickets. -/
theorem comparison_sound_iff {N : Nat} (hN : ValidCapacity N) {s : State P Entry}
    (hreach : Reach (step N) (FreshHeads (2 ^ 31)) initial s) {l : Label P Entry}
    (hfresh : FreshHeads (2 ^ 31) s l) {seq head : BitVec 32} {q t : Nat}
    (hcompares : Compares N s l seq head q t) :
    DifferenceSound 31 seq head q t ↔ q < t + 2 ^ 31 ∧ signedLap 31 q = signedLap 31 t := by
  have hqueue : Reachable N (2 ^ 31) s := hreach.mono fun _ _ hok => hok.claims
  have hinv : Invariant N s := hqueue.inv hN (by norm_num)
  rcases hcompares.near hN hinv hfresh with ⟨hseq, hhead, hlow, hhigh⟩
  rw [hseq, hhead]
  exact differenceSound_iff hlow hhigh

/-! ## Messages one at a time -/

theorem ValidCapacity.positive {N : Nat} (hN : ValidCapacity N) :
    Positive N ∧ N < 2 ^ 64 ∧ window N = N := by
  have hle := hN.le
  rcases hN with ⟨k, _, hk, hpow⟩
  exact ⟨⟨k, by omega, hpow⟩, by omega, Nat.min_eq_left (by omega)⟩

/-- A state in which `k` messages have been pushed and popped again and every call has
returned. -/
structure Passed (N : Nat) (s : State Unit Unit) (k : Nat) : Prop where
  reach : Reach (step N) (FreshHeads (2 ^ 31)) initial s
  holds : Holds N s.memory k []
  claims : s.claims.length = k
  popped : s.popped.length = k
  producer : s.producers () = .idle ∨ ∃ ok, s.producers () = .returned ok
  consumer : s.consumer = .idle ∨ ∃ out, s.consumer = .returned out

theorem exists_passed {N : Nat} (hN : ValidCapacity N) (k : Nat) :
    ∃ s, Passed N s k := by
  rcases hN.positive with ⟨hpositive, hlt, hwindow⟩
  have hpos := hpositive.pos
  have hmono : ∀ {s s' : State Unit Unit}, Reach (step N) (FreshHeads 1) s s' →
      Reach (step N) (FreshHeads (2 ^ 31)) s s' :=
    fun hreach => hreach.mono fun _ _ hok => hok.mono (by decide)
  induction k with
  | zero =>
      exact ⟨initial, Reach.start, holds_start N, rfl, rfl, Or.inl rfl, Or.inl rfl⟩
  | succ k ih =>
      rcases ih with ⟨s, hs⟩
      have hempty : Holds (window N) s.memory k [] := hwindow.symm ▸ hs.holds
      rcases hempty.tryPush_room hpositive hpositive.window_pos () 0 with ⟨m₁, hpush, hholds₁⟩
      rcases tryPush_run hpos hlt hs.producer hpush with ⟨s₁, hreach₁, hpushed⟩
      rw [← hpushed.memory] at hholds₁
      rcases Holds.tryPop_cons hpositive hholds₁ with ⟨m₂, hpop, hholds₂⟩
      have hconsumer : s₁.consumer = .idle ∨ ∃ out, s₁.consumer = .returned out := by
        rw [hpushed.consumer]
        exact hs.consumer
      rcases tryPop_run hpos hlt hconsumer hpop with ⟨s₂, hreach₂, hpopped⟩
      rw [← hpopped.memory, hwindow] at hholds₂
      refine ⟨s₂, (hs.reach.trans (hmono hreach₁)).trans (hmono hreach₂), hholds₂, ?_, ?_, ?_, ?_⟩
      · rw [hpopped.claims, hpushed.claims, hs.claims]
        rfl
      · rw [hpopped.popped, hpushed.popped, List.length_append, hs.popped]
        rfl
      · rw [hpopped.producers]
        exact Or.inr ⟨true, hpushed.returned⟩
      · exact Or.inr ⟨_, hpopped.returned⟩

/-- A `TryPop` of the empty queue behind `k` messages compares the word of `k`, which the
slot still shows, with that of `k + 1`. -/
theorem exists_empty_pop {N : Nat} (hN : ValidCapacity N) (k : Nat) :
    ∃ s : State Unit Unit, Reach (step N) (FreshHeads (2 ^ 31)) initial s ∧
      FreshHeads (2 ^ 31) s .consumer ∧
        Compares N s .consumer (BitVec.ofNat 32 k) (BitVec.ofNat 32 (k + 1)) k (k + 1) := by
  rcases exists_passed hN k with ⟨s, hs⟩
  let s' : State Unit Unit := { s with consumer := .loadSeq s.tail }
  have hstep : step N s .consumer = some s' := by
    show some (s.consumerStep N) = some s'
    unfold State.consumerStep
    rcases hs.consumer with hidle | ⟨out, hreturned⟩
    · rw [hidle]
    · rw [hreturned]
  have hpos : 0 < N := Nat.lt_of_lt_of_le Nat.zero_lt_two hN.two_le
  have htail : s.tail = BitVec.ofNat 32 k := hs.holds.tail_eq
  have hseq : (s.slots (slotIndex N s.tail)).seq = BitVec.ofNat 32 k := by
    have hfree := hs.holds.free 0 le_rfl hpos
    rw [htail, hN.slotIndex_eq]
    exact hfree
  have hwindow : s.windowTicket N (slotIndex N s.tail) = k := by
    have hlt := Nat.mod_lt k hpos
    unfold State.windowTicket
    rw [hs.popped, htail, hN.slotIndex_eq, Nat.add_sub_of_le hlt.le, Nat.mod_self, Nat.add_zero]
  have hticket : s'.seqTicket N (slotIndex N s.tail) = k := by
    show s.seqTicket N (slotIndex N s.tail) = k
    unfold State.seqTicket
    rw [hwindow, hseq, if_neg]
    rw [← ofNat_add_one 32 k]
    simp
  have hcompares : Compares N s' .consumer (s.slots (slotIndex N s.tail)).seq (s.tail + 1)
      (s'.seqTicket N (slotIndex N s.tail)) (s.popped.length + 1) := Compares.pop rfl
  rw [hticket, hseq, htail, ofNat_add_one, hs.popped] at hcompares
  have hfresh : ∀ t : State Unit Unit, FreshHeads (2 ^ 31) t .consumer := fun _ => trivial
  exact ⟨s', hs.reach.step (hfresh s) hstep, hfresh s', hcompares⟩

/-- The `TryPop` of the empty queue behind `2 ^ 31 - 1` messages is not sound, the one behind
the next message is. -/
theorem comparison_sound_at_jump :
    ¬ DifferenceSound 31 (BitVec.ofNat 32 (2 ^ 31 - 1)) (BitVec.ofNat 32 (2 ^ 31))
        (2 ^ 31 - 1) (2 ^ 31) ∧
      DifferenceSound 31 (BitVec.ofNat 32 (2 ^ 31)) (BitVec.ofNat 32 (2 ^ 31 + 1))
        (2 ^ 31) (2 ^ 31 + 1) := by
  have hN : ValidCapacity 32 := ⟨5, by decide, by decide, rfl⟩
  constructor
  · rcases exists_empty_pop hN (2 ^ 31 - 1) with ⟨s, hreach, hfresh, hcompares⟩
    intro hsound
    exact absurd ((comparison_sound_iff hN hreach hfresh hcompares).mp hsound) (by decide)
  · rcases exists_empty_pop hN (2 ^ 31) with ⟨s, hreach, hfresh, hcompares⟩
    exact (comparison_sound_iff hN hreach hfresh hcompares).mpr (by decide)

/-- After `2 ^ 31 - 1` messages a `TryPop` of the empty queue subtracts `-2 ^ 31` from
`2 ^ 31 - 1`. -/
theorem empty_pop_overflows :
    ¬ ∀ (s : State Unit Unit) (l : Label Unit Unit) (seq head : BitVec 32) (q t : Nat),
      Reach (step 32) (FreshHeads (2 ^ 31)) initial s → FreshHeads (2 ^ 31) s l →
        Compares 32 s l seq head q t → DifferenceSound 31 seq head q t := by
  intro hall
  have hN : ValidCapacity 32 := ⟨5, by decide, by decide, rfl⟩
  rcases exists_empty_pop hN (2 ^ 31 - 1) with ⟨s, hreach, hfresh, hcompares⟩
  have hsound := hall s _ _ _ _ _ hreach hfresh hcompares
  exact absurd hsound.no_overflow.2 (by decide)

end LogQueue
end Log
end DtCore
