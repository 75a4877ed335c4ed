import Mathlib.Data.Nat.ModEq
import Mathlib.Tactic

/-!
# Wrapping tickets and ring slots

Ring buffers number their items with tickets that a machine word keeps modulo
`2 ^ w` and find the slot of a ticket by masking.  The facts here say when two
tickets may be told apart by their words and when two tickets share a slot.

Main results:

- Theorem `ofNat_eq_of_near`: words of tickets less than `2 ^ w` apart agree
  only when the tickets do.
- Theorem `mask_eq_mod`: masking with a power of two minus one takes the ticket
  modulo the capacity, also after wrap-around.
- Theorem `mod_ne_of_window`: tickets of one window of `N` have their own slots.
- Theorem `differenceSound_iff`: when the signed difference of two words is right.
-/

namespace DtCore
namespace Foundation

/-- Two words agree exactly when their tickets agree modulo the word size. -/
theorem ofNat_eq_iff_mod (w a b : Nat) :
    BitVec.ofNat w a = BitVec.ofNat w b ↔ a % 2 ^ w = b % 2 ^ w := by
  rw [← BitVec.toNat_inj, BitVec.toNat_ofNat, BitVec.toNat_ofNat]

/-- Tickets less than one word apart are told apart by their words. -/
theorem ofNat_eq_of_near {w a b : Nat} (hle : a ≤ b) (hnear : b - a < 2 ^ w)
    (heq : BitVec.ofNat w a = BitVec.ofNat w b) : a = b := by
  rw [ofNat_eq_iff_mod] at heq
  have hdvd : 2 ^ w ∣ b - a := (Nat.modEq_iff_dvd' hle).mp heq
  have hzero : b - a = 0 := Nat.eq_zero_of_dvd_of_lt hdvd hnear
  omega

/-- The word after the word of `a` is the word of `a + 1`. -/
theorem ofNat_add_one (w a : Nat) :
    BitVec.ofNat w a + 1 = BitVec.ofNat w (a + 1) := by
  simp [BitVec.ofNat_add]

/-- Masking the word of a ticket finds its slot, whatever the number of
wrap-arounds, because the capacity divides the word size. -/
theorem mask_eq_mod {w k : Nat} (hk : k ≤ w) (t : Nat) :
    (BitVec.ofNat w t).toNat &&& (2 ^ k - 1) = t % 2 ^ k := by
  rw [BitVec.toNat_ofNat, Nat.and_two_pow_sub_one_eq_mod]
  exact Nat.mod_mod_of_dvd t (Nat.pow_dvd_pow 2 hk)

/-- Distinct tickets of one window of `N` consecutive tickets have their own
slots. -/
theorem mod_ne_of_window {N base a b : Nat} (ha : base ≤ a) (ha' : a < base + N)
    (hb : base ≤ b) (hb' : b < base + N) (hne : a ≠ b) : a % N ≠ b % N := by
  intro heq
  rcases Nat.lt_or_gt_of_ne hne with hlt | hlt
  · have hdvd : N ∣ b - a := (Nat.modEq_iff_dvd' hlt.le).mp heq
    have hzero : b - a = 0 := Nat.eq_zero_of_dvd_of_lt hdvd (by omega)
    omega
  · have hdvd : N ∣ a - b := (Nat.modEq_iff_dvd' hlt.le).mp heq.symm
    have hzero : a - b = 0 := Nat.eq_zero_of_dvd_of_lt hdvd (by omega)
    omega

/-! ## Signed differences -/

/-- The number of times that the word of `t`, read as signed, has jumped from its largest to
its smallest value. -/
def signedLap (w t : Nat) : Nat :=
  (t + 2 ^ w) / 2 ^ (w + 1)

/-- A word read as signed is its ticket less the laps. -/
theorem toInt_ofNat_eq (w t : Nat) :
    (BitVec.ofNat (w + 1) t).toInt = (t : Int) - 2 * 2 ^ w * signedLap w t := by
  have hpow : 2 ^ (w + 1) = 2 * 2 ^ w := Nat.pow_succ'
  have hdiv := Nat.div_add_mod (t + 2 ^ w) (2 * 2 ^ w)
  have hmod := Nat.mod_lt (t + 2 ^ w) (show 2 * 2 ^ w > 0 by positivity)
  have hlap : signedLap w t = (t + 2 ^ w) / (2 * 2 ^ w) := by rw [signedLap, hpow]
  rw [← hlap] at hdiv
  have hsplit : (t : Int) =
      (t : Int) - 2 * 2 ^ w * signedLap w t + ((2 ^ (w + 1) : Nat) : Int) * signedLap w t := by
    push_cast
    ring
  calc
    (BitVec.ofNat (w + 1) t).toInt = (t : Int).bmod (2 ^ (w + 1)) := BitVec.toInt_ofNat' t
    _ = ((t : Int) - 2 * 2 ^ w * signedLap w t).bmod (2 ^ (w + 1)) := by
      rw [← Int.add_mul_bmod_self_left (_ - _) _ (signedLap w t : Int), ← hsplit]
    _ = (t : Int) - 2 * 2 ^ w * signedLap w t := by
      have hrest := Int.natCast_nonneg ((t + 2 ^ w) % (2 * 2 ^ w))
      zify at hdiv hmod
      push_cast at hrest
      apply Int.bmod_eq_of_le_mul_two
      · push_cast
        rw [pow_succ']
        linarith
      · push_cast
        rw [pow_succ']
        linarith

/-- The difference of two words read as signed does not overflow, and its sign is that of
the difference of the tickets. -/
structure DifferenceSound (w : Nat) (a b : BitVec (w + 1)) (t u : Nat) : Prop where
  no_overflow : -2 ^ w ≤ a.toInt - b.toInt ∧ a.toInt - b.toInt < 2 ^ w
  sign_eq : (a.toInt - b.toInt).sign = ((t : Int) - u).sign

/-- For tickets that are not too far apart the signed difference of their words is right
exactly if it would fit and neither word has jumped between them. -/
theorem differenceSound_iff {w t u : Nat} (hlow : u ≤ t + 2 ^ w) (hhigh : t < u + 2 * 2 ^ w) :
    DifferenceSound w (BitVec.ofNat (w + 1) t) (BitVec.ofNat (w + 1) u) t u ↔
      t < u + 2 ^ w ∧ signedLap w t = signedLap w u := by
  have ht := toInt_ofNat_eq w t
  have hu := toInt_ofNat_eq w u
  have hpos : (0 : Int) < 2 ^ w := by positivity
  zify at hlow hhigh
  constructor
  · rintro ⟨⟨hge, hlt⟩, hsign⟩
    have hlap : signedLap w t = signedLap w u := by
      rcases Nat.lt_trichotomy (signedLap w t) (signedLap w u) with hless | heq | hmore
      · have hmul : (2 * 2 ^ w : Int) * (signedLap w t + 1) ≤ 2 * 2 ^ w * signedLap w u :=
          mul_le_mul_of_nonneg_left (by exact_mod_cast hless) (by positivity)
        linarith
      · exact heq
      · have hmul : (2 * 2 ^ w : Int) * (signedLap w u + 1) ≤ 2 * 2 ^ w * signedLap w t :=
          mul_le_mul_of_nonneg_left (by exact_mod_cast hmore) (by positivity)
        -- the word of `t` has jumped: the difference of the words is negative
        have hneg : (BitVec.ofNat (w + 1) t).toInt - (BitVec.ofNat (w + 1) u).toInt < 0 := by
          linarith
        have htickets : (0 : Int) < t - u := by linarith
        rw [Int.sign_eq_neg_one_of_neg hneg, Int.sign_eq_one_of_pos htickets] at hsign
        exact absurd hsign (by decide)
    rw [ht, hu, hlap] at hlt
    apply And.intro _ hlap
    zify
    linarith
  · rintro ⟨hfit, hlap⟩
    zify at hfit
    have hdiff : (BitVec.ofNat (w + 1) t).toInt - (BitVec.ofNat (w + 1) u).toInt =
        (t : Int) - u := by
      rw [ht, hu, hlap]
      ring
    constructor
    · rw [hdiff]
      constructor
      · linarith
      · linarith
    · rw [hdiff]

end Foundation
end DtCore
