import DtCore.Log.LogQueue.Model

/-!
# The queue in one thread

Calls of `TryPush` and `TryPop` made one after another by one thread, for every capacity
that the `static_assert` admits: zero and all powers of two below `2 ^ 64`.  Indices are
computed in 64 bits, the counters and sequence numbers in 32 bits, so that from `2 ^ 32`
slots on only the first `2 ^ 32` are ever used.

An access beyond the array has no result, and neither has a loop that does not end.

Main results:

- Definition `results`: what a sequence of calls returns.
- Structure `Holds`: the memory of a queue that stores some entries.
- Theorem `works_iff`: when the results are those of a bounded FIFO of that capacity.
- Theorem `one_slot_overwrites`: a queue with one slot takes a second entry.
- Theorems `tryPush_run`, `tryPop_run`: a call is a run of accesses of one thread.
-/

namespace DtCore
namespace Log
namespace LogQueue

open Foundation

variable {P Entry : Type}

/-! ## The calls -/

/-- A ring slot. -/
structure Cell (Entry : Type) where
  seq : BitVec 32
  data : Entry

/-- `m_head`, `m_tail` and `m_slots`. -/
structure Memory (Entry : Type) where
  head : BitVec 32
  tail : BitVec 32
  slots : Nat → Cell Entry

/-- `LogQueue()`. -/
def Memory.start [Inhabited Entry] : Memory Entry where
  head := 0
  tail := 0
  slots i := { seq := BitVec.ofNat 32 i, data := default }

/-- `(m_capacity & (m_capacity - 1)) == 0`, in `size_t`. -/
def Admitted (N : Nat) : Prop :=
  N < 2 ^ 64 ∧ N &&& (N + (2 ^ 64 - 1)) % 2 ^ 64 = 0

instance (N : Nat) : Decidable (Admitted N) :=
  inferInstanceAs (Decidable (_ ∧ _))

/-- `head & (m_capacity - 1)`, in `size_t`. -/
def index (N : Nat) (ticket : BitVec 32) : Nat :=
  ticket.toNat &&& (N + (2 ^ 64 - 1)) % 2 ^ 64

/-- The loop of `TryPush`, with the value that `m_head` was last loaded with. -/
def pushLoop (N : Nat) (entry : Entry) :
    Nat → Memory Entry → BitVec 32 → Option (Bool × Memory Entry)
  | 0, _, _ => none
  | fuel + 1, m, head =>
      let i := index N head
      if N ≤ i then none
      else
        let diff := ticketDiff (m.slots i).seq head
        if diff = 0 then
          if m.head = head then
            some (true,
              { m with
                head := head + 1
                slots := Function.update m.slots i { seq := head + 1, data := entry } })
          else pushLoop N entry fuel m m.head
        else if diff < 0 then
          -- queue full
          some (false, m)
        else pushLoop N entry fuel m m.head

def Memory.tryPush (N fuel : Nat) (m : Memory Entry) (entry : Entry) :
    Option (Bool × Memory Entry) :=
  pushLoop N entry fuel m m.head

def Memory.tryPop (N : Nat) (m : Memory Entry) : Option (Option Entry × Memory Entry) :=
  let i := index N m.tail
  if N ≤ i then none
  else if ticketDiff (m.slots i).seq (m.tail + 1) = 0 then
    some (some (m.slots i).data,
      { m with
        tail := m.tail + 1
        slots := Function.update m.slots i
          { seq := m.tail + BitVec.ofNat 32 N, data := (m.slots i).data } })
  else some (none, m)

inductive Op (Entry : Type) where
  | push (entry : Entry)
  | pop

/-- What a call returns. -/
inductive Result (Entry : Type) where
  | pushed (ok : Bool)
  | popped (out : Option Entry)
deriving DecidableEq

/-- The results of calls made one after another. -/
def results (N fuel : Nat) : Memory Entry → List (Op Entry) → Option (List (Result Entry))
  | _, [] => some []
  | m, .push entry :: ops =>
      match m.tryPush N fuel entry with
      | none => none
      | some (ok, m') => (results N fuel m' ops).map fun rest => .pushed ok :: rest
  | m, .pop :: ops =>
      match m.tryPop N with
      | none => none
      | some (out, m') => (results N fuel m' ops).map fun rest => .popped out :: rest

/-! ## The bounded FIFO -/

/-- The results of a bounded FIFO that stores some entries. -/
def fifo (N : Nat) : List Entry → List (Op Entry) → List (Result Entry)
  | _, [] => []
  | stored, .push entry :: ops =>
      if stored.length < N then .pushed true :: fifo N (stored ++ [entry]) ops
      else .pushed false :: fifo N stored ops
  | [], .pop :: ops => .popped none :: fifo N [] ops
  | entry :: stored, .pop :: ops => .popped (some entry) :: fifo N stored ops

/-- The calls return what a bounded FIFO returns. -/
def Works [Inhabited Entry] (N : Nat) (ops : List (Op Entry)) : Prop :=
  ∃ fuel, results N fuel Memory.start ops = some (fifo N [] ops)

/-- No push is made when `M` entries are stored, starting with `n` of them. -/
def NeverFull (M : Nat) : Nat → List (Op Entry) → Prop
  | _, [] => True
  | n, .push _ :: ops => n < M ∧ NeverFull M (n + 1) ops
  | n, .pop :: ops => NeverFull M (n - 1) ops

/-! ## Admitted capacities -/

/-- The number of slots that 32-bit counters can reach. -/
def window (N : Nat) : Nat :=
  min N (2 ^ 32)

theorem pred_eq {N : Nat} (hpos : 0 < N) (hlt : N < 2 ^ 64) :
    (N + (2 ^ 64 - 1)) % 2 ^ 64 = N - 1 := by
  have hsum : N + (2 ^ 64 - 1) = N - 1 + 2 ^ 64 := by omega
  rw [hsum, Nat.add_mod_right]
  exact Nat.mod_eq_of_lt (by omega)

/-- The admitted capacities are zero and the powers of two. -/
theorem admitted_iff (N : Nat) : Admitted N ↔ N = 0 ∨ ∃ k, k < 64 ∧ N = 2 ^ k := by
  constructor
  · rintro ⟨hlt, hand⟩
    rcases Nat.eq_zero_or_pos N with hzero | hpos
    · exact Or.inl hzero
    · right
      rw [pred_eq hpos hlt] at hand
      rcases (Nat.and_sub_one_eq_zero_iff_isPowerOfTwo (Nat.ne_of_gt hpos)).mp hand with ⟨k, hk⟩
      refine ⟨k, ?_, hk⟩
      rw [hk] at hlt
      exact (Nat.pow_lt_pow_iff_right (by decide)).mp hlt
  · rintro (hzero | ⟨k, hk, hN⟩)
    · rw [hzero]
      decide
    · have hlt : N < 2 ^ 64 := hN ▸ Nat.pow_lt_pow_right (by decide) hk
      have hpos : 0 < N := hN ▸ Nat.two_pow_pos k
      refine ⟨hlt, ?_⟩
      rw [pred_eq hpos hlt]
      exact (Nat.and_sub_one_eq_zero_iff_isPowerOfTwo (Nat.ne_of_gt hpos)).mpr ⟨k, hN⟩

/-- An admitted capacity other than zero. -/
def Positive (N : Nat) : Prop :=
  ∃ k, k < 64 ∧ N = 2 ^ k

theorem Positive.pos {N : Nat} (hN : Positive N) : 0 < N := by
  rcases hN with ⟨k, _, rfl⟩
  exact Nat.two_pow_pos k

theorem Positive.window_pos {N : Nat} (hN : Positive N) : 0 < window N :=
  Nat.lt_min.mpr ⟨hN.pos, by decide⟩

theorem window_le (N : Nat) : window N ≤ N :=
  Nat.min_le_left _ _

/-- The slot of a ticket, whatever the number of wrap-arounds. -/
theorem Positive.index_eq {N : Nat} (hN : Positive N) (t : Nat) :
    index N (BitVec.ofNat 32 t) = t % window N := by
  have hpos := hN.pos
  rcases hN with ⟨k, hk, rfl⟩
  have hlt : 2 ^ k < 2 ^ 64 := Nat.pow_lt_pow_right (by decide) hk
  unfold index window
  rw [pred_eq hpos hlt]
  rcases Nat.le_total k 32 with hle | hge
  · rw [mask_eq_mod hle, Nat.min_eq_left (Nat.pow_le_pow_right (by decide) hle)]
  · have hword : t % 2 ^ 32 < 2 ^ k :=
      Nat.lt_of_lt_of_le (Nat.mod_lt _ (by decide)) (Nat.pow_le_pow_right (by decide) hge)
    rw [BitVec.toNat_ofNat, Nat.and_two_pow_sub_one_eq_mod, Nat.mod_eq_of_lt hword,
      Nat.min_eq_right (Nat.pow_le_pow_right (by decide) hge)]

/-- One lap ahead in the word of a sequence number. -/
theorem Positive.lap_eq {N : Nat} (hN : Positive N) (t : Nat) :
    BitVec.ofNat 32 t + BitVec.ofNat 32 N = BitVec.ofNat 32 (t + window N) := by
  rcases hN with ⟨k, _, rfl⟩
  rw [← BitVec.ofNat_add, ofNat_eq_iff_mod]
  rcases Nat.le_total k 32 with hle | hge
  · rw [window, Nat.min_eq_left (Nat.pow_le_pow_right (by decide) hle)]
  · rw [window, Nat.min_eq_right (Nat.pow_le_pow_right (by decide) hge), Nat.add_mod_right]
    rcases Nat.pow_dvd_pow 2 hge with ⟨c, hc⟩
    rw [hc, Nat.add_mul_mod_self_left]

/-- The widths of the window: one slot, at most half of the words, or all of them. -/
theorem Positive.window_cases {N : Nat} (hN : Positive N) :
    N = 1 ∨ (2 ≤ N ∧ N ≤ 2 ^ 31 ∧ window N = N) ∨ (2 ^ 31 < N ∧ window N = 2 ^ 32) := by
  rcases hN with ⟨k, _, rfl⟩
  rcases Nat.lt_or_ge k 32 with hlt | hge
  · have hword : window (2 ^ k) = 2 ^ k :=
      Nat.min_eq_left (Nat.pow_le_pow_right (by decide) hlt.le)
    rcases Nat.eq_zero_or_pos k with hzero | hpos
    · rw [hzero]
      exact Or.inl rfl
    · have htwo : 2 ^ 1 ≤ 2 ^ k := Nat.pow_le_pow_right (by decide) hpos
      exact Or.inr (Or.inl ⟨htwo, Nat.pow_le_pow_right (by decide) (Nat.le_of_lt_succ hlt), hword⟩)
  · have hlarge : 2 ^ 32 ≤ 2 ^ k := Nat.pow_le_pow_right (by decide) hge
    refine Or.inr (Or.inr ⟨Nat.lt_of_lt_of_le (by decide) hlarge, Nat.min_eq_right hlarge⟩)

/-! ## What the memory holds -/

/-- The queue stores the entries `stored`, the oldest under ticket `base`, and the other
slots of the window are free for the tickets after them. -/
structure Holds (M : Nat) (m : Memory Entry) (base : Nat) (stored : List Entry) : Prop where
  head_eq : m.head = BitVec.ofNat 32 (base + stored.length)
  tail_eq : m.tail = BitVec.ofNat 32 base
  length_le : stored.length ≤ M
  published : ∀ i entry, stored[i]? = some entry →
    m.slots ((base + i) % M) = { seq := BitVec.ofNat 32 (base + i + 1), data := entry }
  free : ∀ i, stored.length ≤ i → i < M →
    (m.slots ((base + i) % M)).seq = BitVec.ofNat 32 (base + i)

theorem holds_start [Inhabited Entry] (M : Nat) :
    Holds M (Memory.start : Memory Entry) 0 [] where
  head_eq := rfl
  tail_eq := rfl
  length_le := Nat.zero_le M
  published := by simp
  free := by
    intro i _ hi
    rw [Nat.zero_add, Nat.mod_eq_of_lt hi]
    rfl

/-- A ticket of the window other than `base + j` has another slot. -/
theorem slot_ne {M base i j : Nat} (hi : i < M) (hj : j < M) (hne : i ≠ j) :
    (base + i) % M ≠ (base + j) % M :=
  mod_ne_of_window (Nat.le_add_right _ _) (Nat.add_lt_add_left hi base) (Nat.le_add_right _ _)
    (Nat.add_lt_add_left hj base) (by omega)

theorem Holds.push {M base : Nat} {m : Memory Entry} {stored : List Entry}
    (h : Holds M m base stored) (hroom : stored.length < M) (entry : Entry) :
    Holds M
      { m with
        head := m.head + 1
        slots := Function.update m.slots ((base + stored.length) % M)
          { seq := m.head + 1, data := entry } }
      base (stored ++ [entry]) where
  head_eq := by
    rw [h.head_eq, ofNat_add_one, List.length_append, List.length_singleton, Nat.add_assoc]
  tail_eq := h.tail_eq
  length_le := by
    rw [List.length_append, List.length_singleton]
    exact hroom
  published := by
    intro i entry' hentry
    dsimp only
    rcases Nat.lt_trichotomy i stored.length with hlt | heq | hgt
    · rw [List.getElem?_append_left hlt] at hentry
      rw [Function.update_of_ne (slot_ne (hlt.trans hroom) hroom (Nat.ne_of_lt hlt))]
      exact h.published i entry' hentry
    · rw [heq, List.getElem?_concat_length, Option.some.injEq] at hentry
      rw [heq, Function.update_self, h.head_eq, ofNat_add_one, hentry]
    · rw [List.getElem?_eq_none (by simpa using hgt)] at hentry
      contradiction
  free := by
    intro i hi hiM
    rw [List.length_append, List.length_singleton] at hi
    dsimp only
    rw [Function.update_of_ne (slot_ne hiM hroom (by omega))]
    exact h.free i (by omega) hiM

theorem Holds.pop {M base : Nat} {m : Memory Entry} {entry : Entry} {stored : List Entry}
    (h : Holds M m base (entry :: stored)) (data : Entry) :
    Holds M
      { m with
        tail := m.tail + 1
        slots := Function.update m.slots (base % M)
          { seq := BitVec.ofNat 32 (base + M), data := data } }
      (base + 1) stored where
  head_eq := by
    rw [h.head_eq, List.length_cons, Nat.add_assoc, Nat.add_comm 1]
  tail_eq := by rw [h.tail_eq, ofNat_add_one]
  length_le := Nat.le_of_succ_le h.length_le
  published := by
    intro i entry' hentry
    have hi : i < stored.length := (List.getElem?_eq_some_iff.mp hentry).1
    have hM := h.length_le
    rw [List.length_cons] at hM
    have hne : (base + (i + 1)) % M ≠ base % M :=
      slot_ne (j := 0) (by omega) (by omega) (Nat.succ_ne_zero i)
    dsimp only
    rw [Nat.add_assoc base, Nat.add_comm 1 i, Function.update_of_ne hne]
    exact h.published (i + 1) entry' hentry
  free := by
    intro i hi hiM
    dsimp only
    rcases Nat.lt_or_ge (i + 1) M with hlt | hge
    · have hne : (base + (i + 1)) % M ≠ base % M :=
        slot_ne (j := 0) hlt (by omega) (Nat.succ_ne_zero i)
      rw [Nat.add_assoc base, Nat.add_comm 1 i, Function.update_of_ne hne]
      exact h.free (i + 1) (Nat.succ_le_succ hi) hlt
    · -- the slot that the pop has handed on
      have hlast : base + 1 + i = base + M := by omega
      rw [hlast, Nat.add_mod_right, Function.update_self]

/-! ## One call -/

/-- The difference of two words is that of the tickets, reduced to the signed range. -/
theorem ticketDiff_ofNat (t u : Nat) :
    ticketDiff (BitVec.ofNat 32 t) (BitVec.ofNat 32 u) = ((t : Int) - u).bmod (2 ^ 32) := by
  unfold ticketDiff
  rw [BitVec.toInt_sub, BitVec.toInt_ofNat', BitVec.toInt_ofNat', Int.bmod_sub_bmod,
    Int.sub_bmod_bmod]

theorem Holds.index_head {N base : Nat} (hN : Positive N) {m : Memory Entry}
    {stored : List Entry} (h : Holds (window N) m base stored) :
    index N m.head = (base + stored.length) % window N ∧ ¬ N ≤ index N m.head := by
  have hindex : index N m.head = (base + stored.length) % window N := by
    rw [h.head_eq, hN.index_eq]
  apply And.intro hindex
  rw [hindex, Nat.not_le]
  exact Nat.lt_of_lt_of_le (Nat.mod_lt _ hN.window_pos) (window_le N)

/-- A push with room is accepted at the first attempt. -/
theorem Holds.tryPush_room {N base : Nat} (hN : Positive N) {m : Memory Entry}
    {stored : List Entry} (h : Holds (window N) m base stored)
    (hroom : stored.length < window N) (entry : Entry) (fuel : Nat) :
    ∃ m', m.tryPush N (fuel + 1) entry = some (true, m') ∧
      Holds (window N) m' base (stored ++ [entry]) := by
  rcases h.index_head hN with ⟨hindex, hinside⟩
  have hseq := h.free stored.length le_rfl hroom
  have hdiff : ticketDiff (m.slots (index N m.head)).seq m.head = 0 := by
    rw [hindex, hseq, h.head_eq, ticketDiff_ofNat, Int.sub_self]
    rfl
  refine ⟨_, ?_, h.push hroom entry⟩
  unfold Memory.tryPush pushLoop
  rw [if_neg hinside, if_pos hdiff, if_pos rfl, hindex]

/-- On a full queue the slot of the next ticket still shows the oldest entry. -/
theorem Holds.diff_full {N base : Nat} (hN : Positive N) {m : Memory Entry}
    {stored : List Entry} (h : Holds (window N) m base stored)
    (hfull : stored.length = window N) :
    ticketDiff (m.slots (index N m.head)).seq m.head =
      ticketDiff (BitVec.ofNat 32 (base + 1)) (BitVec.ofNat 32 (base + window N)) := by
  rcases h.index_head hN with ⟨hindex, _⟩
  have hpos := hN.window_pos
  cases hstored : stored with
  | nil =>
      rw [hstored, List.length_nil] at hfull
      omega
  | cons entry rest =>
      have hseq := h.published 0 entry (by rw [hstored]; rfl)
      rw [Nat.add_zero] at hseq
      rw [hindex, h.head_eq, hfull, Nat.add_mod_right, hseq]

theorem Holds.tryPush_full {N base fuel : Nat} (hN : Positive N) (hlow : 2 ≤ N)
    (hhigh : N ≤ 2 ^ 31) {m : Memory Entry} {stored : List Entry}
    (h : Holds (window N) m base stored) (hfull : stored.length = window N) (entry : Entry) :
    m.tryPush N (fuel + 1) entry = some (false, m) := by
  rcases h.index_head hN with ⟨_, hinside⟩
  have hwindow : window N = N := Nat.min_eq_left (hhigh.trans (by decide))
  have hdiff : ticketDiff (m.slots (index N m.head)).seq m.head = 1 - (N : Int) := by
    rw [h.diff_full hN hfull, hwindow, ticketDiff_ofNat]
    push_cast
    rw [show (base : Int) + 1 - (base + N) = 1 - N by ring]
    exact Int.bmod_eq_of_le_mul_two (by push_cast; omega) (by push_cast; omega)
  have hne : ¬ ticketDiff (m.slots (index N m.head)).seq m.head = 0 := by omega
  have hneg : ticketDiff (m.slots (index N m.head)).seq m.head < 0 := by omega
  unfold Memory.tryPush pushLoop
  rw [if_neg hinside, if_neg hne, if_pos hneg]

/-- With all words in use the full queue looks as if the head were stale. -/
theorem Holds.tryPush_wrapped {N base : Nat} (hN : Positive N) (hwindow : window N = 2 ^ 32)
    {m : Memory Entry} {stored : List Entry} (h : Holds (window N) m base stored)
    (hfull : stored.length = window N) (entry : Entry) (fuel : Nat) :
    m.tryPush N fuel entry = none := by
  rcases h.index_head hN with ⟨_, hinside⟩
  have hdiff : ticketDiff (m.slots (index N m.head)).seq m.head = 1 := by
    rw [h.diff_full hN hfull, hwindow, ticketDiff_ofNat]
    push_cast
    rw [show (base : Int) + 1 - (base + 4294967296) = 1 - 4294967296 by ring]
    decide
  have hne : ¬ ticketDiff (m.slots (index N m.head)).seq m.head = 0 := by omega
  have hpos : ¬ ticketDiff (m.slots (index N m.head)).seq m.head < 0 := by omega
  unfold Memory.tryPush
  induction fuel with
  | zero => rfl
  | succ fuel ih =>
      unfold pushLoop
      rw [if_neg hinside, if_neg hne, if_neg hpos]
      exact ih

/-- A queue with one slot does not notice that it is full. -/
theorem Holds.tryPush_one {base fuel : Nat} {m : Memory Entry} {stored : List Entry}
    (h : Holds (window 1) m base stored) (hfull : stored.length = window 1) (entry : Entry) :
    ∃ m', m.tryPush 1 (fuel + 1) entry = some (true, m') := by
  have hN : Positive 1 := ⟨0, by decide, rfl⟩
  rcases h.index_head hN with ⟨_, hinside⟩
  have hdiff : ticketDiff (m.slots (index 1 m.head)).seq m.head = 0 := by
    rw [h.diff_full hN hfull, show window 1 = 1 from rfl, ticketDiff_ofNat, Int.sub_self]
    rfl
  refine ⟨{ m with
    head := m.head + 1
    slots := Function.update m.slots (index 1 m.head) { seq := m.head + 1, data := entry } }, ?_⟩
  unfold Memory.tryPush pushLoop
  rw [if_neg hinside, if_pos hdiff, if_pos rfl]

theorem Holds.index_tail {N base : Nat} (hN : Positive N) {m : Memory Entry}
    {stored : List Entry} (h : Holds (window N) m base stored) :
    index N m.tail = base % window N ∧ ¬ N ≤ index N m.tail := by
  have hindex : index N m.tail = base % window N := by
    rw [h.tail_eq, hN.index_eq]
  apply And.intro hindex
  rw [hindex, Nat.not_le]
  exact Nat.lt_of_lt_of_le (Nat.mod_lt _ hN.window_pos) (window_le N)

/-- A pop takes the oldest entry. -/
theorem Holds.tryPop_cons {N base : Nat} (hN : Positive N) {m : Memory Entry} {entry : Entry}
    {stored : List Entry} (h : Holds (window N) m base (entry :: stored)) :
    ∃ m', m.tryPop N = some (some entry, m') ∧ Holds (window N) m' (base + 1) stored := by
  rcases h.index_tail hN with ⟨hindex, hinside⟩
  have hslot : m.slots (base % window N) =
      { seq := BitVec.ofNat 32 (base + 1), data := entry } := h.published 0 entry rfl
  have hdiff : ticketDiff (m.slots (index N m.tail)).seq (m.tail + 1) = 0 := by
    rw [hindex, hslot, h.tail_eq, ofNat_add_one, ticketDiff_ofNat, Int.sub_self]
    rfl
  refine ⟨_, ?_, h.pop entry⟩
  unfold Memory.tryPop
  rw [if_neg hinside, if_pos hdiff, hindex, hslot, h.tail_eq, hN.lap_eq]

theorem Holds.tryPop_nil {N base : Nat} (hN : Positive N) {m : Memory Entry}
    (h : Holds (window N) m base []) : m.tryPop N = some (none, m) := by
  rcases h.index_tail hN with ⟨hindex, hinside⟩
  have hseq : (m.slots (base % window N)).seq = BitVec.ofNat 32 base :=
    h.free 0 le_rfl hN.window_pos
  have hdiff : ¬ ticketDiff (m.slots (index N m.tail)).seq (m.tail + 1) = 0 := by
    rw [hindex, hseq, h.tail_eq, ofNat_add_one, ticketDiff_ofNat]
    push_cast
    rw [show (base : Int) - (base + 1) = -1 by ring]
    decide
  unfold Memory.tryPop
  rw [if_neg hinside, if_neg hdiff]

/-! ## Sequences of calls -/

/-- The capacities for which `TryPush` can tell a full queue from a free slot. -/
def Told (N : Nat) : Prop :=
  2 ≤ N ∧ N ≤ 2 ^ 31

/-- A run of calls from a state of the FIFO. -/
theorem results_of_told {N : Nat} (hN : Positive N) (ops : List (Op Entry)) {m : Memory Entry}
    {base : Nat} {stored : List Entry} (h : Holds (window N) m base stored)
    (hgood : Told N ∨ NeverFull (window N) stored.length ops) :
    results N 1 m ops = some (fifo N stored ops) := by
  induction ops generalizing m base stored with
  | nil => rfl
  | cons op ops ih =>
      cases op with
      | push entry =>
          unfold results fifo
          rcases Nat.lt_or_ge stored.length (window N) with hroom | hfull
          · rcases h.tryPush_room hN hroom entry 0 with ⟨m', hpush, hholds⟩
            have hrest := ih hholds (hgood.imp_right fun hnever => by
              rw [List.length_append, List.length_singleton]
              exact hnever.2)
            rw [hpush, if_pos (Nat.lt_of_lt_of_le hroom (window_le N))]
            dsimp only
            rw [hrest]
            rfl
          · rcases hgood with htold | hnever
            · have heq := Nat.le_antisymm h.length_le hfull
              have hwindow : window N = N := Nat.min_eq_left (htold.2.trans (by decide))
              have hpush : m.tryPush N 1 entry = some (false, m) :=
                h.tryPush_full hN htold.1 htold.2 heq entry
              rw [hpush, if_neg (by omega)]
              dsimp only
              rw [ih h (Or.inl htold)]
              rfl
            · exact absurd hnever.1 (Nat.not_lt.mpr hfull)
      | pop =>
          unfold results
          cases stored with
          | nil =>
              rw [h.tryPop_nil hN]
              dsimp only
              rw [ih h hgood]
              rfl
          | cons entry stored =>
              rcases h.tryPop_cons hN with ⟨m', hpop, hholds⟩
              rw [hpop]
              dsimp only
              rw [ih hholds hgood]
              rfl

/-- At a capacity that cannot be told full, no push may find the window full. -/
theorem neverFull_of_results {N fuel : Nat} (hN : Positive N) (hbad : ¬ Told N)
    (ops : List (Op Entry)) {m : Memory Entry} {base : Nat} {stored : List Entry}
    (h : Holds (window N) m base stored)
    (hresults : results N fuel m ops = some (fifo N stored ops)) :
    NeverFull (window N) stored.length ops := by
  induction ops generalizing m base stored with
  | nil => trivial
  | cons op ops ih =>
      cases op with
      | push entry =>
          unfold results fifo at hresults
          cases fuel with
          | zero => simp [Memory.tryPush, pushLoop] at hresults
          | succ fuel =>
              rcases Nat.lt_or_ge stored.length (window N) with hroom | hfull
              · rcases h.tryPush_room hN hroom entry fuel with ⟨m', hpush, hholds⟩
                rw [hpush, if_pos (Nat.lt_of_lt_of_le hroom (window_le N))] at hresults
                apply And.intro hroom
                have hrest : results N (fuel + 1) m' ops =
                    some (fifo N (stored ++ [entry]) ops) := by
                  simpa using hresults
                have hnever := ih hholds hrest
                rwa [List.length_append, List.length_singleton] at hnever
              · exfalso
                have heq := Nat.le_antisymm h.length_le hfull
                rcases hN.window_cases with hone | ⟨hlow, hhigh, _⟩ | ⟨_, hwindow⟩
                · subst hone
                  rcases h.tryPush_one heq entry with ⟨m', hpush⟩
                  rw [hpush, if_neg (by rw [heq]; decide)] at hresults
                  simp at hresults
                · exact hbad ⟨hlow, hhigh⟩
                · rw [h.tryPush_wrapped hN hwindow heq] at hresults
                  simp at hresults
      | pop =>
          unfold results at hresults
          cases stored with
          | nil =>
              rw [h.tryPop_nil hN] at hresults
              exact ih h (by simpa [fifo] using hresults)
          | cons entry stored =>
              rcases h.tryPop_cons hN with ⟨m', hpop, hholds⟩
              rw [hpop] at hresults
              exact ih hholds (by simpa [fifo] using hresults)

theorem not_neverFull_pushes (M : Nat) (entry : Entry) (k : Nat) {n : Nat} (hn : n + k = M) :
    ¬ NeverFull M n (List.replicate (k + 1) (Op.push entry)) := by
  induction k generalizing n with
  | zero =>
      intro hnever
      exact absurd hnever.1 (by omega)
  | succ k ih =>
      intro hnever
      exact ih (by omega) hnever.2

theorem works_zero_iff [Inhabited Entry] (ops : List (Op Entry)) : Works 0 ops ↔ ops = [] := by
  constructor
  · rintro ⟨fuel, hresults⟩
    cases ops with
    | nil => rfl
    | cons op ops =>
        cases op with
        | push entry =>
            cases fuel with
            | zero => simp [results, Memory.tryPush, pushLoop] at hresults
            | succ fuel => simp [results, Memory.tryPush, pushLoop] at hresults
        | pop => simp [results, Memory.tryPop] at hresults
  · intro hops
    rw [hops]
    exact ⟨0, rfl⟩

theorem Positive.results_iff [Inhabited Entry] {N : Nat} (hN : Positive N)
    (ops : List (Op Entry)) : Works N ops ↔ Told N ∨ NeverFull (window N) 0 ops := by
  constructor
  · rintro ⟨fuel, hresults⟩
    by_cases htold : Told N
    · exact Or.inl htold
    · exact Or.inr (neverFull_of_results hN htold ops (holds_start _) hresults)
  · intro hgood
    exact ⟨1, results_of_told hN ops (holds_start _) hgood⟩

/-- For every admitted capacity, all sequences of calls return what a bounded FIFO of that
capacity returns, exactly if it lies between `2` and `2 ^ 31`.  At another one those
sequences do that never push when the reachable slots are full, and at capacity zero only
the empty one. -/
theorem works_iff [Inhabited Entry] (N : Nat) (hN : Admitted N) :
    ((∀ ops : List (Op Entry), Works N ops) ↔ 2 ≤ N ∧ N ≤ 2 ^ 31) ∧
      ∀ ops : List (Op Entry), Works N ops ↔
        (2 ≤ N ∧ N ≤ 2 ^ 31) ∨ (0 < N ∧ NeverFull (window N) 0 ops) ∨ ops = [] := by
  have hops : ∀ ops : List (Op Entry), Works N ops ↔
      (2 ≤ N ∧ N ≤ 2 ^ 31) ∨ (0 < N ∧ NeverFull (window N) 0 ops) ∨ ops = [] := by
    intro ops
    rcases (admitted_iff N).mp hN with hzero | hpositive
    · rw [hzero, works_zero_iff]
      simp
    · have hpos : 0 < N := Positive.pos hpositive
      rw [Positive.results_iff hpositive]
      constructor
      · rintro (htold | hnever)
        · exact Or.inl htold
        · exact Or.inr (Or.inl ⟨hpos, hnever⟩)
      · rintro (htold | ⟨_, hnever⟩ | hnil)
        · exact Or.inl htold
        · exact Or.inr hnever
        · rw [hnil]
          exact Or.inr trivial
  refine ⟨⟨?_, fun htold ops => (hops ops).mpr (Or.inl htold)⟩, hops⟩
  intro hall
  have hfull := (hops _).mp (hall (List.replicate (window N + 1) (.push default)))
  rcases hfull with htold | ⟨_, hnever⟩ | hnil
  · exact htold
  · exact absurd hnever (not_neverFull_pushes _ _ (window N) (Nat.zero_add _))
  · simp at hnil

/-- Four slots, filled and emptied again. -/
theorem works_iff_four :
    Admitted 4 ∧ Works 4 [Op.push 7, .push 8, .pop, .pop, .pop] := by
  have hN : Admitted 4 := by decide
  exact ⟨hN, (works_iff 4 hN).1.mpr ⟨by decide, by decide⟩ _⟩

/-- A queue with one slot takes a second entry and loses the first. -/
theorem one_slot_overwrites :
    ¬ ∀ N, Admitted N → ∀ ops : List (Op Nat), Works N ops := by
  intro hall
  rcases hall 1 (by decide) [.push 7, .push 8] with ⟨fuel, hresults⟩
  have hN : Positive 1 := ⟨0, by decide, rfl⟩
  have hbad : ¬ Told 1 := fun htold => absurd htold.1 (by decide)
  have hnever : NeverFull (window 1) 0 [Op.push 7, .push 8] :=
    neverFull_of_results hN hbad _ (holds_start _) hresults
  exact absurd hnever.2.1 (by decide)

/-! ## The calls as accesses -/

/-- The memory without the history of its slots. -/
def State.memory (s : State P Entry) : Memory Entry where
  head := s.head
  tail := s.tail
  slots i := { seq := (s.slots i).seq, data := (s.slots i).data }

theorem index_eq_slotIndex {N : Nat} (hpos : 0 < N) (hlt : N < 2 ^ 64) (ticket : BitVec 32) :
    index N ticket = slotIndex N ticket := by
  unfold index slotIndex
  rw [pred_eq hpos hlt]

/-- What a call of `TryPush` that `p` makes alone leaves behind. -/
structure Pushed (s s' : State P Entry) (p : P) (ok : Bool) (m : Memory Entry) : Prop where
  returned : s'.producers p = .returned ok
  memory : s'.memory = m
  others : ∀ q, q ≠ p → s'.producers q = s.producers q
  consumer : s'.consumer = s.consumer
  claims : s'.claims.length = s.claims.length + ok.toNat
  popped : s'.popped = s.popped

section Accesses

variable [DecidableEq P] {N : Nat} {s : State P Entry} {p : P}

theorem step_loadSeq {entry : Entry} {head : BitVec 32} {t : Nat}
    (hpc : s.producers p = .loadSeq entry head t) (pc : PushPc Entry)
    (hnext : pc =
      if ticketDiff (s.slots (slotIndex N head)).seq head = 0 then .cas entry head t
      else if ticketDiff (s.slots (slotIndex N head)).seq head < 0 then .returned false
      else .loadHead entry) :
    step N s (.producer p) = some (s.setProducer p pc) := by
  show s.producerStep N p = _
  unfold State.producerStep
  rw [hpc, hnext]
  dsimp only
  split
  · rfl
  · split <;> rfl

theorem step_loadHead {entry : Entry} (hpc : s.producers p = .loadHead entry) :
    step N s (.producer p) =
      some (s.setProducer p (.loadSeq entry s.head s.claims.length)) := by
  show s.producerStep N p = _
  unfold State.producerStep
  rw [hpc]

theorem step_cas_fail {entry : Entry} {head : BitVec 32} {t : Nat}
    (hpc : s.producers p = .cas entry head t) (hhead : ¬ s.head = head) :
    step N s (.producer p) =
      some (s.setProducer p (.loadSeq entry s.head s.claims.length)) := by
  show s.producerStep N p = _
  unfold State.producerStep
  rw [hpc]
  exact if_neg hhead

omit [DecidableEq P] in
theorem fresh_of_age (hage : s.headAge p = 0) : FreshHeads 1 s (.producer p) :=
  Nat.lt_one_iff.mpr hage

/-- The accesses behind a comparison that finds the slot free. -/
theorem reach_claim {entry : Entry} {head : BitVec 32} {t : Nat} (hN : 0 < N) (hlt : N < 2 ^ 64)
    (hpc : s.producers p = .cas entry head t) (ht : t = s.claims.length) (hhead : s.head = head) :
    ∃ s', Reach (step N) (FreshHeads 1) s s' ∧
      Pushed s s' p true
        { s.memory with
          head := head + 1
          slots := Function.update s.memory.slots (index N head)
            { seq := head + 1, data := entry } } := by
  let s₁ : State P Entry :=
    { s.setProducer p (.writeData entry head t) with
      head := head + 1
      claims := s.claims ++ [{ producer := p, call := (s.calls p).length - 1, entry := entry }] }
  let s₂ := (s₁.setProducer p (.storeSeq entry head t)).modifySlot (slotIndex N head)
    fun slot => { slot with data := entry, unread := true }
  let s₃ := (s₂.setProducer p (.returned true)).modifySlot (slotIndex N head)
    fun slot => { slot with seq := head + 1 }
  have hpc₁ : s₁.producers p = .writeData entry head t := by
    simp [s₁, State.setProducer]
  have hpc₂ : s₂.producers p = .storeSeq entry head t := by
    simp [s₂, State.setProducer, State.modifySlot]
  have hstep₁ : step N s (.producer p) = some s₁ := by
    show s.producerStep N p = some s₁
    unfold State.producerStep
    rw [hpc]
    exact if_pos hhead
  have hstep₂ : step N s₁ (.producer p) = some s₂ := by
    show s₁.producerStep N p = some s₂
    unfold State.producerStep
    rw [hpc₁]
  have hstep₃ : step N s₂ (.producer p) = some s₃ := by
    show s₂.producerStep N p = some s₃
    unfold State.producerStep
    rw [hpc₂]
  have hfresh : FreshHeads 1 s (.producer p) := fresh_of_age (by simp [State.headAge, hpc, ht])
  have hfresh₁ : FreshHeads 1 s₁ (.producer p) := fresh_of_age (by simp [State.headAge, hpc₁])
  have hfresh₂ : FreshHeads 1 s₂ (.producer p) := fresh_of_age (by simp [State.headAge, hpc₂])
  have hreach₃ : Reach (step N) (FreshHeads 1) s s₃ :=
    ((Reach.start.step hfresh hstep₁).step hfresh₁ hstep₂).step hfresh₂ hstep₃
  refine ⟨s₃, hreach₃, ?_⟩
  constructor
  case returned => simp [s₃, State.setProducer, State.modifySlot]
  case memory =>
    have hslots : s₃.memory.slots = Function.update s.memory.slots (index N head)
        { seq := head + 1, data := entry } := by
      rw [index_eq_slotIndex hN hlt]
      funext i
      by_cases hi : i = slotIndex N head
      · simp [hi, s₃, s₂, State.memory, State.modifySlot, State.setProducer]
      · simp [hi, s₃, s₂, s₁, State.memory, State.modifySlot, State.setProducer]
    show ({ head := head + 1, tail := s.tail, slots := s₃.memory.slots } : Memory Entry) = _
    rw [hslots]
    rfl
  case others =>
    intro q hq
    simp [s₃, s₂, s₁, State.setProducer, State.modifySlot, hq]
  case consumer => rfl
  case claims => simp [s₃, s₂, s₁, State.setProducer, State.modifySlot]
  case popped => rfl

/-- A step of `p` in front that touches nothing else. -/
theorem Pushed.of_setProducer {s' : State P Entry} {pc : PushPc Entry} {ok : Bool}
    {m : Memory Entry} (h : Pushed (s.setProducer p pc) s' p ok m) : Pushed s s' p ok m where
  returned := h.returned
  memory := h.memory
  others q hq := (h.others q hq).trans (by simp [State.setProducer, hq])
  consumer := h.consumer
  claims := h.claims
  popped := h.popped

/-- The accesses of the loop, from the load of the sequence number on. -/
theorem pushLoop_run (hN : 0 < N) (hlt : N < 2 ^ 64) (fuel : Nat) {entry : Entry}
    {head : BitVec 32} {t : Nat} {ok : Bool} {m : Memory Entry}
    (hpc : s.producers p = .loadSeq entry head t) (ht : t = s.claims.length)
    (hloop : pushLoop N entry fuel s.memory head = some (ok, m)) :
    ∃ s', Reach (step N) (FreshHeads 1) s s' ∧ Pushed s s' p ok m := by
  induction fuel generalizing s head t with
  | zero => simp [pushLoop] at hloop
  | succ fuel ih =>
      have hfresh : FreshHeads 1 s (.producer p) :=
        fresh_of_age (by simp [State.headAge, hpc, ht])
      have hself : ∀ pc, (s.setProducer p pc).producers p = pc := by
        intro pc
        simp [State.setProducer]
      have hother : ∀ pc q, q ≠ p → (s.setProducer p pc).producers q = s.producers q := by
        intro pc q hq
        simp [State.setProducer, hq]
      have hself₂ : ∀ pc, ((s.setProducer p pc).setProducer p
          (.loadSeq entry s.head s.claims.length)).producers p =
            .loadSeq entry s.head s.claims.length := by
        intro pc
        simp [State.setProducer]
      unfold pushLoop at hloop
      dsimp only at hloop
      rw [index_eq_slotIndex hN hlt] at hloop
      by_cases hinside : N ≤ slotIndex N head
      · rw [if_pos hinside] at hloop
        contradiction
      · rw [if_neg hinside] at hloop
        have hseq : (s.memory.slots (slotIndex N head)).seq =
            (s.slots (slotIndex N head)).seq := rfl
        rw [hseq] at hloop
        by_cases hzero : ticketDiff (s.slots (slotIndex N head)).seq head = 0
        · have hstep := step_loadSeq (N := N) hpc (.cas entry head t) (by rw [if_pos hzero])
          rw [if_pos hzero] at hloop
          have hfresh₁ : FreshHeads 1 (s.setProducer p (.cas entry head t)) (.producer p) :=
            fresh_of_age (by simp [State.headAge, State.setProducer, ht])
          by_cases hhead : s.head = head
          · have hclaim := reach_claim hN hlt (hself (.cas entry head t)) ht hhead
            rw [if_pos (show s.memory.head = head from hhead)] at hloop
            rw [← index_eq_slotIndex hN hlt] at hloop
            cases hloop
            rcases hclaim with ⟨s', hreach, hpushed⟩
            exact ⟨s', (Reach.start.step hfresh hstep).trans hreach, hpushed.of_setProducer⟩
          · rw [if_neg (show ¬ s.memory.head = head from hhead)] at hloop
            have hfail := step_cas_fail (N := N) (hself (.cas entry head t)) hhead
            have hrest := ih (hself₂ (.cas entry head t)) rfl hloop
            rcases hrest with ⟨s', hreach, hpushed⟩
            exact ⟨s', ((Reach.start.step hfresh hstep).step hfresh₁ hfail).trans hreach,
              hpushed.of_setProducer.of_setProducer⟩
        · rw [if_neg hzero] at hloop
          by_cases hneg : ticketDiff (s.slots (slotIndex N head)).seq head < 0
          · have hstep := step_loadSeq (N := N) hpc (.returned false)
              (by rw [if_neg hzero, if_pos hneg])
            rw [if_pos hneg] at hloop
            cases hloop
            exact ⟨_, Reach.start.step hfresh hstep, hself _, rfl, hother _, rfl, rfl, rfl⟩
          · have hstep := step_loadSeq (N := N) hpc (.loadHead entry)
              (by rw [if_neg hzero, if_neg hneg])
            have hage : (s.setProducer p (.loadHead entry)).headAge p = 0 := by
              unfold State.headAge
              rw [hself]
            have hfresh₁ : FreshHeads 1 (s.setProducer p (.loadHead entry)) (.producer p) :=
              fresh_of_age hage
            rw [if_neg hneg] at hloop
            have hload := step_loadHead (N := N) (hself (.loadHead entry))
            have hrest := ih (hself₂ (.loadHead entry)) rfl hloop
            rcases hrest with ⟨s', hreach, hpushed⟩
            exact ⟨s', ((Reach.start.step hfresh hstep).step hfresh₁ hload).trans hreach,
              hpushed.of_setProducer.of_setProducer⟩

/-- A call of `TryPush` that no other thread interrupts is a run of accesses. -/
theorem tryPush_run (hN : 0 < N) (hlt : N < 2 ^ 64) {fuel : Nat} {entry : Entry} {ok : Bool}
    {m : Memory Entry} (hrest : s.producers p = .idle ∨ ∃ ok, s.producers p = .returned ok)
    (hcall : s.memory.tryPush N fuel entry = some (ok, m)) :
    ∃ s', Reach (step N) (FreshHeads 1) s s' ∧ Pushed s s' p ok m := by
  let s₁ : State P Entry :=
    { s.setProducer p (.loadHead entry) with
      calls := Function.update s.calls p (s.calls p ++ [entry]) }
  let s₂ := s₁.setProducer p (.loadSeq entry s.head s.claims.length)
  have hpc₁ : s₁.producers p = .loadHead entry := by simp [s₁, State.setProducer]
  have hpc₂ : s₂.producers p = .loadSeq entry s.head s.claims.length := by
    simp [s₂, State.setProducer]
  have hstep₁ : step N s (.call p entry) = some s₁ := by
    show s.callStep p entry = some s₁
    unfold State.callStep
    rcases hrest with hidle | ⟨ok', hreturned⟩
    · rw [hidle]
    · rw [hreturned]
  have hfresh₁ : FreshHeads 1 s₁ (.producer p) := fresh_of_age (by simp [State.headAge, hpc₁])
  have hreach₂ : Reach (step N) (FreshHeads 1) s s₂ :=
    (Reach.start.step trivial hstep₁).step hfresh₁ (step_loadHead hpc₁)
  rcases pushLoop_run hN hlt fuel hpc₂ rfl hcall with ⟨s', hreach, hpushed⟩
  refine ⟨s', hreach₂.trans hreach, hpushed.returned, hpushed.memory, ?_, hpushed.consumer,
    hpushed.claims, hpushed.popped⟩
  intro q hq
  rw [hpushed.others q hq]
  simp [s₂, s₁, State.setProducer, hq]

/-- What a call of `TryPop` that no other thread interrupts leaves behind. -/
structure Popped (s s' : State P Entry) (out : Option Entry) (m : Memory Entry) : Prop where
  returned : s'.consumer = .returned out
  memory : s'.memory = m
  producers : s'.producers = s.producers
  claims : s'.claims = s.claims
  popped : s'.popped = s.popped ++ out.toList

/-- A call of `TryPop` that no other thread interrupts is a run of accesses. -/
theorem tryPop_run (hN : 0 < N) (hlt : N < 2 ^ 64) {out : Option Entry} {m : Memory Entry}
    (hrest : s.consumer = .idle ∨ ∃ out, s.consumer = .returned out)
    (hcall : s.memory.tryPop N = some (out, m)) :
    ∃ s', Reach (step N) (FreshHeads 1) s s' ∧ Popped s s' out m := by
  let s₁ : State P Entry := { s with consumer := .loadSeq s.tail }
  have hstep₁ : step N s .consumer = some s₁ := by
    show some (s.consumerStep N) = some s₁
    unfold State.consumerStep
    rcases hrest with hidle | ⟨out', hreturned⟩
    · rw [hidle]
    · rw [hreturned]
  unfold Memory.tryPop at hcall
  dsimp only at hcall
  rw [index_eq_slotIndex hN hlt] at hcall
  by_cases hinside : N ≤ slotIndex N s.memory.tail
  · rw [if_pos hinside] at hcall
    contradiction
  · rw [if_neg hinside] at hcall
    by_cases hdiff : ticketDiff (s.slots (slotIndex N s.tail)).seq (s.tail + 1) = 0
    · let s₂ : State P Entry := { s₁ with consumer := .readData s.tail }
      let s₃ : State P Entry :=
        { s₂.modifySlot (slotIndex N s.tail) (fun slot => { slot with unread := false }) with
          consumer := .storeTail s.tail (s.slots (slotIndex N s.tail)).data }
      let s₄ : State P Entry :=
        { s₃ with
          tail := s.tail + 1
          consumer := .storeSeq s.tail (s.slots (slotIndex N s.tail)).data }
      let s₅ : State P Entry :=
        { s₄.modifySlot (slotIndex N s.tail)
            (fun slot => { slot with seq := s.tail + BitVec.ofNat 32 N }) with
          consumer := .returned (some (s.slots (slotIndex N s.tail)).data)
          popped := s.popped ++ [(s.slots (slotIndex N s.tail)).data] }
      have hstep₂ : step N s₁ .consumer = some s₂ := congrArg some (if_pos hdiff)
      have hstep₃ : step N s₂ .consumer = some s₃ := rfl
      have hstep₄ : step N s₃ .consumer = some s₄ := rfl
      have hstep₅ : step N s₄ .consumer = some s₅ := rfl
      have hfresh : ∀ t : State P Entry, FreshHeads 1 t .consumer := fun _ => trivial
      have hreach : Reach (step N) (FreshHeads 1) s s₅ :=
        ((((Reach.start.step (hfresh s) hstep₁).step (hfresh s₁) hstep₂).step (hfresh s₂)
          hstep₃).step (hfresh s₃) hstep₄).step (hfresh s₄) hstep₅
      have hmemory : ticketDiff (s.memory.slots (slotIndex N s.memory.tail)).seq
          (s.memory.tail + 1) = 0 := hdiff
      rw [if_pos hmemory] at hcall
      cases hcall
      refine ⟨s₅, hreach, rfl, ?_, rfl, rfl, rfl⟩
      have hslots : s₅.memory.slots = Function.update s.memory.slots (slotIndex N s.tail)
          { seq := s.tail + BitVec.ofNat 32 N, data := (s.slots (slotIndex N s.tail)).data } := by
        funext i
        by_cases hi : i = slotIndex N s.tail
        · simp [hi, s₅, s₄, s₃, s₂, s₁, State.memory, State.modifySlot]
        · simp [hi, s₅, s₄, s₃, s₂, s₁, State.memory, State.modifySlot]
      show ({ head := s.head, tail := s.tail + 1, slots := s₅.memory.slots } : Memory Entry) = _
      rw [hslots]
      rfl
    · have hmemory : ¬ ticketDiff (s.memory.slots (slotIndex N s.memory.tail)).seq
          (s.memory.tail + 1) = 0 := hdiff
      rw [if_neg hmemory] at hcall
      cases hcall
      have hstep₂ : step N s₁ .consumer = some { s₁ with consumer := .returned none } :=
        congrArg some (if_neg hdiff)
      have hfresh : ∀ t : State P Entry, FreshHeads 1 t .consumer := fun _ => trivial
      exact ⟨_, (Reach.start.step (hfresh s) hstep₁).step (hfresh s₁) hstep₂, rfl, rfl, rfl, rfl,
        (List.append_nil _).symm⟩

end Accesses

end LogQueue
end Log
end DtCore
