import Mathlib.Data.List.Basic
import Mathlib.Data.List.Sublists
import Mathlib.Data.List.Sort

/-!
# A waiting line that may drop its oldest message

Messages are numbered as they are published.  A message is sent at once, waits
in line, or is refused; a full line makes room by dropping the message that has
waited longest.  Whatever the line does, the sent messages followed by the
waiting ones keep the order of publishing, and a dropped message was overtaken
by every message that entered behind it.

Main results:

- Inductive `Line.Step`: the moves of a line of a given capacity, where a negative
  capacity is unlimited and capacity zero refuses.
- Structure `Line.Ordered`: order and numbering of the sent and waiting messages,
  kept by every operation.
- Theorem `Line.Step.good`: the moves keep the order, lose nothing without a
  capacity, and with capacity `n` lose only messages that `n` newer ones overtook.
-/

namespace DtCore
namespace Foundation

variable {Msg : Type}

/-- A message with its place in the order of publishing. -/
structure Numbered (Msg : Type) where
  seq : Nat
  msg : Msg

/-- A line with its history: `entered` holds the numbers of all messages that
ever had to wait. -/
structure Line (Msg : Type) where
  published : List Msg
  sent : List (Numbered Msg)
  waiting : List (Numbered Msg)
  entered : List Nat

namespace Line

/-! ## Operations -/

/-- A line on which nothing was published. -/
def empty : Line Msg where
  published := []
  sent := []
  waiting := []
  entered := []

/-- The next published message with its number. -/
def number (l : Line Msg) (msg : Msg) : Numbered Msg :=
  { seq := l.published.length, msg := msg }

/-- Publish a message that is neither sent nor put in line. -/
def refuse (l : Line Msg) (msg : Msg) : Line Msg :=
  { l with published := l.published ++ [msg] }

/-- Publish a message and send it at once. -/
def sendNow (l : Line Msg) (msg : Msg) : Line Msg :=
  { l with published := l.published ++ [msg], sent := l.sent ++ [l.number msg] }

/-- Publish a message and put it at the end of the line. -/
def enter (l : Line Msg) (msg : Msg) : Line Msg :=
  { l with
    published := l.published ++ [msg]
    waiting := l.waiting ++ [l.number msg]
    entered := l.entered ++ [l.published.length] }

/-- Drop the message that has waited longest. -/
def dropOldest (l : Line Msg) : Line Msg :=
  { l with waiting := l.waiting.tail }

/-- Send the message that has waited longest. -/
def sendNext (l : Line Msg) : Line Msg :=
  match l.waiting with
  | [] => l
  | x :: rest => { l with sent := l.sent ++ [x], waiting := rest }

/-! ## Order -/

/-- The messages that were not lost, in the order in which they leave. -/
def kept (l : Line Msg) : List (Numbered Msg) :=
  l.sent ++ l.waiting

/-- Every kept message carries its own number and the order is that of
publishing. -/
structure Ordered (l : Line Msg) : Prop where
  indexed : ∀ x ∈ l.kept, l.published[x.seq]? = some x.msg
  increasing : (l.kept.map Numbered.seq).Pairwise (· < ·)
  subsequence : (l.kept.map Numbered.msg).Sublist l.published
  waiting_entered : (l.waiting.map Numbered.seq).Sublist l.entered
  entered_published : l.entered.Sublist (List.range l.published.length)

theorem ordered_empty : Ordered (empty : Line Msg) where
  indexed := by simp [kept, empty]
  increasing := by simp [kept, empty]
  subsequence := by simp [kept, empty]
  waiting_entered := by simp [empty]
  entered_published := by simp [empty]

theorem Ordered.seq_lt {l : Line Msg} (h : l.Ordered) {x : Numbered Msg} (hx : x ∈ l.kept) :
    x.seq < l.published.length := by
  have hget := h.indexed x hx
  exact (List.getElem?_eq_some_iff.mp hget).1

/-- Publishing keeps the numbers that are already given. -/
theorem Ordered.indexed_append {l : Line Msg} (h : l.Ordered) (msg : Msg)
    {x : Numbered Msg} (hx : x ∈ l.kept) :
    (l.published ++ [msg])[x.seq]? = some x.msg := by
  rw [List.getElem?_append_left (h.seq_lt hx)]
  exact h.indexed x hx

theorem Ordered.indexed_number (l : Line Msg) (msg : Msg) :
    (l.published ++ [msg])[(l.number msg).seq]? = some (l.number msg).msg := by
  simp [number]

theorem Ordered.increasing_append {l : Line Msg} (h : l.Ordered) (msg : Msg) :
    ((l.kept ++ [l.number msg]).map Numbered.seq).Pairwise (· < ·) := by
  rw [List.map_append, List.pairwise_append]
  constructor
  · exact h.increasing
  · constructor
    · simp
    · intro i hi j hj
      rcases List.mem_map.mp hi with ⟨x, hx, rfl⟩
      simp only [List.map_cons, List.map_nil, List.mem_singleton] at hj
      rw [hj]
      exact h.seq_lt hx

theorem Ordered.subsequence_append {l : Line Msg} (h : l.Ordered) (msg : Msg) :
    ((l.kept ++ [l.number msg]).map Numbered.msg).Sublist (l.published ++ [msg]) := by
  rw [List.map_append]
  exact h.subsequence.append (List.Sublist.refl _)

theorem Ordered.entered_grow {l : Line Msg} (h : l.Ordered) (msg : Msg) :
    l.entered.Sublist (List.range (l.published ++ [msg]).length) := by
  rw [List.length_append, List.length_singleton, List.range_succ]
  exact List.sublist_append_of_sublist_left h.entered_published

theorem Ordered.refuse {l : Line Msg} (h : l.Ordered) (msg : Msg) : (l.refuse msg).Ordered where
  indexed := by
    intro x hx
    exact h.indexed_append msg hx
  increasing := h.increasing
  subsequence := List.sublist_append_of_sublist_left h.subsequence
  waiting_entered := h.waiting_entered
  entered_published := h.entered_grow msg

/-- A message that overtakes nobody may be sent at once. -/
theorem Ordered.sendNow {l : Line Msg} (h : l.Ordered) (hempty : l.waiting = []) (msg : Msg) :
    (l.sendNow msg).Ordered := by
  have hkept : (l.sendNow msg).kept = l.kept ++ [l.number msg] := by
    simp [kept, Line.sendNow, hempty]
  constructor
  · intro x hx
    rw [hkept, List.mem_append, List.mem_singleton] at hx
    rcases hx with hx | rfl
    · exact h.indexed_append msg hx
    · exact Ordered.indexed_number l msg
  · rw [hkept]
    exact h.increasing_append msg
  · rw [hkept]
    exact h.subsequence_append msg
  · exact h.waiting_entered
  · exact h.entered_grow msg

theorem kept_enter (l : Line Msg) (msg : Msg) :
    (l.enter msg).kept = l.kept ++ [l.number msg] := by
  simp [kept, enter]

theorem Ordered.enter {l : Line Msg} (h : l.Ordered) (msg : Msg) : (l.enter msg).Ordered where
  indexed := by
    intro x hx
    rw [kept_enter, List.mem_append, List.mem_singleton] at hx
    rcases hx with hx | rfl
    · exact h.indexed_append msg hx
    · exact Ordered.indexed_number l msg
  increasing := by
    rw [kept_enter]
    exact h.increasing_append msg
  subsequence := by
    rw [kept_enter]
    exact h.subsequence_append msg
  waiting_entered := by
    simp only [Line.enter, List.map_append, List.map_cons, List.map_nil]
    exact h.waiting_entered.append (List.Sublist.refl _)
  entered_published := by
    simp only [Line.enter, List.length_append, List.length_singleton, List.range_succ]
    exact h.entered_published.append (List.Sublist.refl _)

theorem kept_dropOldest_sublist (l : Line Msg) : l.dropOldest.kept.Sublist l.kept :=
  (List.Sublist.refl _).append (List.tail_sublist _)

theorem Ordered.dropOldest {l : Line Msg} (h : l.Ordered) : l.dropOldest.Ordered where
  indexed := by
    intro x hx
    exact h.indexed x ((kept_dropOldest_sublist l).mem hx)
  increasing := h.increasing.sublist ((kept_dropOldest_sublist l).map _)
  subsequence := ((kept_dropOldest_sublist l).map _).trans h.subsequence
  waiting_entered := ((List.tail_sublist _).map _).trans h.waiting_entered
  entered_published := h.entered_published

@[simp]
theorem kept_sendNext (l : Line Msg) : l.sendNext.kept = l.kept := by
  unfold sendNext
  split <;> simp_all [kept]

@[simp]
theorem published_sendNext (l : Line Msg) : l.sendNext.published = l.published := by
  unfold sendNext
  split <;> rfl

@[simp]
theorem entered_sendNext (l : Line Msg) : l.sendNext.entered = l.entered := by
  unfold sendNext
  split <;> rfl

@[simp]
theorem waiting_sendNext (l : Line Msg) : l.sendNext.waiting = l.waiting.tail := by
  unfold sendNext
  split <;> simp_all

theorem Ordered.sendNext {l : Line Msg} (h : l.Ordered) : l.sendNext.Ordered where
  indexed := by simpa using h.indexed
  increasing := by simpa using h.increasing
  subsequence := by simpa using h.subsequence
  waiting_entered := by
    simpa using ((List.tail_sublist l.waiting).map Numbered.seq).trans h.waiting_entered
  entered_published := by simpa using h.entered_published

/-- The messages that left are a part of the published ones, in their order. -/
theorem Ordered.sent_subsequence {l : Line Msg} (h : l.Ordered) :
    (l.sent.map Numbered.msg).Sublist l.published :=
  ((List.sublist_append_left _ _).map _).trans h.subsequence

theorem Ordered.sent_increasing {l : Line Msg} (h : l.Ordered) :
    (l.sent.map Numbered.seq).Pairwise (· < ·) :=
  h.increasing.sublist ((List.sublist_append_left _ _).map _)

/-! ## Losses -/

/-- The message with number `i` was sent or is waiting. -/
def Keeps (l : Line Msg) (i : Nat) : Prop :=
  ∃ x ∈ l.kept, x.seq = i

/-- `n` newer messages entered the line behind message `i`. -/
def Overtaken (n : Nat) (l : Line Msg) (i : Nat) : Prop :=
  n ≤ (l.entered.filter (i < ·)).length

/-- No published message was lost. -/
def Lossless (l : Line Msg) : Prop :=
  ∀ i, i < l.published.length → l.Keeps i

/-- Only messages that `n` newer ones overtook were lost. -/
def LosesOldest (n : Nat) (l : Line Msg) : Prop :=
  ∀ i, i < l.published.length → l.Keeps i ∨ l.Overtaken n i

theorem keeps_number_of_kept_append {l m : Line Msg} {msg : Msg}
    (hkept : m.kept = l.kept ++ [l.number msg])
    (hpub : m.published = l.published ++ [msg]) {i : Nat} (hi : i < m.published.length)
    (hnew : ¬ i < l.published.length) : m.Keeps i := by
  rw [hpub, List.length_append, List.length_singleton] at hi
  have heq : i = l.published.length := by omega
  exact ⟨l.number msg, by simp [hkept], heq.symm⟩

theorem Keeps.of_kept_append {l m : Line Msg} {x : Numbered Msg}
    (hkept : m.kept = l.kept ++ [x]) {i : Nat} (h : l.Keeps i) : m.Keeps i := by
  rcases h with ⟨y, hy, hyi⟩
  exact ⟨y, by simp [hkept, hy], hyi⟩

/-- Without a loss the messages that were kept carry all the numbers. -/
theorem Lossless.numbers {l : Line Msg} (hall : l.Lossless) (h : l.Ordered) :
    l.kept.map Numbered.seq = List.range l.published.length := by
  apply h.increasing.eq_of_mem_iff List.pairwise_lt_range
  intro i
  rw [List.mem_range]
  constructor
  · intro hi
    rcases List.mem_map.mp hi with ⟨x, hx, rfl⟩
    exact h.seq_lt hx
  · intro hi
    exact List.mem_map.mpr (hall i hi)

/-- A line that lost nothing holds everything that was published. -/
theorem Lossless.kept_eq {l : Line Msg} (hall : l.Lossless) (h : l.Ordered) :
    l.kept.map Numbered.msg = l.published := by
  have hlen : l.kept.length = l.published.length := by
    have hnumbers := congrArg List.length (hall.numbers h)
    simpa using hnumbers
  apply List.ext_getElem (by simpa using hlen)
  intro i hi hi'
  have hseq : l.kept[i].seq = i := by
    have hnumber := List.getElem_of_eq (hall.numbers h) (by simpa using hi)
    simpa using hnumber
  have hget := h.indexed l.kept[i] (List.getElem_mem _)
  rw [hseq, List.getElem?_eq_getElem hi', Option.some.injEq] at hget
  rw [List.getElem_map]
  exact hget.symm

theorem lossless_sendNow {l : Line Msg} (h : l.Lossless) (hempty : l.waiting = [])
    (msg : Msg) : (l.sendNow msg).Lossless := by
  have hkept : (l.sendNow msg).kept = l.kept ++ [l.number msg] := by
    simp [kept, Line.sendNow, hempty]
  intro i hi
  by_cases hold : i < l.published.length
  · exact (h i hold).of_kept_append hkept
  · exact keeps_number_of_kept_append hkept rfl hi hold

theorem lossless_enter {l : Line Msg} (h : l.Lossless) (msg : Msg) :
    (l.enter msg).Lossless := by
  intro i hi
  by_cases hold : i < l.published.length
  · exact (h i hold).of_kept_append (kept_enter l msg)
  · exact keeps_number_of_kept_append (kept_enter l msg) rfl hi hold

theorem lossless_sendNext {l : Line Msg} (h : l.Lossless) : l.sendNext.Lossless := by
  intro i hi
  rw [published_sendNext] at hi
  simpa [Keeps] using h i hi

/-- Later entries only add to the messages that overtook `i`. -/
theorem Overtaken.append {n i : Nat} {l m : Line Msg} {new : List Nat}
    (hm : m.entered = l.entered ++ new) (h : l.Overtaken n i) : m.Overtaken n i := by
  unfold Overtaken at h ⊢
  rw [hm, List.filter_append, List.length_append]
  omega

theorem losesOldest_sendNow {n : Nat} {l : Line Msg} (h : l.LosesOldest n)
    (hempty : l.waiting = []) (msg : Msg) : (l.sendNow msg).LosesOldest n := by
  have hkept : (l.sendNow msg).kept = l.kept ++ [l.number msg] := by
    simp [kept, Line.sendNow, hempty]
  intro i hi
  by_cases hold : i < l.published.length
  · rcases h i hold with hkeep | hover
    · exact Or.inl (hkeep.of_kept_append hkept)
    · exact Or.inr hover
  · exact Or.inl (keeps_number_of_kept_append hkept rfl hi hold)

theorem losesOldest_enter {n : Nat} {l : Line Msg} (h : l.LosesOldest n) (msg : Msg) :
    (l.enter msg).LosesOldest n := by
  intro i hi
  by_cases hold : i < l.published.length
  · rcases h i hold with hkeep | hover
    · exact Or.inl (hkeep.of_kept_append (kept_enter l msg))
    · exact Or.inr (hover.append rfl)
  · exact Or.inl (keeps_number_of_kept_append (kept_enter l msg) rfl hi hold)

theorem losesOldest_sendNext {n : Nat} {l : Line Msg} (h : l.LosesOldest n) :
    l.sendNext.LosesOldest n := by
  intro i hi
  rw [published_sendNext] at hi
  simpa [Keeps, Overtaken] using h i hi

/-- The oldest message of a line of at least `n` messages is overtaken `n` times
once another one has entered: the others of the line and the new one are newer. -/
theorem Ordered.overtaken_oldest {n : Nat} {l : Line Msg} (h : l.Ordered)
    {x : Numbered Msg} {rest : List (Numbered Msg)} (hwait : l.waiting = x :: rest)
    (hn : n ≤ l.waiting.length) (msg : Msg) : (l.dropOldest.enter msg).Overtaken n x.seq := by
  have hinc : ((x :: rest).map Numbered.seq).Pairwise (· < ·) := by
    rw [← hwait]
    exact h.increasing.sublist ((List.sublist_append_right _ _).map _)
  have hx : x.seq < l.published.length := by
    apply h.seq_lt
    simp [kept, hwait]
  have hrest : ∀ i ∈ rest.map Numbered.seq, x.seq < i := (List.pairwise_cons.mp hinc).1
  have hsub : (rest.map Numbered.seq).Sublist l.entered := by
    have hentered := h.waiting_entered
    rw [hwait] at hentered
    exact (List.sublist_cons_self _ _).trans hentered
  have hfilter : (rest.map Numbered.seq).filter (x.seq < ·) = rest.map Numbered.seq := by
    apply List.filter_eq_self.mpr
    intro i hi
    simpa using hrest i hi
  have hle : rest.length ≤ (l.entered.filter (x.seq < ·)).length := by
    have hlen := (hsub.filter (x.seq < ·)).length_le
    rwa [hfilter, List.length_map] at hlen
  have hnew : ([l.published.length].filter (x.seq < ·)).length = 1 := by
    simp [hx]
  unfold Overtaken
  calc
    n ≤ rest.length + 1 := by
      rw [hwait, List.length_cons] at hn
      exact hn
    _ ≤ (l.entered.filter (x.seq < ·)).length +
        ([l.published.length].filter (x.seq < ·)).length := by omega
    _ = ((l.dropOldest.enter msg).entered.filter (x.seq < ·)).length := by
      simp [Line.enter, Line.dropOldest]

/-- Entering a full line costs its oldest message only. -/
theorem losesOldest_enterDropping {n : Nat} {l : Line Msg} (hord : l.Ordered)
    (h : l.LosesOldest n) (hn : n ≤ l.waiting.length) (msg : Msg) :
    (l.dropOldest.enter msg).LosesOldest n := by
  intro i hi
  by_cases hold : i < l.published.length
  · rcases h i hold with ⟨x, hx, hxi⟩ | hover
    · cases hwait : l.waiting with
      | nil =>
          have hkept : (l.dropOldest.enter msg).kept = l.kept ++ [l.number msg] := by
            simp [kept, Line.enter, Line.dropOldest, hwait, number]
          exact Or.inl (Keeps.of_kept_append hkept ⟨x, hx, hxi⟩)
      | cons y rest =>
          simp only [kept, hwait, List.mem_append, List.mem_cons] at hx
          rcases hx with hsent | rfl | hrest
          · exact Or.inl ⟨x, by simp [kept, Line.enter, Line.dropOldest, hsent], hxi⟩
          · rw [← hxi]
            exact Or.inr (hord.overtaken_oldest hwait hn msg)
          · exact Or.inl ⟨x, by simp [kept, Line.enter, Line.dropOldest, hwait, hrest], hxi⟩
    · exact Or.inr (hover.append rfl)
  · have hkept : (l.dropOldest.enter msg).kept =
        l.dropOldest.kept ++ [l.dropOldest.number msg] := kept_enter _ _
    exact Or.inl (keeps_number_of_kept_append hkept rfl hi hold)

/-! ## A line with a capacity -/

/-- The moves of a line of the given capacity. -/
inductive Step (capacity : Int) (l : Line Msg) : Line Msg → Prop where
  | idle : Step capacity l l
  | refuse (hcap : capacity = 0) (msg : Msg) : Step capacity l (l.refuse msg)
  | sendNow (hempty : l.waiting = []) (msg : Msg) : Step capacity l (l.sendNow msg)
  | enter (hcap : capacity ≠ 0) (msg : Msg) : Step capacity l (l.enter msg)
  | replace (hcap : 0 < capacity) (hfull : capacity ≤ l.waiting.length) (msg : Msg) :
      Step capacity l (l.dropOldest.enter msg)
  | sendNext : Step capacity l l.sendNext

/-- No move lets a message overtake another. -/
theorem Step.ordered {capacity : Int} {l m : Line Msg} (hstep : Step capacity l m)
    (h : l.Ordered) : m.Ordered := by
  cases hstep with
  | idle => exact h
  | refuse hcap msg => exact h.refuse msg
  | sendNow hempty msg => exact h.sendNow hempty msg
  | enter hcap msg => exact h.enter msg
  | replace hcap hfull msg => exact h.dropOldest.enter msg
  | sendNext => exact h.sendNext

/-- What every line of the given capacity guarantees. -/
structure Good (capacity : Int) (l : Line Msg) : Prop where
  ordered : l.Ordered
  unlimited : capacity < 0 → l.Lossless
  limited : 0 < capacity → l.LosesOldest capacity.toNat

theorem good_empty (capacity : Int) : Good capacity (empty : Line Msg) where
  ordered := ordered_empty
  unlimited := by
    intro _ i hi
    simp [empty] at hi
  limited := by
    intro _ i hi
    simp [empty] at hi

theorem Step.good {capacity : Int} {l m : Line Msg} (hstep : Step capacity l m)
    (h : Good capacity l) : Good capacity m where
  ordered := hstep.ordered h.ordered
  unlimited := by
    intro hneg
    have hall := h.unlimited hneg
    cases hstep with
    | idle => exact hall
    | refuse hcap msg => omega
    | sendNow hempty msg => exact lossless_sendNow hall hempty msg
    | enter hcap msg => exact lossless_enter hall msg
    | replace hcap hfull msg => omega
    | sendNext => exact lossless_sendNext hall
  limited := by
    intro hpos
    have hall := h.limited hpos
    cases hstep with
    | idle => exact hall
    | refuse hcap msg => omega
    | sendNow hempty msg => exact losesOldest_sendNow hall hempty msg
    | enter hcap msg => exact losesOldest_enter hall msg
    | replace hcap hfull msg =>
        exact losesOldest_enterDropping h.ordered hall (by omega) msg
    | sendNext => exact losesOldest_sendNext hall

end Line

end Foundation
end DtCore
