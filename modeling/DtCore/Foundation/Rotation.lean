import Mathlib.Logic.Function.Basic
import Mathlib.Data.List.Basic

/-!
# Rotated logs

A log that rotates is a sequence of generations of whole messages.  The newest
generation is the current file and the `i`-th one before it is backup `i`, as
long as `i` is at most the number of backups.  Slot `0` stands for the current
file and slot `i` for backup `i`.

Main results:

- Definition `Archive.log`: a log that starts a new generation when the current
  one would outgrow a limit.
- Theorem `Archive.bounded_log`: a generation that outgrows the limit holds one
  message, or is the text found at the start.
- Theorem `rotateSlots_apply`: unlinking the last backup and renaming downwards
  moves every slot one up.
- Theorem `shiftSlots_apply`: the same for a chain that overwrites the last backup.
- Theorem `Archive.retained_suffix`: the slots hold a suffix of the whole log.
-/

namespace DtCore
namespace Foundation

variable {α : Type}

/-! ## Slots -/

/-- `rename(2)` between two slots: an absent source changes nothing. -/
def renameSlot (slots : Nat → Option α) (src dst : Nat) : Nat → Option α :=
  match slots src with
  | none => slots
  | some c => Function.update (Function.update slots dst (some c)) src none

/-- Rename slots `n`, ..., `1` one up, the highest first. -/
def renameSlots : Nat → (Nat → Option α) → Nat → Option α
  | 0, slots => slots
  | n + 1, slots => renameSlots n (renameSlot slots (n + 1) (n + 2))

/-- Make slot `0` free: the last backup goes and every other slot moves up. -/
def rotateSlots (backups : Nat) (slots : Nat → Option α) : Nat → Option α :=
  renameSlot
    (renameSlots (backups - 1)
      (if backups ≤ 1 then slots else Function.update slots backups none)) 0 1

theorem renameSlot_of_some {slots : Nat → Option α} {src : Nat} {c : α}
    (hsrc : slots src = some c) (dst : Nat) :
    renameSlot slots src dst = Function.update (Function.update slots dst (some c)) src none := by
  simp [renameSlot, hsrc]

theorem renameSlot_apply {slots : Nat → Option α} {src dst : Nat} (hne : src ≠ dst)
    (hdst : slots dst = none) (j : Nat) :
    renameSlot slots src dst j =
      if j = dst then slots src else if j = src then none else slots j := by
  unfold renameSlot
  cases hsrc : slots src with
  | none =>
      by_cases hj : j = dst
      · simp [hj, hdst]
      · by_cases hjs : j = src <;> simp [hj, hjs, hsrc]
  | some c =>
      by_cases hj : j = dst
      · have hjs : j ≠ src := fun heq => hne (heq.symm.trans hj)
        simp [hj, hne.symm]
      · by_cases hjs : j = src <;> simp [hj, hjs, hne]

/-- Each rename frees the slot that the next one needs. -/
theorem renameSlots_apply {n : Nat} {slots : Nat → Option α} (hfree : slots (n + 1) = none)
    (j : Nat) :
    renameSlots n slots j =
      if j = 1 then none else if 1 < j ∧ j ≤ n + 1 then slots (j - 1) else slots j := by
  induction n generalizing slots with
  | zero =>
      by_cases hj : j = 1
      · simpa [renameSlots, hj] using hfree
      · have hnot : ¬ (1 < j ∧ j ≤ 0 + 1) := by omega
        rw [renameSlots, if_neg hj, if_neg hnot]
  | succ n ih =>
      have hmove := renameSlot_apply (show n + 1 ≠ n + 2 by omega) hfree
      have hnext : renameSlot slots (n + 1) (n + 2) (n + 1) = none := by
        rw [hmove]
        simp
      rw [renameSlots, ih hnext]
      by_cases hj : j = 1
      · simp [hj]
      · by_cases hle : 1 < j ∧ j ≤ n + 1
        · have hpred : j - 1 ≠ n + 2 ∧ j - 1 ≠ n + 1 := by omega
          have hle' : 1 < j ∧ j ≤ n + 1 + 1 := by omega
          rw [if_neg hj, if_neg hj, if_pos hle, if_pos hle', hmove, if_neg hpred.1,
            if_neg hpred.2]
        · rw [if_neg hj, if_neg hj, if_neg hle, hmove]
          by_cases htop : j = n + 2
          · have hin : 1 < j ∧ j ≤ n + 1 + 1 := by omega
            rw [if_pos htop, if_pos hin, htop]
            rfl
          · have hout : ¬ (1 < j ∧ j ≤ n + 1 + 1) := by omega
            have hne : j ≠ n + 1 := by omega
            rw [if_neg htop, if_neg hout, if_neg hne]

/-- A rotation moves every slot one up and drops what was in the last one. -/
theorem rotateSlots_apply {backups : Nat} (hpos : 0 < backups) {slots : Nat → Option α} {c : α}
    (hcur : slots 0 = some c) (j : Nat) :
    rotateSlots backups slots j =
      if j = 0 then none else if j ≤ backups then slots (j - 1) else slots j := by
  unfold rotateSlots
  by_cases hone : backups ≤ 1
  · have hback : backups = 1 := by omega
    subst hback
    have hzero : renameSlots (1 - 1) slots = slots := rfl
    rw [if_pos hone, hzero, renameSlot_of_some hcur]
    by_cases hj : j = 0
    · simp [hj]
    · by_cases hj1 : j = 1
      · simp [hj1, hcur]
      · have hgt : ¬ j ≤ 1 := by omega
        simp [hj, hj1, hgt]
  · rw [if_neg hone]
    have hfree : (Function.update slots backups none) (backups - 1 + 1) = none := by
      rw [Nat.sub_add_cancel hpos]
      simp
    have hchain := renameSlots_apply hfree
    have hdst : renameSlots (backups - 1) (Function.update slots backups none) 1 = none := by
      rw [hchain]
      simp
    rw [renameSlot_apply (by omega) hdst, hchain 0, hchain j]
    by_cases hj : j = 0
    · simp [hj]
    · by_cases hj1 : j = 1
      · have hle : 1 ≤ backups := hpos
        have hback : backups ≠ 0 := by omega
        simp [hj1, hle, hback.symm]
      · rw [if_neg hj1, if_neg hj, if_neg hj1, if_neg hj]
        by_cases hle : j ≤ backups
        · have hin : 1 < j ∧ j ≤ backups - 1 + 1 := by omega
          have hne : j - 1 ≠ backups := by omega
          rw [if_pos hin, if_pos hle, Function.update_apply, if_neg hne]
        · have hout : ¬ (1 < j ∧ j ≤ backups - 1 + 1) := by omega
          have hne : j ≠ backups := by omega
          rw [if_neg hout, if_neg hle, Function.update_apply, if_neg hne]

/-- Rename slots `n - 1`, ..., `0` one up, the highest first. -/
def shiftSlots : Nat → (Nat → Option α) → Nat → Option α
  | 0, slots => slots
  | n + 1, slots => shiftSlots n (renameSlot slots n (n + 1))

/-- A rename to the next slot moves what is there and overwrites the next slot. -/
theorem renameSlot_succ_apply (slots : Nat → Option α) (n j : Nat) :
    renameSlot slots n (n + 1) j =
      if j = n then none else if j = n + 1 then (slots n).or (slots j) else slots j := by
  unfold renameSlot
  cases hsrc : slots n with
  | none =>
      by_cases hj : j = n
      · rw [if_pos hj, hj]
        exact hsrc
      · rw [if_neg hj, Option.none_or, ite_self]
  | some c =>
      by_cases hj : j = n
      · simp [hj]
      · by_cases hj1 : j = n + 1 <;> simp [hj, hj1]

/-- The chain moves every slot below the last one up, whether the slots before it
are in use or not, and leaves slot `0` free. -/
theorem shiftSlots_apply (n : Nat) (slots : Nat → Option α) (j : Nat) :
    shiftSlots n slots j =
      if j = 0 ∧ 0 < n then none
      else if j < n then slots (j - 1)
      else if j = n ∧ 0 < n then (slots (n - 1)).or (slots n)
      else slots j := by
  induction n generalizing slots with
  | zero => simp [shiftSlots]
  | succ n ih =>
      rw [shiftSlots, ih]
      simp only [renameSlot_succ_apply, Nat.add_sub_cancel]
      by_cases h0 : j = 0
      · subst h0
        by_cases hn : 0 < n
        · simp [hn]
        · have hz : n = 0 := by omega
          simp [hz]
      · by_cases hlt : j < n
        · have h1 : j - 1 ≠ n ∧ j - 1 ≠ n + 1 ∧ j < n + 1 := by omega
          simp [h0, hlt, h1]
        · by_cases heq : j = n
          · have hn : 0 < n := by omega
            have h1 : n - 1 ≠ n ∧ n - 1 ≠ n + 1 := by omega
            simp [heq, hn, h1]
          · by_cases htop : j = n + 1
            · have hlt' : ¬ n + 1 < n := by omega
              simp [htop, hlt']
            · have hgt : ¬ j < n + 1 := by omega
              simp [h0, hlt, heq, htop, hgt]

/-! ## Generations -/

/-- The text a file started with and the messages appended to it. -/
structure Generation (α : Type) where
  found : List α
  msgs : List (List α)

/-- The text of a generation. -/
def Generation.content (g : Generation α) : List α :=
  g.found ++ g.msgs.flatten

/-- All generations of a log; `older` starts with the latest. -/
structure Archive (α : Type) where
  current : Generation α
  older : List (Generation α)

namespace Archive

/-- A log that was opened on some text. -/
def start (found : List α) : Archive α where
  current := { found := found, msgs := [] }
  older := []

/-- All generations, newest first. -/
def all (a : Archive α) : List (Generation α) :=
  a.current :: a.older

/-- Begin a new generation. -/
def rotate (a : Archive α) : Archive α where
  current := { found := [], msgs := [] }
  older := a.current :: a.older

/-- Append a message to the current generation. -/
def append (a : Archive α) (msg : List α) : Archive α :=
  { a with current := { a.current with msgs := a.current.msgs ++ [msg] } }

/-- Append a message to the current generation or, if that would outgrow the
limit, to a new one; limit `0` is no limit. -/
def log (limit : Nat) (a : Archive α) (msg : List α) : Archive α :=
  if 0 < limit ∧ limit < a.current.content.length + msg.length then a.rotate.append msg
  else a.append msg

/-- All messages in the order in which they were logged. -/
def messages (a : Archive α) : List (List α) :=
  a.all.reverse.flatMap Generation.msgs

/-- The text of all generations, oldest first. -/
def text (a : Archive α) : List α :=
  a.all.reverse.flatMap Generation.content

@[simp]
theorem content_append (a : Archive α) (msg : List α) :
    (a.append msg).current.content = a.current.content ++ msg := by
  simp [append, Generation.content]

theorem messages_append (a : Archive α) (msg : List α) :
    (a.append msg).messages = a.messages ++ [msg] := by
  simp [messages, all, append]

theorem messages_rotate (a : Archive α) : a.rotate.messages = a.messages := by
  simp [messages, all, rotate]

theorem messages_log (limit : Nat) (a : Archive α) (msg : List α) :
    (a.log limit msg).messages = a.messages ++ [msg] := by
  unfold log
  split
  · rw [messages_append, messages_rotate]
  · rw [messages_append]

/-- Logging a list of messages keeps them all, in their order. -/
theorem messages_foldl (limit : Nat) (a : Archive α) (msgs : List (List α)) :
    (msgs.foldl (log limit) a).messages = a.messages ++ msgs := by
  induction msgs generalizing a with
  | nil => simp
  | cons msg msgs ih => rw [List.foldl_cons, ih, messages_log, List.append_assoc,
      List.singleton_append]

/-- Only the first generation started with some text. -/
def FoundAtStart (found : List α) (a : Archive α) : Prop :=
  (a.all.map Generation.found).reverse = found :: List.replicate a.older.length []

theorem foundAtStart_start (found : List α) : FoundAtStart found (start found) := by
  simp [FoundAtStart, all, start]

theorem foundAtStart_append {found : List α} {a : Archive α} (h : FoundAtStart found a)
    (msg : List α) : FoundAtStart found (a.append msg) := by
  simpa [FoundAtStart, all, append] using h

theorem foundAtStart_rotate {found : List α} {a : Archive α} (h : FoundAtStart found a) :
    FoundAtStart found a.rotate := by
  have hrev : (a.rotate.all.map Generation.found).reverse =
      (a.all.map Generation.found).reverse ++ [[]] := by
    simp [all, rotate]
  have hlen : a.rotate.older.length = a.older.length + 1 := by simp [rotate]
  rw [FoundAtStart, hrev, h, hlen, List.replicate_succ', List.cons_append]

theorem foundAtStart_log {found : List α} {a : Archive α} (h : FoundAtStart found a)
    (limit : Nat) (msg : List α) : FoundAtStart found (a.log limit msg) := by
  unfold log
  split
  · exact foundAtStart_append (foundAtStart_rotate h) msg
  · exact foundAtStart_append h msg

theorem foundAtStart_foldl {found : List α} {a : Archive α} (h : FoundAtStart found a)
    (limit : Nat) (msgs : List (List α)) : FoundAtStart found (msgs.foldl (log limit) a) := by
  induction msgs generalizing a with
  | nil => exact h
  | cons msg msgs ih => exact ih (foundAtStart_log h limit msg)

/-! ## The text of a log -/

@[simp]
theorem text_append (a : Archive α) (msg : List α) : (a.append msg).text = a.text ++ msg := by
  simp [text, all, append, Generation.content]

@[simp]
theorem text_rotate (a : Archive α) : a.rotate.text = a.text := by
  simp [text, all, rotate, Generation.content]

theorem text_log (limit : Nat) (a : Archive α) (msg : List α) :
    (a.log limit msg).text = a.text ++ msg := by
  unfold log
  split
  · rw [text_append, text_rotate]
  · rw [text_append]

/-- Wherever the limit cuts, the text grows by the messages. -/
theorem text_foldl (limit : Nat) (a : Archive α) (msgs : List (List α)) :
    (msgs.foldl (log limit) a).text = a.text ++ msgs.flatten := by
  induction msgs generalizing a with
  | nil => simp
  | cons msg msgs ih => rw [List.foldl_cons, ih, text_log, List.flatten_cons, List.append_assoc]

/-- The text of a list of generations, when all started empty. -/
theorem flatMap_content_of_found_nil {gens : List (Generation α)}
    (h : ∀ g ∈ gens, g.found = []) :
    gens.flatMap Generation.content = (gens.flatMap Generation.msgs).flatten := by
  induction gens with
  | nil => rfl
  | cons g gens ih =>
      rw [List.forall_mem_cons] at h
      simp [Generation.content, h.1, ih h.2]

/-- The whole text is the text found at the start and all messages. -/
theorem text_eq {found : List α} {a : Archive α} (h : FoundAtStart found a) :
    a.text = found ++ a.messages.flatten := by
  unfold FoundAtStart at h
  rw [← List.map_reverse] at h
  unfold text messages
  cases hall : a.all.reverse with
  | nil => simp [hall] at h
  | cons g gens =>
      rw [hall, List.map_cons, List.cons.injEq] at h
      have hnil : ∀ x ∈ gens, x.found = [] := by
        intro x hx
        have hmem : x.found ∈ List.replicate a.older.length ([] : List α) := by
          rw [← h.2]
          exact List.mem_map_of_mem hx
        exact (List.mem_replicate.mp hmem).2
      rw [List.flatMap_cons, List.flatMap_cons, flatMap_content_of_found_nil hnil,
        List.flatten_append, Generation.content, h.1, List.append_assoc]

/-! ## The limit -/

/-- A generation that outgrows the limit is the text found at the start, or one
message. -/
def Fits (limit : Nat) (g : Generation α) : Prop :=
  g.content.length ≤ limit ∨ g.msgs = [] ∨ (g.found = [] ∧ ∃ msg, g.msgs = [msg])

/-- Every generation fits. -/
def Bounded (limit : Nat) (a : Archive α) : Prop :=
  ∀ g ∈ a.all, Fits limit g

theorem bounded_start (limit : Nat) (found : List α) : Bounded limit (start found) := by
  intro g hg
  simp only [all, start, List.mem_singleton] at hg
  subst hg
  exact Or.inr (Or.inl rfl)

theorem bounded_log {limit : Nat} {a : Archive α} (hlimit : 0 < limit) (h : Bounded limit a)
    (msg : List α) : Bounded limit (a.log limit msg) := by
  have holder : ∀ g ∈ a.older, Fits limit g := fun g hg => h g (List.mem_cons_of_mem _ hg)
  intro g hg
  unfold log at hg
  split at hg
  · simp only [all, append, rotate, List.nil_append, List.mem_cons] at hg
    rcases hg with rfl | rfl | hg
    · exact Or.inr (Or.inr ⟨rfl, msg, rfl⟩)
    · exact h _ List.mem_cons_self
    · exact holder g hg
  · rename_i hfits
    rcases List.mem_cons.mp hg with rfl | hg
    · left
      rw [content_append, List.length_append]
      omega
    · exact holder g hg

theorem bounded_foldl {limit : Nat} {a : Archive α} (hlimit : 0 < limit) (h : Bounded limit a)
    (msgs : List (List α)) : Bounded limit (msgs.foldl (log limit) a) := by
  induction msgs generalizing a with
  | nil => exact h
  | cons msg msgs ih => exact ih (bounded_log hlimit h msg)

/-! ## The slots of an archive -/

/-- Slot `i` holds the `i`-th newest generation, up to the number of backups. -/
def Holds (backups : Nat) (a : Archive α) (slots : Nat → Option (List α)) : Prop :=
  ∀ i, slots i = if i ≤ backups then (a.all[i]?).map Generation.content else none

/-- The text in slots `backups`, ..., `1`, `0`; absent slots count as empty. -/
def retained (backups : Nat) (slots : Nat → Option (List α)) : List α :=
  (List.range (backups + 1)).reverse.flatMap (fun i => (slots i).getD [])

theorem flatMap_range_take (gens : List (Generation α)) (n : Nat) :
    (List.range n).reverse.flatMap
        (fun i => ((gens[i]?).map Generation.content).getD []) =
      (gens.take n).reverse.flatMap Generation.content := by
  induction n with
  | zero => rfl
  | succ n ih =>
      rw [List.range_succ, List.reverse_append, List.reverse_singleton, List.singleton_append,
        List.flatMap_cons, ih, List.take_add_one, List.reverse_append, List.flatMap_append]
      cases gens[n]? <;> simp

/-- What the slots hold is the end of the whole log. -/
theorem retained_suffix {backups : Nat} {a : Archive α} {slots : Nat → Option (List α)}
    (h : Holds backups a slots) : retained backups slots <:+ a.text := by
  have hslots : retained backups slots =
      (a.all.take (backups + 1)).reverse.flatMap Generation.content := by
    rw [← flatMap_range_take, retained]
    apply List.flatMap_congr
    intro i hi
    have hle : i ≤ backups := by
      rw [List.mem_reverse, List.mem_range] at hi
      omega
    rw [h i, if_pos hle]
  have hall : a.all.reverse =
      (a.all.drop (backups + 1)).reverse ++ (a.all.take (backups + 1)).reverse := by
    rw [← List.reverse_append, List.take_append_drop]
  rw [hslots, text, hall, List.flatMap_append]
  exact List.suffix_append _ _

end Archive

end Foundation
end DtCore
