import DtCore.DAQ.Mcap.Sink

/-!
# Holes in an MCAP file

`handleWrite` abandons the rest of its data at a hard error and returns nothing,
so that the next data lands behind the gap and the sink stays open.  Only inside
`Close` the sink counts as closed already.  A run keeps the file exactly when
every hard error comes from there and nothing is written behind it.

Main results:

- Theorem `whole_step`: without a hard error the file and the bytes still to be
  written are everything that `handleWrite` was given.
- Theorem `cut_step`: a gap is never closed.
- Theorem `keeps_file_iff`: the runs that keep the file.
- Theorem `next_record_behind_gap`: a run that does not.
-/

namespace DtCore
namespace DAQ
namespace Mcap

variable {W : Type}

/-! ## The calls of handleWrite -/

/-- The writer returns at once or `handleWrite` has bytes to write. -/
theorem handleWrites_cases (queue : List Bytes) (s : State W) :
    s.handleWrites queue = s.finish ∨
      ∃ data rest, data ≠ [] ∧ s.handleWrites queue =
        { s with given := s.given ++ data, remaining := data, queue := rest } := by
  induction queue with
  | nil => exact Or.inl rfl
  | cons data queue ih =>
      unfold State.handleWrites
      split
      · exact ih
      · rename_i hdata
        exact Or.inr ⟨data, queue, hdata, rfl⟩

@[simp]
theorem finish_appended (s : State W) : s.finish.appended = s.appended := by
  unfold State.finish
  split <;> rfl

@[simp]
theorem finish_given (s : State W) : s.finish.given = s.given := by
  unfold State.finish
  split <;> rfl

@[simp]
theorem finish_remaining (s : State W) : s.finish.remaining = s.remaining := by
  unfold State.finish
  split <;> rfl

@[simp]
theorem finish_task (s : State W) : s.finish.task = .idle := by
  unfold State.finish
  split
  · assumption
  · rfl
  · rfl
  · rfl
  · rfl

/-- The end of `Close` leaves the sink closed. -/
theorem finish_isOpen {s : State W} (h : s.task = .closing) : s.finish.isOpen = s.isOpen := by
  unfold State.finish
  rw [h]
  rfl

/-- `handleWrite` only gets more data and writes none of it before `write` returns. -/
theorem handleWrites_given {s : State W} (h : s.remaining = []) (queue : List Bytes) :
    (s.handleWrites queue).given = s.given ++ (s.handleWrites queue).remaining ∧
      (s.handleWrites queue).appended = s.appended := by
  rcases handleWrites_cases queue s with heq | ⟨data, rest, _, heq⟩
  · rw [heq, finish_given, finish_remaining, finish_appended, h, List.append_nil]
    exact ⟨rfl, rfl⟩
  · rw [heq]
    exact ⟨rfl, rfl⟩

/-! ## Files without and with a gap -/

/-- The file and the bytes still to be written are all that `handleWrite` was given. -/
def Whole (s : State W) : Prop :=
  s.given = s.appended ++ s.remaining

/-- Some data was not written and will not be. -/
def Cut (s : State W) : Prop :=
  s.appended.length + s.remaining.length < s.given.length

theorem Whole.not_cut {s : State W} (h : Whole s) : ¬ Cut s := by
  rw [Cut, h, List.length_append]
  exact Nat.lt_irrefl _

theorem Whole.handleWrites {s : State W} (h : Whole s) (hnil : s.remaining = [])
    (queue : List Bytes) : Whole (s.handleWrites queue) := by
  rcases handleWrites_given hnil queue with ⟨hgiven, happended⟩
  rw [Whole, hgiven, happended, h, hnil, List.append_nil]

theorem Cut.handleWrites {s : State W} (h : Cut s) (hnil : s.remaining = [])
    (queue : List Bytes) : Cut (s.handleWrites queue) := by
  rcases handleWrites_given hnil queue with ⟨hgiven, happended⟩
  rw [Cut, hnil, List.length_nil] at h
  rw [Cut, hgiven, happended, List.length_append]
  omega

/-- What holds between the calls and inside them: the sink waits with nothing left
to write, and `Close` has cleared the flag before it passes anything on. -/
structure Fit (s : State W) : Prop where
  idle : s.task = .idle → s.remaining = []
  ok : s.task ≠ .writing false
  closing : s.task = .closing → s.isOpen = false

/-- The writer's output leaves a sink fit. -/
theorem Fit.handleWrites {s : State W} (htask : s.task ≠ .idle) (hok : s.task ≠ .writing false)
    (hclosing : s.task = .closing → s.isOpen = false) (hnil : s.remaining = [])
    (queue : List Bytes) : Fit (s.handleWrites queue) := by
  rcases handleWrites_cases queue s with heq | ⟨data, rest, _, heq⟩
  · rw [heq]
    constructor
    · intro _
      rw [finish_remaining, hnil]
    · rw [finish_task]
      exact Task.noConfusion
    · rw [finish_task]
      exact fun h => Task.noConfusion h
  · rw [heq]
    exact { idle := fun hidle => absurd hidle htask, ok := hok, closing := hclosing }

/-- A sink before the first `Close`: it is open unless it is being opened or never was. -/
def Unclosed (s : State W) : Prop :=
  s.isOpen = true ∨ s.task = .opening ∨ s.task = .idle ∧ s.given = []

/-- A sink from the first `Close` on. -/
def Closed (s : State W) : Prop :=
  s.isOpen = false ∧ (s.task = .closing ∨ s.task = .idle)

theorem Unclosed.handleWrites {s : State W} (hok : s.task ≠ .writing false)
    (h : s.isOpen = true ∨ s.task = .opening) (queue : List Bytes) :
    Unclosed (s.handleWrites queue) := by
  rcases handleWrites_cases queue s with heq | ⟨data, rest, _, heq⟩
  · rw [heq]
    left
    rcases h with hopen | hopening
    · unfold State.finish
      split
      · exact hopen
      · rfl
      · exact hopen
      · contradiction
      · exact hopen
    · unfold State.finish
      rw [hopening]
  · rw [heq]
    rcases h with hopen | hopening
    · exact Or.inl hopen
    · exact Or.inr (Or.inl hopening)

theorem Closed.handleWrites {s : State W} (htask : s.task = .closing) (h : s.isOpen = false)
    (queue : List Bytes) : Closed (s.handleWrites queue) := by
  rcases handleWrites_cases queue s with heq | ⟨data, rest, _, heq⟩
  · rw [heq, Closed, finish_isOpen htask, finish_task]
    exact ⟨h, Or.inr rfl⟩
  · rw [heq]
    exact ⟨h, Or.inl htask⟩

/-- A sink with a gap that counts as closed was closed by `Close`. -/
theorem Unclosed.isOpen {s : State W} (h : Unclosed s) (hidle : s.task = .idle) (hcut : Cut s) :
    s.isOpen = true := by
  rcases h with hopen | hopening | ⟨_, hnever⟩
  · exact hopen
  · rw [hidle] at hopening
    contradiction
  · rw [Cut, hnever] at hcut
    exact absurd hcut (Nat.not_lt_zero _)

/-! ## One step -/

/-- A message is either reported, since the sink is closed, or handed to the writer. -/
theorem message_cases {M : McapWriter W} {s s' : State W} {l : Label}
    (hl : ∀ r, l ≠ .result r) (hc : l ≠ .close) (h : step M s l = some s') :
    s.task = .idle ∧
      ((∃ text, s.isOpen = false ∧ s' = s.logLine text) ∨
        (s.isOpen = true ∧ ∃ msg n, s' = { s with msgCount := n }.writeMessage M msg)) := by
  cases l with
  | result r => exact absurd rfl (hl r)
  | close => exact absurd rfl hc
  | publish now serialized =>
      simp only [step] at h
      split at h
      · rename_i hidle
        injection h with h
        subst h
        constructor
        · exact hidle
        · unfold State.publish
          split
          · rename_i hclosed
            exact Or.inl ⟨_, hclosed, rfl⟩
          · rename_i hopen
            exact Or.inr ⟨by simpa using hopen, _, _, rfl⟩
      · contradiction
  | write msg =>
      simp only [step] at h
      split at h
      · rename_i hidle
        injection h with h
        subst h
        constructor
        · exact hidle
        · unfold State.write
          split
          · rename_i hclosed
            exact Or.inl ⟨_, hclosed, rfl⟩
          · rename_i hopen
            exact Or.inr ⟨by simpa using hopen, msg, s.msgCount, rfl⟩
      · contradiction

/-- `Close` does nothing to a closed sink and hands the writer's last data on else. -/
theorem close_cases {M : McapWriter W} {s s' : State W} (h : step M s .close = some s') :
    s.task = .idle ∧
      (s.isOpen = false ∧ s' = s ∨
        s' = State.handleWrites (M.close s.mcap).2
          { s with isOpen := false, mcap := (M.close s.mcap).1, task := .closing }) := by
  simp only [step] at h
  split at h
  · rename_i hidle
    injection h with h
    subst h
    constructor
    · exact hidle
    · unfold State.close
      split
      · rename_i hclosed
        exact Or.inl ⟨hclosed, rfl⟩
      · exact Or.inr rfl
  · contradiction

/-- A result of `write` reaches a `handleWrite` that has bytes to write. -/
theorem result_cases {M : McapWriter W} {s s' : State W} {r : WriteResult}
    (h : step M s (.result r) = some s') :
    s.remaining ≠ [] ∧ s' = s.writeReturned r := by
  simp only [step] at h
  split at h
  · contradiction
  · rename_i hne
    injection h with h
    exact ⟨hne, h.symm⟩

/-- A step is a result of `write`, a `Close` or a message. -/
theorem label_cases (l : Label) :
    (∃ r, l = .result r) ∨ l = .close ∨ (∀ r, l ≠ .result r) ∧ l ≠ .close := by
  cases l with
  | result r => exact Or.inl ⟨r, rfl⟩
  | close => exact Or.inr (Or.inl rfl)
  | publish now serialized => exact Or.inr (Or.inr ⟨fun _ => Label.noConfusion, Label.noConfusion⟩)
  | write msg => exact Or.inr (Or.inr ⟨fun _ => Label.noConfusion, Label.noConfusion⟩)

/-- A call touches no byte of the file itself; it may hand data to `handleWrite`. -/
theorem call_cases {M : McapWriter W} {s s' : State W} {l : Label}
    (hl : ∀ r, l ≠ .result r) (h : step M s l = some s') :
    ∃ t, t.given = s.given ∧ t.appended = s.appended ∧ t.remaining = s.remaining ∧
      s.task = .idle ∧ (s' = t ∨ ∃ queue, s' = t.handleWrites queue) := by
  by_cases hc : l = .close
  · rw [hc] at h
    rcases close_cases h with ⟨hidle, ⟨_, hs'⟩ | hs'⟩
    · exact ⟨s, rfl, rfl, rfl, hidle, Or.inl hs'⟩
    · refine ⟨_, ?_, ?_, ?_, hidle, Or.inr ⟨_, hs'⟩⟩ <;> rfl
  · rcases message_cases hl hc h with ⟨hidle, ⟨text, _, hs'⟩ | ⟨_, msg, n, hs'⟩⟩
    · exact ⟨s.logLine text, rfl, rfl, rfl, hidle, Or.inl hs'⟩
    · refine ⟨_, ?_, ?_, ?_, hidle, Or.inr ⟨_, hs'⟩⟩ <;> rfl

theorem fit_step {M : McapWriter W} (hok : M.AlwaysOk) {s s' : State W} {l : Label}
    (hs : Fit s) (h : step M s l = some s') : Fit s' := by
  rcases label_cases l with ⟨r, rfl⟩ | rfl | ⟨hl, hc⟩
  · rcases result_cases h with ⟨hne, rfl⟩
    have htask : s.task ≠ .idle := fun hidle => hne (hs.idle hidle)
    unfold State.writeReturned
    split
    · simp only
      split
      · rename_i hnil
        apply Fit.handleWrites
        · exact htask
        · exact hs.ok
        · exact hs.closing
        · exact hnil
      · exact { idle := fun hidle => absurd hidle htask, ok := hs.ok, closing := hs.closing }
    · exact hs
    · apply Fit.handleWrites
      · exact htask
      · exact hs.ok
      · exact hs.closing
      · rfl
  · rcases close_cases h with ⟨hidle, ⟨_, rfl⟩ | rfl⟩
    · exact hs
    · apply Fit.handleWrites
      · exact Task.noConfusion
      · exact Task.noConfusion
      · exact fun _ => rfl
      · exact hs.idle hidle
  · rcases message_cases hl hc h with ⟨hidle, ⟨text, _, rfl⟩ | ⟨_, msg, n, rfl⟩⟩
    · exact { idle := hs.idle, ok := hs.ok, closing := hs.closing }
    · apply Fit.handleWrites
      · exact Task.noConfusion
      · show Task.writing (M.write s.mcap msg).2.2 ≠ .writing false
        rw [hok]
        decide
      · exact fun hclosing => Task.noConfusion hclosing
      · exact hs.idle hidle

/-- Only `Close` closes a sink. -/
theorem unclosed_step {M : McapWriter W} (hok : M.AlwaysOk) {s s' : State W} {l : Label}
    (hfit : Fit s) (hs : Unclosed s) (hc : l ≠ .close) (h : step M s l = some s') :
    Unclosed s' := by
  rcases label_cases l with ⟨r, rfl⟩ | rfl | ⟨hl, hc⟩
  · rcases result_cases h with ⟨hne, rfl⟩
    have hopen : s.isOpen = true ∨ s.task = .opening := by
      rcases hs with hopen | hopening | hnever
      · exact Or.inl hopen
      · exact Or.inr hopening
      · exact absurd (hfit.idle hnever.1) hne
    unfold State.writeReturned
    split
    · simp only
      split
      · apply Unclosed.handleWrites
        · exact hfit.ok
        · exact hopen
      · exact hs
    · exact hs
    · apply Unclosed.handleWrites
      · exact hfit.ok
      · exact hopen
  · contradiction
  · rcases message_cases hl hc h with ⟨_, ⟨text, _, rfl⟩ | ⟨hopen, msg, n, rfl⟩⟩
    · exact hs
    · apply Unclosed.handleWrites
      · show Task.writing (M.write s.mcap msg).2.2 ≠ .writing false
        rw [hok]
        decide
      · exact Or.inl hopen

/-- `Close` closes a sink. -/
theorem closed_of_close {M : McapWriter W} {s s' : State W} (h : step M s .close = some s') :
    Closed s' := by
  rcases close_cases h with ⟨hidle, ⟨hclosed, rfl⟩ | rfl⟩
  · exact ⟨hclosed, Or.inr hidle⟩
  · exact Closed.handleWrites rfl rfl _

/-- A closed sink stays closed. -/
theorem closed_step {M : McapWriter W} {s s' : State W} {l : Label} (hfit : Fit s)
    (hs : Closed s) (h : step M s l = some s') : Closed s' := by
  rcases label_cases l with ⟨r, rfl⟩ | rfl | ⟨hl, hc⟩
  · rcases result_cases h with ⟨hne, rfl⟩
    have htask : s.task = .closing := by
      rcases hs.2 with hclosing | hidle
      · exact hclosing
      · exact absurd (hfit.idle hidle) hne
    unfold State.writeReturned
    split
    · simp only
      split
      · apply Closed.handleWrites
        · exact htask
        · exact hs.1
      · exact hs
    · exact hs
    · apply Closed.handleWrites
      · exact htask
      · exact hs.1
  · exact closed_of_close h
  · rcases message_cases hl hc h with ⟨_, ⟨text, _, rfl⟩ | ⟨hopen, _, _, _⟩⟩
    · exact hs
    · rw [hs.1] at hopen
      contradiction

/-- Without a hard error no gap opens. -/
theorem whole_step {M : McapWriter W} {s s' : State W} {l : Label} (hs : Whole s)
    (hfit : Fit s) (hsoft : ∀ e, l ≠ .result (.fail (.hard e)))
    (h : step M s l = some s') : Whole s' := by
  by_cases hr : ∃ r, l = .result r
  · rcases hr with ⟨r, rfl⟩
    rcases result_cases h with ⟨_, rfl⟩
    unfold State.writeReturned
    split
    · rename_i n
      have htake : Whole { s with
          appended := s.appended ++ s.remaining.take n
          size := s.size + (s.remaining.take n).length
          remaining := s.remaining.drop n } := by
        show s.given = s.appended ++ s.remaining.take n ++ s.remaining.drop n
        rw [List.append_assoc, List.take_append_drop]
        exact hs
      simp only
      split
      · rename_i hnil
        exact htake.handleWrites hnil _
      · exact htake
    · exact hs
    · rename_i e
      exact absurd rfl (hsoft e)
  · rcases call_cases (fun r hr' => hr ⟨r, hr'⟩) h with
      ⟨t, hgiven, happended, hremaining, hidle, hs'⟩
    have ht : Whole t := by
      rw [Whole, hgiven, happended, hremaining]
      exact hs
    rcases hs' with rfl | ⟨queue, rfl⟩
    · exact ht
    · exact ht.handleWrites (hremaining.trans (hfit.idle hidle)) queue

/-- A gap is never closed. -/
theorem cut_step {M : McapWriter W} {s s' : State W} {l : Label} (hs : Cut s)
    (hfit : Fit s) (h : step M s l = some s') : Cut s' := by
  by_cases hr : ∃ r, l = .result r
  · rcases hr with ⟨r, rfl⟩
    rcases result_cases h with ⟨_, rfl⟩
    unfold State.writeReturned
    split
    · rename_i n
      have htake : Cut { s with
          appended := s.appended ++ s.remaining.take n
          size := s.size + (s.remaining.take n).length
          remaining := s.remaining.drop n } := by
        show (s.appended ++ s.remaining.take n).length + (s.remaining.drop n).length <
          s.given.length
        have hlen := congrArg List.length (List.take_append_drop n s.remaining)
        rw [List.length_append] at hlen
        rw [List.length_append, Nat.add_assoc, hlen]
        exact hs
      simp only
      split
      · rename_i hnil
        exact htake.handleWrites hnil _
      · exact htake
    · exact hs
    · apply Cut.handleWrites
      · have hle : s.appended.length ≤ s.appended.length + s.remaining.length :=
          Nat.le_add_right _ _
        exact Nat.lt_of_le_of_lt hle hs
      · rfl
  · rcases call_cases (fun r hr' => hr ⟨r, hr'⟩) h with
      ⟨t, hgiven, happended, hremaining, hidle, hs'⟩
    have ht : Cut t := by
      rw [Cut, hgiven, happended, hremaining]
      exact hs
    rcases hs' with rfl | ⟨queue, rfl⟩
    · exact ht
    · exact ht.handleWrites (hremaining.trans (hfit.idle hidle)) queue

/-- Bytes are appended by a positive count only, and what `handleWrite` was given only grows. -/
theorem appended_step {M : McapWriter W} {s s' : State W} {l : Label} (hfit : Fit s)
    (hl : ∀ n, 0 < n → l ≠ .result (.count n)) (h : step M s l = some s') :
    s'.appended = s.appended ∧ s.given <+: s'.given := by
  by_cases hr : ∃ r, l = .result r
  · rcases hr with ⟨r, rfl⟩
    rcases result_cases h with ⟨hne, rfl⟩
    unfold State.writeReturned
    split
    · rename_i n
      have hn : n = 0 := by
        by_contra hpos
        exact hl n (Nat.pos_of_ne_zero hpos) rfl
      subst hn
      simp only [List.take_zero, List.drop_zero, List.append_nil]
      rw [if_neg hne]
      exact ⟨rfl, List.prefix_rfl⟩
    · exact ⟨rfl, List.prefix_rfl⟩
    · rename_i e
      rcases handleWrites_given (s := { s.logLine ("[MCAP] write() failed: " ++ e) with
        remaining := [] }) rfl s.queue with ⟨hgiven, happended⟩
      exact ⟨happended, ⟨_, hgiven.symm⟩⟩
  · rcases call_cases (fun r hr' => hr ⟨r, hr'⟩) h with
      ⟨t, hgiven, happended, hremaining, hidle, hs'⟩
    rw [← hgiven, ← happended]
    rcases hs' with rfl | ⟨queue, rfl⟩
    · exact ⟨rfl, List.prefix_rfl⟩
    · rcases handleWrites_given (hremaining.trans (hfit.idle hidle)) queue with
        ⟨hgiven', happended'⟩
      exact ⟨happended', ⟨_, hgiven'.symm⟩⟩

/-- A positive count appends a byte. -/
theorem appended_of_count {M : McapWriter W} {s s' : State W} {n : Nat} (hn : 0 < n)
    (h : step M s (.result (.count n)) = some s') :
    s.appended.length < s'.appended.length := by
  rcases result_cases h with ⟨hne, rfl⟩
  have htake : 0 < (s.remaining.take n).length := by
    rw [List.length_take]
    exact Nat.lt_min.mpr ⟨hn, List.length_pos_iff.mpr hne⟩
  unfold State.writeReturned
  simp only
  split
  · rename_i hnil
    rw [(handleWrites_given hnil _).2, List.length_append]
    omega
  · rw [List.length_append]
    omega

/-- A hard error opens a gap. -/
theorem cut_of_hard {M : McapWriter W} {s s' : State W} {e : String} (hs : Whole s)
    (h : step M s (.result (.fail (.hard e))) = some s') : Cut s' := by
  rcases result_cases h with ⟨hne, rfl⟩
  unfold State.writeReturned
  apply Cut.handleWrites
  · show s.appended.length + 0 < s.given.length
    have hpos := List.length_pos_iff.mpr hne
    rw [hs, List.length_append]
    omega
  · rfl

/-! ## Runs -/

/-- A new sink is fit and unclosed, and its file is whole. -/
theorem construct_fit (M : McapWriter W) (fileName : String) (truncate : Bool)
    (existing : Option Bytes) (r : OpenResult) :
    Fit (State.construct M fileName truncate existing r) ∧
      Unclosed (State.construct M fileName truncate existing r) ∧
        Whole (State.construct M fileName truncate existing r) := by
  have hfailed : ∀ s : State W, s.task = .idle → s.remaining = [] → s.given = [] →
      s.appended = [] → Fit s ∧ Unclosed s ∧ Whole s := by
    intro s htask hnil hgiven happended
    refine ⟨?_, Or.inr (Or.inr ⟨htask, hgiven⟩), ?_⟩
    · exact {
        idle := fun _ => hnil
        ok := by rw [htask]; exact Task.noConfusion
        closing := by rw [htask]; exact fun h => Task.noConfusion h }
    · rw [Whole, hgiven, happended, hnil]
      rfl
  have hopening : ∀ s : State W, s.task = .opening → s.remaining = [] → s.given = [] →
      s.appended = [] → Fit (s.handleWrites M.opened.2) ∧
        Unclosed (s.handleWrites M.opened.2) ∧ Whole (s.handleWrites M.opened.2) := by
    intro s htask hnil hgiven happended
    have hidle : s.task ≠ .idle := by rw [htask]; exact Task.noConfusion
    have hok : s.task ≠ .writing false := by rw [htask]; exact Task.noConfusion
    refine ⟨?_, Unclosed.handleWrites hok (Or.inr htask) _, ?_⟩
    · apply Fit.handleWrites hidle hok
      · rw [htask]
        exact fun h => Task.noConfusion h
      · exact hnil
    · apply Whole.handleWrites
      · rw [Whole, hgiven, happended, hnil]
        rfl
      · exact hnil
  unfold State.construct
  cases r with
  | ok => exact hopening _ rfl rfl rfl rfl
  | openFails strerror => exact hfailed _ rfl rfl rfl rfl
  | seekFails strerror =>
      cases truncate with
      | true => exact hopening _ rfl rfl rfl rfl
      | false => exact hfailed _ rfl rfl rfl rfl

/-- The state behind the first step of a run. -/
theorem after_cons {M : McapWriter W} {s t : State W} {l : Label} {ls : List Label}
    (h : after M s (l :: ls) = some t) :
    ∃ s', step M s l = some s' ∧ after M s' ls = some t := by
  unfold after Foundation.run at h
  rw [if_pos trivial] at h
  split at h
  · contradiction
  · rename_i s' hs'
    exact ⟨s', hs', h⟩

/-- A run goes through the state behind its first part. -/
theorem after_append {M : McapWriter W} {s t : State W} {p q : List Label}
    (h : after M s (p ++ q) = some t) :
    ∃ s', after M s p = some s' ∧ after M s' q = some t := by
  rw [after, Foundation.run_append] at h
  exact Option.bind_eq_some_iff.mp h

theorem after_trans {M : McapWriter W} {s s' : State W} {p : List Label}
    (h : after M s p = some s') (q : List Label) : after M s (p ++ q) = after M s' q := by
  unfold after at *
  rw [Foundation.run_append, h]
  rfl

theorem fit_after {M : McapWriter W} (hok : M.AlwaysOk) {ls : List Label} {s t : State W}
    (hs : Fit s) (h : after M s ls = some t) : Fit t := by
  apply Foundation.run_invariant Fit (fun _ => True) _ hs (fun _ _ => trivial) h
  intro s l s' hs _ hstep
  exact fit_step hok hs hstep

/-- Without a `Close` a sink stays unclosed. -/
theorem unclosed_after {M : McapWriter W} (hok : M.AlwaysOk) {ls : List Label} {s t : State W}
    (hfit : Fit s) (hs : Unclosed s) (hls : .close ∉ ls) (h : after M s ls = some t) :
    Unclosed t := by
  have hboth : Fit t ∧ Unclosed t := by
    apply Foundation.run_invariant (fun s => Fit s ∧ Unclosed s) (fun l => l ≠ .close) _
      ⟨hfit, hs⟩ _ h
    · intro s l s' hs hl hstep
      exact ⟨fit_step hok hs.1 hstep, unclosed_step hok hs.1 hs.2 hl hstep⟩
    · intro l hl heq
      exact hls (heq ▸ hl)
  exact hboth.2

/-- From a `Close` on a sink is closed. -/
theorem closed_after {M : McapWriter W} (hok : M.AlwaysOk) {ls : List Label} {s t : State W}
    (hfit : Fit s) (hls : .close ∈ ls) (h : after M s ls = some t) : Closed t := by
  rcases List.append_of_mem hls with ⟨p, q, rfl⟩
  rcases after_append h with ⟨s₁, hp, hq⟩
  rcases after_cons hq with ⟨s₂, hclose, hq⟩
  have hstart : Fit s₂ ∧ Closed s₂ :=
    ⟨fit_step hok (fit_after hok hfit hp) hclose, closed_of_close hclose⟩
  have hboth : Fit t ∧ Closed t := by
    apply Foundation.run_invariant (fun s => Fit s ∧ Closed s) (fun _ => True) _ hstart
      (fun _ _ => trivial) hq
    intro s l s' hs _ hstep
    exact ⟨fit_step hok hs.1 hstep, closed_step hs.1 hs.2 hstep⟩
  exact hboth.2

/-- A run without a hard error keeps the file whole. -/
theorem whole_after {M : McapWriter W} (hok : M.AlwaysOk) {ls : List Label} {s t : State W}
    (hfit : Fit s) (hs : Whole s) (hsoft : ∀ e, .result (.fail (.hard e)) ∉ ls)
    (h : after M s ls = some t) : Whole t := by
  have hboth : Fit t ∧ Whole t := by
    apply Foundation.run_invariant (fun s => Fit s ∧ Whole s)
      (fun l => ∀ e, l ≠ .result (.fail (.hard e))) _ ⟨hfit, hs⟩ _ h
    · intro s l s' hs hl hstep
      exact ⟨fit_step hok hs.1 hstep, whole_step hs.2 hs.1 hl hstep⟩
    · intro l hl e heq
      exact hsoft e (heq ▸ hl)
  exact hboth.2

/-- A gap stays for good. -/
theorem cut_after {M : McapWriter W} (hok : M.AlwaysOk) {ls : List Label} {s t : State W}
    (hfit : Fit s) (hs : Cut s) (h : after M s ls = some t) : Cut t := by
  have hboth : Fit t ∧ Cut t := by
    apply Foundation.run_invariant (fun s => Fit s ∧ Cut s) (fun _ => True) _ ⟨hfit, hs⟩
      (fun _ _ => trivial) h
    intro s l s' hs _ hstep
    exact ⟨fit_step hok hs.1 hstep, cut_step hs.2 hs.1 hstep⟩
  exact hboth.2

/-- Without a positive count the file stays as it is. -/
theorem appended_after {M : McapWriter W} (hok : M.AlwaysOk) {ls : List Label} {s t : State W}
    (hfit : Fit s) (hls : ∀ n, 0 < n → .result (.count n) ∉ ls) (h : after M s ls = some t) :
    t.appended = s.appended ∧ s.given <+: t.given := by
  have hboth : Fit t ∧ t.appended = s.appended ∧ s.given <+: t.given := by
    apply Foundation.run_invariant
      (fun t => Fit t ∧ t.appended = s.appended ∧ s.given <+: t.given)
      (fun l => ∀ n, 0 < n → l ≠ .result (.count n)) _ ⟨hfit, rfl, List.prefix_rfl⟩ _ h
    · intro t l t' ht hl hstep
      rcases appended_step ht.1 hl hstep with ⟨happended, hgiven⟩
      exact ⟨fit_step hok ht.1 hstep, happended.trans ht.2.1, ht.2.2.trans hgiven⟩
    · intro l hl n hn heq
      exact hls n hn (heq ▸ hl)
  exact hboth.2

/-- A run has no hard error or a first one. -/
theorem firstHard (ls : List Label) :
    (∀ e, .result (.fail (.hard e)) ∉ ls) ∨
      ∃ p e q, ls = p ++ .result (.fail (.hard e)) :: q ∧
        ∀ e', .result (.fail (.hard e')) ∉ p := by
  induction ls with
  | nil => exact Or.inl (fun _ => List.not_mem_nil)
  | cons l ls ih =>
      by_cases hl : ∃ e, l = .result (.fail (.hard e))
      · rcases hl with ⟨e, rfl⟩
        exact Or.inr ⟨[], e, ls, rfl, fun _ => List.not_mem_nil⟩
      · have hne : ∀ e, .result (.fail (.hard e)) ≠ l := fun e heq => hl ⟨e, heq.symm⟩
        rcases ih with hnone | ⟨p, e, q, rfl, hp⟩
        · left
          intro e hmem
          rcases List.mem_cons.mp hmem with heq | hmem
          · exact hne e heq
          · exact hnone e hmem
        · right
          refine ⟨l :: p, e, q, rfl, ?_⟩
          intro e' hmem
          rcases List.mem_cons.mp hmem with heq | hmem
          · exact hne e' heq
          · exact hp e' hmem

/-- Behind a hard error there is a gap. -/
theorem cut_after_hard {M : McapWriter W} (hok : M.AlwaysOk) {p : List Label} {e : String}
    {s t : State W} (hfit : Fit s) (hs : Whole s)
    (h : after M s (p ++ [.result (.fail (.hard e))]) = some t) : Cut t := by
  rcases firstHard (p ++ [.result (.fail (.hard e))]) with hnone | ⟨p', e', q', heq, hp'⟩
  · exact absurd (List.mem_append_right p (List.mem_singleton.mpr rfl)) (hnone e)
  · rw [heq] at h
    rcases after_append h with ⟨s₁, hs₁, hq⟩
    rcases after_cons hq with ⟨s₂, hstep, hq⟩
    have hfit₁ := fit_after hok hfit hs₁
    exact cut_after hok (fit_step hok hfit₁ hstep)
      (cut_of_hard (whole_after hok hfit hs hp' hs₁) hstep) hq

/-! ## The runs that keep the file -/

/-- At every point of a run the file holds a prefix of what `handleWrite` was given,
and once data was left out, nothing more is appended and the sink is closed when the
call returns. -/
def KeepsFile (M : McapWriter W) (start : State W) (ls : List Label) : Prop :=
  ∀ p q s, ls = p ++ q → after M start p = some s →
    s.appended <+: s.given ∧
      (Cut s → (s.task = .idle → s.isOpen = false) ∧
        ∀ p' q' s', q = p' ++ q' → after M start (p ++ p') = some s' →
          s'.appended = s.appended)

/-- Every hard error comes when `Close` was called, and no `write` takes a byte after it. -/
def HardErrorsEnd (ls : List Label) : Prop :=
  ∀ p e q, ls = p ++ .result (.fail (.hard e)) :: q →
    .close ∈ p ∧ ∀ n, 0 < n → .result (.count n) ∉ q

/-- A run in which nothing goes wrong up to a `Close` and nothing is written after that. -/
theorem hardErrorsEnd_append {p q : List Label} (hp : ∀ e, .result (.fail (.hard e)) ∉ p)
    (hclose : .close ∈ p) (hq : ∀ n, 0 < n → .result (.count n) ∉ q) : HardErrorsEnd (p ++ q) := by
  intro p' e q' heq
  rcases List.append_eq_append_iff.mp heq with ⟨c, rfl, rfl⟩ | ⟨c, rfl, hc⟩
  · constructor
    · exact List.mem_append_left c hclose
    · intro n hn hmem
      exact hq n hn (List.mem_append_right c (List.mem_cons_of_mem _ hmem))
  · cases c with
    | nil =>
        rw [List.nil_append] at hc
        constructor
        · simpa using hclose
        · intro n hn hmem
          exact hq n hn (hc ▸ List.mem_cons_of_mem _ hmem)
    | cons l c =>
        injection hc with hl _
        exact absurd (List.mem_append_right p' (hl ▸ List.mem_cons_self)) (hp e)

theorem keepsFile_of_hardErrorsEnd {M : McapWriter W} (hok : M.AlwaysOk) {start : State W}
    (hfit : Fit start) (hwhole : Whole start) {ls : List Label} (h : HardErrorsEnd ls) :
    KeepsFile M start ls := by
  intro p q s hsplit hafter
  rcases firstHard p with hnone | ⟨p₁, e, p₂, rfl, hp₁⟩
  · have hs := whole_after hok hfit hwhole hnone hafter
    constructor
    · exact ⟨s.remaining, hs.symm⟩
    · intro hcut
      exact absurd hcut hs.not_cut
  · -- the first hard error of the run lies before this point
    have hls : ls = p₁ ++ .result (.fail (.hard e)) :: (p₂ ++ q) := by
      rw [hsplit, List.append_assoc, List.cons_append]
    rcases h p₁ e (p₂ ++ q) hls with ⟨hclose, hcounts⟩
    rcases after_append hafter with ⟨s₁, hs₁, hrest⟩
    have hfit₁ := fit_after hok hfit hs₁
    have hs₁whole := whole_after hok hfit hwhole hp₁ hs₁
    have htail : ∀ n, 0 < n → .result (.count n) ∉ Label.result (.fail (.hard e)) :: p₂ := by
      intro n hn hmem
      rcases List.mem_cons.mp hmem with heq | hmem
      · simp at heq
      · exact hcounts n hn (List.mem_append_left q hmem)
    rcases appended_after hok hfit₁ htail hrest with ⟨happended, hgiven⟩
    have hfit' := fit_after hok hfit hafter
    constructor
    · rw [happended]
      exact List.IsPrefix.trans ⟨s₁.remaining, hs₁whole.symm⟩ hgiven
    · intro _
      constructor
      · intro _
        exact (closed_after hok hfit (List.mem_append_left _ hclose) hafter).1
      · intro p' q' s' hq hs'
        rw [after_trans hafter] at hs'
        have hp' : ∀ n, 0 < n → .result (.count n) ∉ p' := by
          intro n hn hmem
          apply hcounts n hn
          rw [hq]
          exact List.mem_append_right p₂ (List.mem_append_left q' hmem)
        exact (appended_after hok hfit' hp' hs').1

theorem hardErrorsEnd_of_keepsFile {M : McapWriter W} (hok : M.AlwaysOk) {start t : State W}
    (hfit : Fit start) (hunclosed : Unclosed start) (hwhole : Whole start) {ls : List Label}
    (hafter : after M start ls = some t) (hidle : t.task = .idle)
    (h : KeepsFile M start ls) : HardErrorsEnd ls := by
  intro p e q hls
  have hsplit : ls = (p ++ [.result (.fail (.hard e))]) ++ q := by
    rw [hls, List.append_assoc, List.singleton_append]
  rw [hsplit] at hafter
  rcases after_append hafter with ⟨s, hs, hq⟩
  have hcut := cut_after_hard hok hfit hwhole hs
  have hkept := (h _ q s hsplit hs).2 hcut
  have hsfit := fit_after hok hfit hs
  constructor
  · by_contra hp
    have hnone : .close ∉ p ++ [.result (.fail (.hard e))] := by
      simpa using hp
    -- the sink is unclosed until the next `Close`, or until the end of the run
    have hwaits : ∀ q₁ q₂ s', q = q₁ ++ q₂ → .close ∉ q₁ → after M s q₁ = some s' →
        s'.task = .idle → False := by
      intro q₁ q₂ s' hqs hq₁ hs' hidle'
      have hs'' : after M start ((p ++ [.result (.fail (.hard e))]) ++ q₁) = some s' := by
        rw [after_trans hs, hs']
      have hno : .close ∉ (p ++ [.result (.fail (.hard e))]) ++ q₁ := by
        intro hmem
        rcases List.mem_append.mp hmem with hmem | hmem
        · exact hnone hmem
        · exact hq₁ hmem
      have hopen := (unclosed_after hok hfit hunclosed hno hs'').isOpen hidle'
        (cut_after hok hsfit hcut hs')
      have hclosed := ((h _ q₂ s' (by rw [hsplit, hqs, ← List.append_assoc]) hs'').2
        (cut_after hok hsfit hcut hs')).1 hidle'
      rw [hclosed] at hopen
      contradiction
    by_cases hclose : .close ∈ q
    · rcases List.eq_append_cons_of_mem hclose with ⟨q₁, q₂, hqs, hq₁⟩
      rw [hqs] at hq
      rcases after_append hq with ⟨s₁, hs₁, hrest⟩
      rcases after_cons hrest with ⟨s₂, hstep, _⟩
      exact hwaits q₁ _ s₁ hqs hq₁ hs₁ (close_cases hstep).1
    · exact hwaits q [] t (List.append_nil q).symm hclose hq hidle
  · intro n hn hmem
    rcases List.append_of_mem hmem with ⟨q₁, q₂, hqs⟩
    rw [hqs] at hq
    rcases after_append hq with ⟨s₁, hs₁, hrest⟩
    rcases after_cons hrest with ⟨s₂, hstep, _⟩
    have hbefore := hkept.2 q₁ (.result (.count n) :: q₂) s₁ hqs (by rw [after_trans hs, hs₁])
    have hthrough : after M s (q₁ ++ [.result (.count n)]) = some s₂ := by
      rw [after_trans hs₁]
      simp only [after, Foundation.run, if_true, hstep]
    have hbehind := hkept.2 (q₁ ++ [.result (.count n)]) q₂ s₂
      (by rw [hqs, List.append_assoc]; rfl)
      (by rw [after_trans hs, hthrough])
    have hgrown := appended_of_count hn hstep
    rw [hbefore, hbehind] at hgrown
    exact Nat.lt_irrefl _ hgrown

/-- For every writer whose status is always ok, every file and every run from the
constructor: when every hard error comes from `Close` and nothing is written behind it,
the file is kept, and when a run that ends between two calls keeps the file, every hard
error was such a one. -/
theorem keeps_file_iff {M : McapWriter W} (hok : M.AlwaysOk) (fileName : String)
    (truncate : Bool) (existing : Option Bytes) (r : OpenResult) (ls : List Label) :
    (HardErrorsEnd ls → KeepsFile M (State.construct M fileName truncate existing r) ls) ∧
    ∀ s, after M (State.construct M fileName truncate existing r) ls = some s →
      s.task = .idle →
        (KeepsFile M (State.construct M fileName truncate existing r) ls ↔ HardErrorsEnd ls) := by
  rcases construct_fit M fileName truncate existing r with ⟨hfit, hunclosed, hwhole⟩
  constructor
  · exact keepsFile_of_hardErrorsEnd hok hfit hwhole
  · intro s hafter hidle
    constructor
    · exact hardErrorsEnd_of_keepsFile hok hfit hunclosed hwhole hafter hidle
    · exact keepsFile_of_hardErrorsEnd hok hfit hwhole

/-! ## A run with a hard error -/

/-- A writer without chunks: a magic byte, the data of each message and the magic again. -/
def plainWriter : McapWriter Unit where
  opened := ((), [[0x89]])
  channelId := 1
  write := fun _ msg => ((), [msg.data], true)
  close := fun _ => ((), [[0x89]])

/-- A writer that keeps the data of its messages back until it is closed. -/
def chunkWriter : McapWriter Bytes where
  opened := ([], [[0x89]])
  channelId := 1
  write := fun chunk msg => (chunk ++ msg.data, [], true)
  close := fun chunk => ([], [chunk, [0x89]])

/-- The disk is full in the middle of the first message and has room for the second. -/
def fullDisk : List Label :=
  [.result (.count 1), .publish 10 [1, 2, 3], .result (.count 1),
    .result (.fail (.hard "No space left on device")), .publish 20 [4, 5], .result (.count 2)]

/-- The second message stands behind the gap and the sink is still open. -/
theorem next_record_behind_gap :
    (after plainWriter (State.construct plainWriter "log.mcap" true none .ok) fullDisk).map
        (fun s => (s.appended, s.given, s.isOpen)) =
      some ([0x89, 1, 4, 5], [0x89, 1, 2, 3, 4, 5], true) ∧
    ¬ KeepsFile plainWriter (State.construct plainWriter "log.mcap" true none .ok) fullDisk := by
  constructor
  · decide
  · intro hkept
    have h := hkept fullDisk [] _ rfl rfl
    exact absurd h.1 (by decide)

/-- The disk fills up while `Close` writes the chunk, and stays full. -/
def fullAtClose : List Label :=
  [.result (.count 1), .publish 10 [1, 2], .publish 20 [3], .close, .result (.count 1),
    .result (.fail .eintr), .result (.fail (.hard "No space left on device")),
    .result (.fail (.hard "No space left on device")), .publish 30 [4]]

/-- The file ends inside the chunk, and the sink is closed. -/
theorem keeps_file_iff_short_writes :
    (after chunkWriter (State.construct chunkWriter "log.mcap" true none .ok) fullAtClose).map
        (fun s => (s.appended, s.given, s.isOpen)) =
      some ([0x89, 1], [0x89, 1, 2, 3, 0x89], false) ∧
    KeepsFile chunkWriter (State.construct chunkWriter "log.mcap" true none .ok) fullAtClose := by
  constructor
  · decide
  · apply (keeps_file_iff (fun _ _ => rfl) "log.mcap" true none .ok _).1
    apply hardErrorsEnd_append (p := fullAtClose.take 6) (q := fullAtClose.drop 6)
    · intro e hmem
      simp [fullAtClose] at hmem
    · simp [fullAtClose]
    · intro n _ hmem
      simp [fullAtClose] at hmem

end Mcap
end DAQ
end DtCore
