import DtCore.Log.RtLog.LifeCycle

/-!
# Giving the terminal back

`Initialize` enters the terminal before it starts the thread, and `Terminate` returns at once
when the thread was not started.  What has entered the terminal in such an `Initialize` stays
there until a later `Initialize` starts the thread.  When that one enters the terminal as well
it finds it in raw mode and saves that, and the interface from before is dropped only when the
new default logger takes the place of the old one.

Main definitions:

- `Registry.Replaces`: a new default logger takes the place of the one before.
- `Session`: the calls of `Initialize` since the last `Terminate` that did something.
- `RestoresTerminal`: behind every `Terminate` all interfaces have left the terminal, and it
  has the attributes from before.

Main results:

- Theorems `prepared_inside`, `terminate_inside`: the terminal along the calls.
- Theorem `restoresTerminal_iff`: the sequences of calls that give the terminal back.
- Theorem `restoresTerminal_of_once`: those that enter it once in each session do, whatever
  the registry does with the loggers from before.
-/

namespace DtCore
namespace Log
namespace RtLog
namespace LifeCycle

open Foundation Utils

variable {Y : Registry} {s s' : State Y}

/-- `TermRestore` has run for every `TermInit`. -/
def State.TermOut (s : State Y) : Prop :=
  ∀ id < s.entered, id ∈ s.restored

/-- `Initialize` and `Terminate`. -/
def Call.IsLifeCycle : Call → Prop
  | .initializeLog _ _ _ _ _ | .terminate _ _ => True
  | _ => False

/-- Behind every `Terminate` of a run from `s` on the terminal is out of TUI mode. -/
def State.RestoresTerminal (s : State Y) (cs : List Call) : Prop :=
  ∀ front dropped deleted rest, cs = front ++ .terminate dropped deleted :: rest →
    ∃ s', run (front ++ [.terminate dropped deleted]) s = some s' ∧ s'.TermOut ∧
      s'.termios = .callers

/-- The same from the constructor on. -/
def RestoresTerminal (Y : Registry) (cs : List Call) : Prop :=
  (State.start Y).RestoresTerminal cs

/-- What `set_default_logger` does: the new default logger is registered, and the one before
is not any more. -/
structure Registry.Replaces (Y : Registry) : Prop where
  registered : ∀ l r, l ∈ Y.loggers (Y.setDefault l r)
  replaced : ∀ l l' r, l ≠ l' → l ∉ Y.loggers (Y.setDefault l' (Y.setDefault l r))

/-! ## Sessions -/

/-- The calls of `Initialize` since the last `Terminate` that did something: how many of them,
one directly behind the other, have entered the terminal, latest first.  There is a zero for
each call that has not.  Halfway none has started the thread. -/
inductive Session where
  | idle
  | halfway (rows : List Nat)
  | running (rows : List Nat)
deriving DecidableEq

def Session.rows : Session → List Nat
  | .idle => []
  | .halfway rows | .running rows => rows

/-- One more call of `Initialize`. -/
def nextRows (enters : Bool) : List Nat → List Nat
  | [] => [if enters then 1 else 0]
  | n :: rows => if enters then (n + 1) :: rows else 0 :: n :: rows

def Session.next (c : Call) (q : Session) : Session :=
  match c, q with
  | .initializeLog _ _ _ _ _, .running rows => .running rows
  | .initializeLog _ fileBasename enableTui _ o, q =>
      if o.createThread then .running (nextRows (usesTui fileBasename enableTui o) q.rows)
      else .halfway (nextRows (usesTui fileBasename enableTui o) q.rows)
  | .terminate _ _, .running _ => .idle
  | _, q => q

/-- The session behind some calls. -/
def Session.after (cs : List Call) (q : Session) : Session :=
  cs.foldl (fun q c => q.next c) q

/-- `Terminate` gives the terminal back: halfway nothing has entered it, and a running logger
has entered it an odd number of times in each row. -/
def Session.GivesBack : Session → Prop
  | .idle => True
  | .halfway rows => ∀ n ∈ rows, n = 0
  | .running rows => ∀ n ∈ rows, n = 0 ∨ n % 2 = 1

instance (q : Session) : Decidable q.GivesBack :=
  match q with
  | .idle => inferInstanceAs (Decidable True)
  | .halfway rows => inferInstanceAs (Decidable (∀ n ∈ rows, n = 0))
  | .running rows => inferInstanceAs (Decidable (∀ n ∈ rows, n = 0 ∨ n % 2 = 1))

def Session.phase : Session → Phase
  | .idle => .idle
  | .halfway rows => .halfway (rows.any (0 < ·))
  | .running _ => .running

/-- The attributes of the terminal behind some calls of `Initialize`, and those that the last
interface has saved: one that enters the terminal of another gets its attributes from there
and hands over its own in turn. -/
def attributes : List Nat → Termios × Termios
  | [] => (.callers, .callers)
  | 0 :: rows => attributes rows
  | (n + 1) :: rows =>
      if n % 2 = 0 then (.raw, (attributes rows).2) else ((attributes rows).2, .raw)

theorem attributes_of_zeros {rows : List Nat} (h : ∀ n ∈ rows, n = 0) :
    attributes rows = (.callers, .callers) := by
  induction rows with
  | nil => rfl
  | cons n rows ih =>
      rw [h n List.mem_cons_self, attributes]
      exact ih (fun m hm => h m (List.mem_cons_of_mem n hm))

/-- The attributes from before are saved when every row is odd. -/
theorem attributes_eq_callers_iff (rows : List Nat) :
    (attributes rows).2 = .callers ↔ ∀ n ∈ rows, n = 0 ∨ n % 2 = 1 := by
  induction rows with
  | nil => exact ⟨fun _ n hn => absurd hn List.not_mem_nil, fun _ => rfl⟩
  | cons n rows ih =>
      cases n with
      | zero =>
          rw [attributes, ih, List.forall_mem_cons]
          exact ⟨fun h => ⟨Or.inl rfl, h⟩, fun h => h.2⟩
      | succ n =>
          rw [attributes, List.forall_mem_cons]
          by_cases heven : n % 2 = 0
          · rw [if_pos heven, ih]
            exact ⟨fun h => ⟨Or.inr (by omega), h⟩, fun h => h.2⟩
          · rw [if_neg heven]
            constructor
            · intro hraw
              cases hraw
            · rintro ⟨hodd, -⟩
              omega

theorem sum_nextRows (enters : Bool) (rows : List Nat) :
    (nextRows enters rows).sum = rows.sum + if enters then 1 else 0 := by
  cases rows with
  | nil =>
      cases enters with
      | false => rfl
      | true => rfl
  | cons n rows =>
      cases enters with
      | false => simp [nextRows]
      | true =>
          simp only [nextRows, if_true, List.sum_cons]
          omega

/-! ## The interfaces in the terminal -/

/-- No logger of the registry holds on to an interface. -/
def Unshared (s : State Y) : Prop :=
  ∀ l ∈ Y.loggers s.registry, ∀ id, Sink.tui id ∉ l.sinks

/-- Of the registry only the default logger holds on to an interface, and that is `id`. -/
def SharedBy (s : State Y) (id : Nat) : Prop :=
  ∃ l r, s.registry = Y.setDefault l r ∧ Sink.tui id ∈ l.sinks ∧
    ∀ l' ∈ Y.loggers s.registry, l' ≠ l → ∀ id', Sink.tui id' ∉ l'.sinks

/-- Between the calls the interface in `tui` is the only one in the terminal, and it is shared
with the default logger when the last `Initialize` has made it. -/
structure Inside (s : State Y) (rows : List Nat) : Prop where
  one : ∀ id < s.entered, id ∉ s.restored → s.tui = some id
  own : ∀ id, s.tui = some id → id < s.entered ∧ id ∉ s.restored
  bounded : ∀ id ∈ s.restored, id < s.entered
  entered : s.tui = none ↔ ∀ n ∈ rows, n = 0
  termios : s.termios = (attributes rows).1
  saved : ∀ id, s.tui = some id → s.oldTermios id = (attributes rows).2
  unshared : Y.Replaces → rows.headD 0 = 0 → Unshared s
  shared : Y.Replaces → rows.headD 0 ≠ 0 → ∀ id, s.tui = some id → SharedBy s id

theorem start_inside (Y : Registry) : Inside (State.start Y) [] where
  one _ hid := absurd hid (Nat.not_lt_zero _)
  own _ hid := by cases hid
  bounded _ hid := absurd hid List.not_mem_nil
  entered := ⟨fun _ n hn => absurd hn List.not_mem_nil, fun _ => rfl⟩
  termios := rfl
  saved _ hid := by cases hid
  unshared _ _ l hl id := Y.loggers_start l hl id
  shared _ h := absurd rfl h

theorem mem_unheld {id : Nat} :
    id ∈ s.unheld ↔ id < s.entered ∧ id ∉ s.restored ∧ ¬ s.Held id := by
  unfold State.unheld
  rw [List.mem_filter, List.mem_range, decide_eq_true_eq]

theorem mem_restored_release {id : Nat} :
    id ∈ s.release.restored ↔ id ∈ s.restored ∨ id < s.entered ∧ ¬ s.Held id := by
  show id ∈ s.restored ++ s.unheld ↔ _
  rw [List.mem_append, mem_unheld]
  constructor
  · rintro (hold | ⟨hlt, -, hfree⟩)
    · exact Or.inl hold
    · exact Or.inr ⟨hlt, hfree⟩
  · rintro (hold | ⟨hlt, hfree⟩)
    · exact Or.inl hold
    · by_cases hmem : id ∈ s.restored
      · exact Or.inl hmem
      · exact Or.inr ⟨hlt, hmem, hfree⟩

/-- When everything is held on to no destructor runs. -/
theorem release_eq_self (h : ∀ id < s.entered, id ∉ s.restored → s.Held id) :
    s.release = s := by
  have hnone : s.unheld = [] := by
    rw [List.eq_nil_iff_forall_not_mem]
    intro id hid
    rcases mem_unheld.mp hid with ⟨hlt, hin, hfree⟩
    exact hfree (h id hlt hin)
  unfold State.release
  rw [hnone, List.append_nil]
  rfl

/-- One destructor runs. -/
theorem release_termios {own : Nat} (h : ∀ id, id ∈ s.unheld ↔ id = own) :
    s.release.termios = s.oldTermios own := by
  have hlast : ∀ (ids : List Nat) (t : Termios), (∀ id ∈ ids, id = own) → ids ≠ [] →
      ids.foldl (fun _ id => s.oldTermios id) t = s.oldTermios own := by
    intro ids
    induction ids with
    | nil => exact fun _ _ hne => absurd rfl hne
    | cons id ids ih =>
        intro t hids _
        by_cases hnil : ids = []
        · rw [hnil, hids id List.mem_cons_self]
          rfl
        · exact ih _ (fun id' hid' => hids id' (List.mem_cons_of_mem id hid')) hnil
  exact hlast s.unheld s.termios (fun id hid => (h id).mp hid)
    (List.ne_nil_of_mem ((h own).mpr rfl))

/-! ## The terminal behind `Initialize` -/

theorem zeros_nextRows (rows : List Nat) :
    (∀ n ∈ nextRows false rows, n = 0) ↔ ∀ n ∈ rows, n = 0 := by
  cases rows with
  | nil => simp [nextRows]
  | cons n rows => simp [nextRows]

theorem attributes_nextRows (rows : List Nat) :
    attributes (nextRows false rows) = attributes rows := by
  cases rows with
  | nil => rfl
  | cons n rows => rfl

theorem headD_nextRows (enters : Bool) (rows : List Nat) :
    (nextRows enters rows).headD 0 = if enters then rows.headD 0 + 1 else 0 := by
  cases rows with
  | nil => cases enters <;> rfl
  | cons n rows => cases enters <;> rfl

/-- An interface that enters behind another one swaps the attributes. -/
theorem attributes_swap (n : Nat) (rows : List Nat) :
    attributes ((n + 2) :: rows) =
      ((attributes ((n + 1) :: rows)).2, (attributes ((n + 1) :: rows)).1) := by
  rw [attributes, attributes]
  by_cases heven : n % 2 = 0
  · rw [if_pos heven, if_neg (by omega)]
  · rw [if_neg heven, if_pos (by omega)]

/-- Only the members that `Inside` is about matter to it. -/
theorem Inside.congr {rows : List Nat} (h : Inside s rows) (htui : s'.tui = s.tui)
    (hregistry : s'.registry = s.registry) (hentered : s'.entered = s.entered)
    (hrestored : s'.restored = s.restored) (htermios : s'.termios = s.termios)
    (hold : s'.oldTermios = s.oldTermios) : Inside s' rows := by
  constructor
  · rw [hentered, hrestored, htui]
    exact h.one
  · rw [hentered, hrestored, htui]
    exact h.own
  · rw [hentered, hrestored]
    exact h.bounded
  · rw [htui]
    exact h.entered
  · rw [htermios]
    exact h.termios
  · rw [htui, hold]
    exact h.saved
  · unfold Unshared
    rw [hregistry]
    exact h.unshared
  · unfold SharedBy
    rw [hregistry, htui]
    exact h.shared

section Initialize

variable {rows : List Nat}

/-- A new logger does not end an interface. -/
theorem makeLogger_eq (h : Inside s rows) (logName : Name) :
    s.makeLogger logName = { s with logger := some { name := logName, sinks := [] } } :=
  release_eq_self (fun id hid hin => Or.inl (h.one id hid hin))

/-- Behind a call that entered the terminal there is an interface in `tui`. -/
theorem Inside.exists_own (h : Inside s rows) (hhead : rows.headD 0 ≠ 0) :
    ∃ own, s.tui = some own := by
  rw [← Option.isSome_iff_exists, ← Option.ne_none_iff_isSome]
  intro hnone
  have hzeros := h.entered.mp hnone
  cases rows with
  | nil => exact hhead rfl
  | cons n rows => exact hhead (hzeros n List.mem_cons_self)

/-- Behind `set_default_logger` the other loggers hold on to no interface. -/
theorem others_unshared (h : Inside s rows) (hY : Y.Replaces) {l : Logger}
    (hnew : ∀ own, s.tui = some own → Sink.tui own ∉ l.sinks) :
    ∀ l' ∈ Y.loggers (Y.setDefault l s.registry), l' ≠ l → ∀ id, Sink.tui id ∉ l'.sinks := by
  intro l' hl' hne id
  rcases Y.mem_setDefault hl' with heq | hbefore
  · exact absurd heq hne
  · by_cases hhead : rows.headD 0 = 0
    · exact h.unshared hY hhead l' hbefore id
    · rcases h.exists_own hhead with ⟨own, htui⟩
      rcases h.shared hY hhead own htui with ⟨old, r, hregistry, hold, hothers⟩
      have hdropped : old ≠ l := by
        rintro rfl
        exact hnew own htui hold
      have hl : l' ≠ old := by
        rintro rfl
        rw [hregistry] at hl'
        exact hY.replaced l' l r hdropped hl'
      exact hothers l' hbefore hl id

/-- A call of `Initialize` that does not enter the terminal. -/
theorem prepared_inside_of_plain (h : Inside s rows) (logName : Name) {sinks : List Sink}
    (hsinks : ∀ id, Sink.tui id ∉ sinks) (rs : List (Name × Request)) :
    Inside (s.prepared logName false sinks rs).setDefaultLogger (nextRows false rows) := by
  let l : Logger := { name := logName, sinks := .console :: sinks }
  have hplain : ∀ id, Sink.tui id ∉ l.sinks := by
    intro id hid
    rcases List.mem_cons.mp hid with hfirst | hrest
    · cases hfirst
    · exact hsinks id hrest
  have hprepared : s.prepared logName false sinks rs =
      { s with logger := some l, requests := rs } := by
    unfold State.prepared
    rw [if_neg Bool.false_ne_true, makeLogger_eq h]
    rfl
  have hdefault : (s.prepared logName false sinks rs).setDefaultLogger =
      { s with logger := some l, requests := rs, registry := Y.setDefault l s.registry } := by
    rw [hprepared, setDefaultLogger_eq rfl]
    exact release_eq_self (fun id hid hin => Or.inl (h.one id hid hin))
  rw [hdefault]
  constructor
  · exact h.one
  · exact h.own
  · exact h.bounded
  · exact h.entered.trans (zeros_nextRows rows).symm
  · rw [attributes_nextRows]
    exact h.termios
  · rw [attributes_nextRows]
    exact h.saved
  · intro hY _ l' hl' id
    by_cases hl : l' = l
    · rw [hl]
      exact hplain id
    · exact others_unshared h hY (fun own _ => hplain own) l' hl' hl id
  · intro _ hhead
    rw [headD_nextRows] at hhead
    exact absurd rfl hhead

/-- The state when the new interface has been made and the one before is not in `tui` any
more. -/
def State.handedOver (logName : Name) (s : State Y) : State Y :=
  ({ s with logger := some { name := logName, sinks := [] }, tui := some s.entered } :
    State Y).release

/-- The interface from before is let go when no logger shares it. -/
theorem handedOver_released (h : Inside s rows) (hY : Y.Replaces) (hhead : rows.headD 0 = 0)
    {own : Nat} (htui : s.tui = some own) (logName : Name) :
    (∀ id, id ∈ (s.handedOver logName).restored ↔ id ∈ s.restored ∨ id = own) ∧
      (s.handedOver logName).termios = (attributes rows).2 := by
  let w : State Y := { s with
    logger := some { name := logName, sinks := [] }, tui := some s.entered }
  rcases h.own own htui with ⟨hlt, hin⟩
  have hfree : ¬ w.Held own := by
    rintro (heq | ⟨l, hl, hmem⟩)
    · exact Nat.lt_irrefl own (Option.some.inj heq ▸ hlt)
    · rcases List.mem_cons.mp hl with rfl | hl
      · exact absurd hmem List.not_mem_nil
      · exact h.unshared hY hhead l hl own hmem
  have hunheld : ∀ id, id ∈ w.unheld ↔ id = own := by
    intro id
    rw [mem_unheld]
    constructor
    · rintro ⟨hid, hout, -⟩
      exact (Option.some.inj (htui.symm.trans (h.one id hid hout))).symm
    · rintro rfl
      exact ⟨hlt, hin, hfree⟩
  constructor
  · intro id
    show id ∈ s.restored ++ w.unheld ↔ _
    rw [List.mem_append, hunheld]
  · rw [← h.saved own htui]
    exact release_termios hunheld

/-- It stays when the default logger shares it. -/
theorem handedOver_kept (h : Inside s rows) (hY : Y.Replaces) (hhead : rows.headD 0 ≠ 0)
    (logName : Name) :
    s.handedOver logName =
      { s with logger := some { name := logName, sinks := [] }, tui := some s.entered } := by
  rcases h.exists_own hhead with ⟨own, htui⟩
  rcases h.shared hY hhead own htui with ⟨l, r, hregistry, hmem, -⟩
  apply release_eq_self
  intro id hid hout
  have heq : id = own := (Option.some.inj (htui.symm.trans (h.one id hid hout))).symm
  rw [heq]
  refine Or.inr ⟨l, List.mem_cons_of_mem _ ?_, hmem⟩
  show l ∈ Y.loggers s.registry
  rw [hregistry]
  exact hY.registered l r

/-- Only an interface in `tui` asks for a registry that drops the default logger. -/
theorem replaces_of_own (hY : s.tui = none ∨ Y.Replaces) {own : Nat} (htui : s.tui = some own) :
    Y.Replaces := by
  rcases hY with hnone | hreplaces
  · rw [htui] at hnone
    cases hnone
  · exact hreplaces

/-- The terminal when the new interface enters it: the one before has left it unless the
default logger holds on to it. -/
theorem handedOver_spec (h : Inside s rows) (hY : s.tui = none ∨ Y.Replaces) (logName : Name) :
    (∀ id, id ∈ (s.handedOver logName).restored ↔
      id ∈ s.restored ∨ s.tui = some id ∧ rows.headD 0 = 0) ∧
    (s.handedOver logName).termios =
      if rows.headD 0 = 0 then (attributes rows).2 else (attributes rows).1 := by
  by_cases hhead : rows.headD 0 = 0
  · rw [if_pos hhead]
    cases htui : s.tui with
    | none =>
        have hsame : s.handedOver logName =
            { s with logger := some { name := logName, sinks := [] }, tui := some s.entered } := by
          apply release_eq_self
          intro id hid hout
          have hown := h.one id hid hout
          rw [htui] at hown
          cases hown
        have hzeros := attributes_of_zeros (h.entered.mp htui)
        rw [hsame]
        constructor
        · intro id
          constructor
          · exact Or.inl
          · rintro (hbefore | ⟨hfalse, -⟩)
            · exact hbefore
            · cases hfalse
        · show s.termios = _
          rw [h.termios, hzeros]
    | some own =>
        rcases handedOver_released h (replaces_of_own hY htui) hhead htui logName with
          ⟨hrestored, htermios⟩
        refine ⟨fun id => ?_, htermios⟩
        rw [hrestored]
        constructor
        · rintro (hold | rfl)
          · exact Or.inl hold
          · exact Or.inr ⟨rfl, hhead⟩
        · rintro (hold | ⟨heq, -⟩)
          · exact Or.inl hold
          · exact Or.inr (Option.some.inj heq).symm
  · rcases h.exists_own hhead with ⟨own, htui⟩
    rw [handedOver_kept h (replaces_of_own hY htui) hhead logName, if_neg hhead]
    refine ⟨fun id => ⟨Or.inl, ?_⟩, h.termios⟩
    rintro (hbefore | ⟨-, hzero⟩)
    · exact hbefore
    · exact absurd hzero hhead

/-- The state when the new interface has entered and the new default logger is registered,
in front of the destructors. -/
def State.entering (l : Logger) (rs : List (Name × Request)) (s : State Y) : State Y :=
  { (s.handedOver l.name).termInit with
    logger := some l, requests := rs, registry := Y.setDefault l s.registry }

section Entering

variable {l : Logger}

/-- Nothing holds on to the interface from before any more. -/
theorem entering_free (h : Inside s rows) (hY : s.tui = none ∨ Y.Replaces)
    (hother : ∀ own, s.tui = some own → Sink.tui own ∉ l.sinks) (rs : List (Name × Request))
    {own : Nat} (htui : s.tui = some own) : ¬ (s.entering l rs).Held own := by
  rintro (heq | ⟨l', hl', hmem⟩)
  · exact Nat.lt_irrefl own (Option.some.inj heq ▸ (h.own own htui).1)
  · have hmem' : l' = l ∨ l' ∈ Y.loggers (Y.setDefault l s.registry) := List.mem_cons.mp hl'
    by_cases hl : l' = l
    · rw [hl] at hmem
      exact hother own htui hmem
    · rcases hmem' with heq | hregistered
      · exact hl heq
      · exact others_unshared h (replaces_of_own hY htui) hother l' hregistered hl own hmem

/-- An interface in the terminal that is not the new one is the one from before. -/
theorem entering_own (h : Inside s rows) (hY : s.tui = none ∨ Y.Replaces)
    (rs : List (Name × Request)) {id : Nat} (hid : id < (s.entering l rs).entered)
    (hout : id ∉ (s.entering l rs).restored) (hne : id ≠ s.entered) :
    id ∉ s.restored ∧ s.tui = some id := by
  have hrestored := (handedOver_spec h hY l.name).1
  have hbefore : id ∉ s.restored := fun hmem => hout ((hrestored id).mpr (Or.inl hmem))
  have hlt : id < s.entered + 1 := hid
  exact ⟨hbefore, h.one id (by omega) hbefore⟩

/-- Behind the destructors only the new interface is in the terminal. -/
theorem entering_restored (h : Inside s rows) (hY : s.tui = none ∨ Y.Replaces)
    (hother : ∀ own, s.tui = some own → Sink.tui own ∉ l.sinks) (rs : List (Name × Request))
    (id : Nat) :
    id ∈ (s.entering l rs).release.restored ↔ id ∈ s.restored ∨ s.tui = some id := by
  rw [mem_restored_release]
  show id ∈ (s.handedOver l.name).restored ∨ id < s.entered + 1 ∧ ¬ (s.entering l rs).Held id ↔ _
  rw [(handedOver_spec h hY l.name).1]
  constructor
  · rintro ((hbefore | ⟨htui, -⟩) | ⟨hlt, hfree⟩)
    · exact Or.inl hbefore
    · exact Or.inr htui
    · have hne : id ≠ s.entered := by
        rintro rfl
        exact hfree (Or.inl rfl)
      by_cases hin : id ∈ s.restored
      · exact Or.inl hin
      · exact Or.inr (h.one id (by omega) hin)
  · rintro (hbefore | htui)
    · exact Or.inl (Or.inl hbefore)
    · exact Or.inr ⟨Nat.lt_succ_of_lt (h.own id htui).1, entering_free h hY hother rs htui⟩

/-- The attributes behind the destructors, and those that the new interface has saved. -/
theorem entering_termios (h : Inside s rows) (hY : s.tui = none ∨ Y.Replaces)
    (hother : ∀ own, s.tui = some own → Sink.tui own ∉ l.sinks) (rs : List (Name × Request)) :
    (s.entering l rs).release.termios = (attributes (nextRows true rows)).1 ∧
      (s.handedOver l.name).termios = (attributes (nextRows true rows)).2 := by
  rcases handedOver_spec h hY l.name with ⟨hrestored, htermios⟩
  by_cases hhead : rows.headD 0 = 0
  · have hall : ∀ id < (s.entering l rs).entered, id ∉ (s.entering l rs).restored →
        (s.entering l rs).Held id := by
      intro id hid hout
      by_cases hlast : id = s.entered
      · exact Or.inl (hlast ▸ rfl)
      · have htui := (entering_own h hY rs hid hout hlast).2
        exact absurd ((hrestored id).mpr (Or.inr ⟨htui, hhead⟩)) hout
    rw [release_eq_self hall, htermios, if_pos hhead]
    cases rows with
    | nil => exact ⟨rfl, rfl⟩
    | cons n rows =>
        have hn : n = 0 := hhead
        subst hn
        exact ⟨rfl, rfl⟩
  · rcases h.exists_own hhead with ⟨own, htui⟩
    rcases h.own own htui with ⟨hlt, hin⟩
    have hunheld : ∀ id, id ∈ (s.entering l rs).unheld ↔ id = own := by
      intro id
      rw [mem_unheld]
      constructor
      · rintro ⟨hid, hout, hfree⟩
        have hne : id ≠ s.entered := by
          rintro rfl
          exact hfree (Or.inl rfl)
        have hown := (entering_own h hY rs hid hout hne).2
        exact (Option.some.inj (htui.symm.trans hown)).symm
      · rintro rfl
        refine ⟨Nat.lt_succ_of_lt hlt, ?_, entering_free h hY hother rs htui⟩
        intro hmem
        rcases (hrestored id).mp hmem with hbefore | ⟨-, hzero⟩
        · exact hin hbefore
        · exact hhead hzero
    have hold : (s.entering l rs).oldTermios own = s.oldTermios own :=
      Function.update_of_ne (Nat.ne_of_lt hlt) _ _
    rw [release_termios hunheld, hold, h.saved own htui, htermios, if_neg hhead]
    cases rows with
    | nil => exact absurd rfl hhead
    | cons n rows =>
        cases n with
        | zero => exact absurd rfl hhead
        | succ n =>
            have hswap : attributes (nextRows true ((n + 1) :: rows)) = _ := attributes_swap n rows
            rw [hswap]
            exact ⟨rfl, rfl⟩

end Entering

/-- A call of `Initialize` that enters the terminal. -/
theorem prepared_inside_of_tui (h : Inside s rows) (hY : s.tui = none ∨ Y.Replaces)
    (logName : Name) {sinks : List Sink} (hsinks : ∀ id, Sink.tui id ∉ sinks)
    (rs : List (Name × Request)) :
    Inside (s.prepared logName true sinks rs).setDefaultLogger (nextRows true rows) := by
  let l : Logger := { name := logName, sinks := .tui s.entered :: sinks }
  have hother : ∀ own, s.tui = some own → Sink.tui own ∉ l.sinks := by
    intro own htui hmem
    rcases List.mem_cons.mp hmem with hfirst | hrest
    · exact Nat.lt_irrefl own (Sink.tui.inj hfirst ▸ (h.own own htui).1)
    · exact absurd hrest (hsinks own)
  have hdefault : (s.prepared logName true sinks rs).setDefaultLogger =
      (s.entering l rs).release := by
    have hprepared : s.prepared logName true sinks rs =
        { (s.handedOver logName).termInit with logger := some l, requests := rs } := by
      unfold State.prepared
      rw [if_pos rfl, makeLogger_eq h]
      rfl
    rw [hprepared, setDefaultLogger_eq rfl]
    rfl
  have hleft := entering_restored h hY hother rs
  have hattributes := entering_termios h hY hother rs
  rw [hdefault]
  constructor
  · intro id hid hin
    have hlt : id < s.entered + 1 := hid
    by_cases hlast : id = s.entered
    · rw [hlast]
      rfl
    · have hbefore : id ∉ s.restored := fun hmem => hin ((hleft id).mpr (Or.inl hmem))
      have htui := h.one id (by omega) hbefore
      exact absurd ((hleft id).mpr (Or.inr htui)) hin
  · intro id hid
    have hlast : s.entered = id := Option.some.inj hid
    subst hlast
    refine ⟨Nat.lt_succ_self _, ?_⟩
    intro hmem
    rcases (hleft s.entered).mp hmem with hbefore | htui
    · exact Nat.lt_irrefl _ (h.bounded _ hbefore)
    · exact Nat.lt_irrefl _ (h.own _ htui).1
  · intro id hid
    rcases (hleft id).mp hid with hbefore | htui
    · exact Nat.lt_succ_of_lt (h.bounded id hbefore)
    · exact Nat.lt_succ_of_lt (h.own id htui).1
  · constructor
    · intro hnone
      cases hnone
    · intro hzeros
      have hhead := headD_nextRows true rows
      cases hrows : nextRows true rows with
      | nil =>
          rw [hrows] at hhead
          cases hhead
      | cons n rest =>
          rw [hrows] at hhead hzeros
          rw [hzeros n List.mem_cons_self] at hhead
          cases hhead
  · exact hattributes.1
  · intro id hid
    have hlast : s.entered = id := Option.some.inj hid
    subst hlast
    rw [← hattributes.2]
    exact Function.update_self _ _ _
  · intro _ hhead
    rw [headD_nextRows, if_pos rfl] at hhead
    cases hhead
  · intro hreplaces _ id hid
    have hlast : s.entered = id := Option.some.inj hid
    subst hlast
    exact ⟨l, s.registry, rfl, List.mem_cons_self, others_unshared h hreplaces hother⟩

end Initialize

/-! ## The terminal behind `Terminate` -/

/-- With no interface in the terminal no destructor touches it. -/
theorem release_of_out (h : s.TermOut) : s.release = s :=
  release_eq_self (fun id hid hin => absurd (h id hid) hin)

theorem dropLoggers_of_out (h : s.TermOut) :
    s.dropLoggers = { s with registry := Y.shutdown s.registry, logger := none } := by
  have hfirst : ({ s with registry := Y.shutdown s.registry } : State Y).release =
      { s with registry := Y.shutdown s.registry } := release_of_out h
  unfold State.dropLoggers
  rw [hfirst]
  exact release_of_out (s := ({ s with registry := Y.shutdown s.registry, logger := none } :
    State Y)) h

/-- Without an interface in `tui` nothing is in the terminal. -/
theorem Inside.out {rows : List Nat} (h : Inside s rows) (htui : s.tui = none) : s.TermOut := by
  intro id hid
  by_contra hin
  have hown := h.one id hid hin
  rw [htui] at hown
  cases hown

theorem stopTui_spec {rows : List Nat} (h : Inside s rows) :
    s.stopTui.TermOut ∧ s.stopTui.tui = none ∧ s.stopTui.termios = (attributes rows).2 ∧
      s.stopTui.entered = s.entered ∧ ∀ id ∈ s.stopTui.restored, id < s.entered := by
  unfold State.stopTui
  cases htui : s.tui with
  | none =>
      have hzeros := attributes_of_zeros (h.entered.mp htui)
      refine ⟨h.out htui, htui, ?_, rfl, h.bounded⟩
      rw [h.termios, hzeros]
  | some own =>
      rcases h.own own htui with ⟨hlt, hin⟩
      have hrestore : s.termRestore own =
          { s with restored := s.restored ++ [own], termios := s.oldTermios own } := if_neg hin
      dsimp only
      rw [hrestore]
      refine ⟨?_, rfl, h.saved own htui, rfl, ?_⟩
      · intro id hid
        show id ∈ s.restored ++ [own]
        rw [List.mem_append, List.mem_singleton]
        by_cases hout : id ∈ s.restored
        · exact Or.inl hout
        · have hown := h.one id hid hout
          exact Or.inr (Option.some.inj (hown.symm.trans htui))
      · intro id hid
        rcases List.mem_append.mp hid with hbefore | hlast
        · exact h.bounded id hbefore
        · rw [List.mem_singleton.mp hlast]
          exact hlt

/-- `Terminate` takes what was in the terminal out of it, and leaves the attributes that the
last interface had saved. -/
theorem terminate_inside {rows : List Nat} (h : Inside s rows) (rs : List (Name × Request)) :
    let t := ({ s.stopTui with initialized := false, requests := rs } : State Y).dropLoggers
    t.TermOut ∧ t.termios = (attributes rows).2 ∧ (t.termios = .callers → Inside t []) := by
  rcases stopTui_spec h with ⟨hout, htui, htermios, hentered, hbounded⟩
  have hdrop : ({ s.stopTui with initialized := false, requests := rs } : State Y).dropLoggers =
      { s.stopTui with
        initialized := false
        requests := rs
        registry := Y.shutdown s.stopTui.registry
        logger := none } := dropLoggers_of_out hout
  dsimp only
  rw [hdrop]
  refine ⟨hout, htermios, fun hcallers => ?_⟩
  constructor
  · exact fun id hid hin => absurd (hout id hid) hin
  · intro id hid
    have hnone : s.stopTui.tui = some id := hid
    rw [htui] at hnone
    cases hnone
  · intro id hid
    show id < s.stopTui.entered
    rw [hentered]
    exact hbounded id hid
  · exact ⟨fun _ n hn => absurd hn List.not_mem_nil, fun _ => htui⟩
  · exact hcallers
  · intro id hid
    have hnone : s.stopTui.tui = some id := hid
    rw [htui] at hnone
    cases hnone
  · intro _ _ l hl
    have hempty : Y.loggers (Y.shutdown s.stopTui.registry) = [] := Y.loggers_shutdown _
    have hl' : l ∈ Y.loggers (Y.shutdown s.stopTui.registry) := hl
    rw [hempty] at hl'
    exact absurd hl' List.not_mem_nil
  · exact fun _ hhead => absurd rfl hhead

/-! ## Runs -/

/-- The registry is as it should be, or the terminal is entered only once. -/
def Admits (Y : Registry) (q : Session) : Prop :=
  Y.Replaces ∨ q.rows.sum ≤ 1

/-- The members follow the session. -/
structure Keeps (s : State Y) (q : Session) : Prop where
  tracks : Tracks s q.phase
  inside : Admits Y q → Inside s q.rows

theorem start_keeps (Y : Registry) : Keeps (State.start Y) .idle where
  tracks := ⟨rfl, rfl⟩
  inside _ := start_inside Y

theorem phase_eq_running {q : Session} (h : q.phase = .running) : ∃ rows, q = .running rows := by
  cases q with
  | idle => cases h
  | halfway rows => cases h
  | running rows => exact ⟨rows, rfl⟩

theorem Session.next_initializeLog {q : Session} (hq : q.phase ≠ .running)
    (logName fileBasename : Name) (enableTui annotDatetime : Bool) (o : Outcomes) :
    q.next (.initializeLog logName fileBasename enableTui annotDatetime o) =
      if o.createThread then .running (nextRows (usesTui fileBasename enableTui o) q.rows)
      else .halfway (nextRows (usesTui fileBasename enableTui o) q.rows) := by
  cases q with
  | idle => rfl
  | halfway rows => rfl
  | running rows => exact absurd rfl hq

/-- One more call of `Initialize` in a session. -/
theorem prepared_inside {q : Session} (h : Keeps s q) {enters : Bool}
    (hadmits : Admits Y (.halfway (nextRows enters q.rows))) (logName : Name)
    {sinks : List Sink} (hsinks : ∀ id, Sink.tui id ∉ sinks) (rs : List (Name × Request)) :
    Inside (s.prepared logName enters sinks rs).setDefaultLogger (nextRows enters q.rows) := by
  have hsum : Y.Replaces ∨ q.rows.sum + (if enters then 1 else 0) ≤ 1 := by
    rw [← sum_nextRows]
    exact hadmits
  have hinside : Inside s q.rows := by
    apply h.inside
    rcases hsum with hY | hsum
    · exact Or.inl hY
    · exact Or.inr (by omega)
  cases enters with
  | false => exact prepared_inside_of_plain hinside logName hsinks rs
  | true =>
      refine prepared_inside_of_tui hinside ?_ logName hsinks rs
      rcases hsum with hY | hsum
      · exact Or.inr hY
      · left
        apply hinside.entered.mpr
        rw [if_pos rfl] at hsum
        exact fun n hn => List.sum_eq_zero_iff.mp (by omega) n hn

/-- `Initialize`. -/
theorem initializeLog_keeps {q : Session} (h : Keeps s q) (logName fileBasename : Name)
    (enableTui annotDatetime : Bool) (o : Outcomes) :
    ∃ s', s.call (.initializeLog logName fileBasename enableTui annotDatetime o) = some s' ∧
      Keeps s' (q.next (.initializeLog logName fileBasename enableTui annotDatetime o)) := by
  by_cases hq : q.phase = .running
  · rcases phase_eq_running hq with ⟨rows, rfl⟩
    exact ⟨s, if_pos h.tracks.1, h⟩
  · have hinit : s.initialized = false :=
      Bool.eq_false_of_not_eq_true (fun hinit => hq (h.tracks.initialized_iff.mp hinit))
    rcases initializeLog_spec hinit logName fileBasename enableTui annotDatetime o with
      ⟨sinks, rs, rs', hsinks, hcall⟩
    refine ⟨_, hcall, ?_⟩
    have hinside : Admits Y (.halfway (nextRows (usesTui fileBasename enableTui o) q.rows)) →
        Inside (s.prepared logName (usesTui fileBasename enableTui o) sinks rs).setDefaultLogger
          (nextRows (usesTui fileBasename enableTui o) q.rows) := by
      intro hadmits
      exact prepared_inside h hadmits logName hsinks rs
    rw [Session.next_initializeLog hq]
    cases hthread : o.createThread with
    | true =>
        refine ⟨⟨rfl, ?_⟩, fun hadmits => (hinside hadmits).congr rfl rfl rfl rfl rfl rfl⟩
        rw [setDefaultLogger_eq rfl]
        rfl
    | false =>
        refine ⟨⟨rfl, ?_⟩, fun hadmits => (hinside hadmits).congr rfl rfl rfl rfl rfl rfl⟩
        rw [setDefaultLogger_eq rfl]
        rfl

/-- Halfway and without a session `Terminate` does nothing. -/
theorem givesBack_of_stopped {q : Session} (hq : q.phase ≠ .running) (h : Inside s q.rows) :
    s.TermOut ∧ s.termios = .callers ↔ q.GivesBack := by
  have hzeros : s.TermOut ∧ s.termios = .callers ↔ ∀ n ∈ q.rows, n = 0 := by
    constructor
    · rintro ⟨hout, -⟩
      apply h.entered.mp
      by_contra hin
      rcases Option.isSome_iff_exists.mp (Option.ne_none_iff_isSome.mp hin) with ⟨own, htui⟩
      rcases h.own own htui with ⟨hlt, hleft⟩
      exact hleft (hout own hlt)
    · intro hzeros
      refine ⟨h.out (h.entered.mpr hzeros), ?_⟩
      rw [h.termios, attributes_of_zeros hzeros]
  cases q with
  | idle => exact hzeros.trans ⟨fun _ => trivial, fun _ n hn => absurd hn List.not_mem_nil⟩
  | halfway rows => exact hzeros
  | running rows => exact absurd rfl hq

/-- `Terminate`. -/
theorem terminate_keeps {q : Session} (h : Keeps s q) (hadmits : Admits Y q)
    (dropped deleted : Bool) :
    ∃ s', s.call (.terminate dropped deleted) = some s' ∧
      (s'.TermOut ∧ s'.termios = .callers ↔ q.GivesBack) ∧
      (q.GivesBack → Keeps s' (q.next (.terminate dropped deleted))) := by
  by_cases hq : q.phase = .running
  · rcases phase_eq_running hq with ⟨rows, rfl⟩
    rcases terminate_spec h.tracks.1 h.tracks.2 dropped deleted with ⟨rs, hcall⟩
    rcases terminate_inside (h.inside hadmits) rs with ⟨hout, htermios, hinside⟩
    refine ⟨_, hcall, ?_, ?_⟩
    · rw [and_iff_right hout, htermios]
      exact attributes_eq_callers_iff rows
    · intro hback
      exact ⟨⟨rfl, rfl⟩,
        fun _ => hinside (htermios.trans ((attributes_eq_callers_iff rows).mpr hback))⟩
  · have hstopped : s.initialized = false :=
      Bool.eq_false_of_not_eq_true (fun hinit => hq (h.tracks.initialized_iff.mp hinit))
    have hcall : s.call (.terminate dropped deleted) = some s :=
      if_neg (by rw [hstopped]; exact Bool.false_ne_true)
    have hnext : q.next (.terminate dropped deleted) = q := by
      cases q with
      | idle => rfl
      | halfway rows => rfl
      | running rows => exact absurd rfl hq
    refine ⟨s, hcall, givesBack_of_stopped hq (h.inside hadmits), fun _ => ?_⟩
    rw [hnext]
    exact h

/-- What holds at every `Terminate` of a sequence of calls, one call at a time. -/
theorem terminates_cons {P : List Call → Bool → Bool → Prop} (c : Call) (cs : List Call) :
    (∀ front dropped deleted rest, c :: cs = front ++ .terminate dropped deleted :: rest →
        P front dropped deleted) ↔
      (∀ dropped deleted, c = .terminate dropped deleted → P [] dropped deleted) ∧
      ∀ front dropped deleted rest, cs = front ++ .terminate dropped deleted :: rest →
        P (c :: front) dropped deleted := by
  constructor
  · intro h
    constructor
    · rintro dropped deleted rfl
      exact h [] dropped deleted cs rfl
    · rintro front dropped deleted rest rfl
      exact h (c :: front) dropped deleted rest rfl
  · rintro ⟨hfirst, hlater⟩ front dropped deleted rest heq
    cases front with
    | nil =>
        cases heq
        exact hfirst dropped deleted rfl
    | cons c' front =>
        cases heq
        exact hlater front dropped deleted rest rfl

/-- The first call of a run that gives the terminal back. -/
theorem restoresTerminal_cons {c : Call} (hcall : s.call c = some s') (cs : List Call) :
    s.RestoresTerminal (c :: cs) ↔
      (∀ dropped deleted, c = .terminate dropped deleted →
        s'.TermOut ∧ s'.termios = .callers) ∧ s'.RestoresTerminal cs := by
  have hrun : ∀ ds, run (c :: ds) s = run ds s' := by
    intro ds
    show (s.call c).bind (run ds) = run ds s'
    rw [hcall]
    rfl
  unfold State.RestoresTerminal
  rw [terminates_cons]
  refine and_congr ?_ ?_
  · have hone : ∀ dropped deleted, c = .terminate dropped deleted →
        (run [.terminate dropped deleted] s = some s') := by
      rintro dropped deleted rfl
      exact hrun []
    constructor
    · intro h dropped deleted heq
      rcases h dropped deleted heq with ⟨s'', hs'', hout⟩
      rw [List.nil_append, hone dropped deleted heq] at hs''
      exact Option.some.inj hs'' ▸ hout
    · intro h dropped deleted heq
      exact ⟨s', hone dropped deleted heq, h dropped deleted heq⟩
  · simp only [List.cons_append, hrun]

/-- A run from a session on gives the terminal back when every `Terminate` does. -/
theorem restoresTerminal_from {q : Session} (h : Keeps s q) (cs : List Call)
    (hlife : ∀ c ∈ cs, c.IsLifeCycle)
    (hadmits : ∀ front rest, cs = front ++ rest → Admits Y (Session.after front q)) :
    s.RestoresTerminal cs ↔ ∀ front dropped deleted rest,
      cs = front ++ .terminate dropped deleted :: rest → (Session.after front q).GivesBack := by
  induction cs generalizing s q with
  | nil =>
      constructor
      · intro _ front dropped deleted rest heq
        exact absurd heq.symm (by simp)
      · intro _ front dropped deleted rest heq
        exact absurd heq.symm (by simp)
  | cons c cs ih =>
      have hlater : ∀ c' ∈ cs, c'.IsLifeCycle :=
        fun c' hc' => hlife c' (List.mem_cons_of_mem c hc')
      have hrest : ∀ front rest, cs = front ++ rest → Admits Y (Session.after front (q.next c)) :=
        fun front rest heq => hadmits (c :: front) rest (congrArg (c :: ·) heq)
      cases c with
      | initializeLog logName fileBasename enableTui annotDatetime o =>
          rcases initializeLog_keeps h logName fileBasename enableTui annotDatetime o with
            ⟨s', hcall, hkeeps⟩
          rw [restoresTerminal_cons hcall, terminates_cons, ih hkeeps hlater hrest]
          refine and_congr ?_ Iff.rfl
          constructor
          · intro _ dropped deleted heq
            cases heq
          · intro _ dropped deleted heq
            cases heq
      | terminate dropped deleted =>
          rcases terminate_keeps h (hadmits [] _ rfl) dropped deleted with
            ⟨s', hcall, hback, hkeeps⟩
          rw [restoresTerminal_cons hcall, terminates_cons]
          by_cases hgives : q.GivesBack
          · rw [ih (hkeeps hgives) hlater hrest]
            refine and_congr ?_ Iff.rfl
            exact ⟨fun _ _ _ _ => hgives, fun _ _ _ _ => hback.mpr hgives⟩
          · constructor
            · intro hall
              exact absurd (hback.mp (hall.1 dropped deleted rfl)) hgives
            · intro hall
              exact absurd (hall.1 dropped deleted rfl) hgives
      | _ => exact absurd (hlife _ List.mem_cons_self) id

/-- With any registry, when each session enters the terminal at most once. -/
theorem restoresTerminal_of_once (Y : Registry) (cs : List Call)
    (hlife : ∀ c ∈ cs, c.IsLifeCycle)
    (honce : ∀ front rest, cs = front ++ rest → (Session.after front .idle).rows.sum ≤ 1) :
    RestoresTerminal Y cs ↔ ∀ front dropped deleted rest,
      cs = front ++ .terminate dropped deleted :: rest →
        (Session.after front .idle).GivesBack :=
  restoresTerminal_from (start_keeps Y) cs hlife
    (fun front rest heq => Or.inr (honce front rest heq))

/-! ## Examples of registries and runs -/

/-- A registry with its default logger. -/
def spdlogRegistry : Registry where
  Content := Option Logger × List Logger
  start := (none, [])
  loggers r := r.2
  setDefault l r := (some l, l :: r.2.filter (fun l' =>
    l'.name ≠ l.name ∧ ∀ d ∈ r.1, l'.name ≠ d.name))
  register l r := (listRegistry.register l r.2).map (fun loggers => (r.1, loggers))
  shutdown _ := (none, [])
  loggers_start := fun _ hl => absurd hl List.not_mem_nil
  mem_setDefault := by
    intro l l' r hmem
    rcases List.mem_cons.mp hmem with heq | hold
    · exact Or.inl heq
    · exact Or.inr (List.mem_filter.mp hold).1
  loggers_shutdown _ := rfl

theorem spdlogRegistry_replaces : spdlogRegistry.Replaces where
  registered _ _ := List.mem_cons_self
  replaced := by
    intro l l' r hne hmem
    rcases List.mem_cons.mp hmem with heq | hold
    · exact hne heq
    · have hnames := of_decide_eq_true (List.mem_filter.mp hold).2
      exact hnames.2 l rfl rfl

/-- A terminal, and a thread that can be created or not. -/
def onTerminal (createThread : Bool) : Outcomes where
  stamp := "2024-01-01_00-00-00".toList
  stat _ := none
  mkdir _ := .ok ()
  symlink := true
  isatty := true
  createThread := createThread

/-- `Initialize` with a terminal interface or not, and a thread that is created or not. -/
def initializeIn (enableTui createThread : Bool) : Call :=
  .initializeLog "log".toList [] enableTui false (onTerminal createThread)

/-- A run, an `Initialize` that fails without the interface, and one that fails with it but is
followed by one that works. -/
def threeSessions : List Call :=
  [initializeIn true true, .terminate false true,
    initializeIn false false, .terminate false true,
    initializeIn true false, initializeIn false true, .terminate true true]

/-- The second interface has saved the raw mode of the first. -/
example : (run [initializeIn true false, initializeIn true true, .terminate false true]
    (State.start spdlogRegistry)).map State.termios = some .raw := by
  decide

end LifeCycle
end RtLog
end Log
end DtCore
