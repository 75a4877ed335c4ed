import Mathlib.Logic.Function.Iterate
import DtCore.Log.RtTui.Rows

/-!
# Switching between layouts

The key `]` goes up through the layouts until it is at the last one or at one that is
not defined, and from there to the first; the key `[` goes down and from the first
layout to the first one that is not defined, or to the last.  The layouts up to this
turning point are a cycle that both keys go round, in opposite directions.

The number of layouts is a parameter here; `RtTui` has `MAX_LAYOUTS` of them.

Main definitions:

- `previousOf`, `nextOf`: what the two keys show.
- `turn`: the layout at which they turn.
- `EachShown`, `KeysReturn`: the keys reach every defined layout and undo each other.
- `Switcher`: which layouts are defined and which one is shown.

Main results:

- Theorem `le_turn_iff`: the layouts of the cycle.
- Theorem `switcher_ops`: a user interface switches its layouts as a `Switcher` does.
- Theorem `layouts_shown_iff`: when the keys reach every defined layout.
-/

namespace DtCore
namespace Log
namespace RtTui

/-! ## The two keys -/

/-- The layout that `[` shows next. -/
def previousOf (n : Nat) (defined : Nat → Bool) (current : Nat) : Nat :=
  if current = 0 then ((List.range n).find? (fun i => !defined i)).getD (n - 1)
  else current - 1

/-- The layout that `]` shows next. -/
def nextOf (n : Nat) (defined : Nat → Bool) (current : Nat) : Nat :=
  if current = n - 1 ∨ defined current = false then 0 else current + 1

/-- The keys that switch layouts. -/
inductive SwitchKey where
  | previous
  | next

def press (n : Nat) (defined : Nat → Bool) (current : Nat) : SwitchKey → Nat
  | .previous => previousOf n defined current
  | .next => nextOf n defined current

/-- Pressing `]` shows each defined layout at some time. -/
def EachShown (n : Nat) (defined : Nat → Bool) (current : Nat) : Prop :=
  ∀ d < n, defined d = true → ∃ k, (nextOf n defined)^[k] current = d

/-- At every layout that the keys lead to they undo each other. -/
def KeysReturn (n : Nat) (defined : Nat → Bool) (current : Nat) : Prop :=
  ∀ keys : List SwitchKey,
    let l := keys.foldl (press n defined) current
    nextOf n defined (previousOf n defined l) = l ∧ previousOf n defined (nextOf n defined l) = l

/-- No defined layout is behind one that is not defined. -/
def NoGap (n : Nat) (defined : Nat → Bool) : Prop :=
  ∀ d < n, defined d = true → ∀ i < d, defined i = true

/-! ## The cycle -/

variable {n : Nat} {defined : Nat → Bool} {c : Nat}

/-- The first layout that is not defined or, when all are, the last one. -/
def turn (n : Nat) (defined : Nat → Bool) : Nat :=
  previousOf n defined 0

/-- The layouts up to the turning point are those with only defined ones in front. -/
theorem le_turn_iff (hn : 0 < n) : c ≤ turn n defined ↔ c < n ∧ ∀ i < c, defined i = true := by
  unfold turn previousOf
  rw [if_pos rfl]
  cases hfind : (List.range n).find? (fun i => !defined i) with
  | none =>
      have hall := List.find?_eq_none.mp hfind
      show c ≤ n - 1 ↔ _
      constructor
      · intro hc
        constructor
        · omega
        · intro i hi
          have hdef := hall i (List.mem_range.mpr (by omega))
          simpa using hdef
      · intro hc
        omega
  | some m =>
      rw [List.find?_range_eq_some] at hfind
      rcases hfind with ⟨hm, hmem, hbefore⟩
      have hmn : m < n := List.mem_range.mp hmem
      have hm' : defined m = false := by simpa using hm
      show c ≤ m ↔ _
      constructor
      · intro hc
        constructor
        · omega
        · intro i hi
          have hdef := hbefore i (by omega)
          simpa using hdef
      · intro hc
        by_contra hlt
        have hdef := hc.2 m (by omega)
        rw [hm'] at hdef
        contradiction

theorem turn_lt (hn : 0 < n) : turn n defined < n :=
  ((le_turn_iff hn).mp (Nat.le_refl _)).1

/-- Behind the turning point there is no layout, or it is not defined itself. -/
theorem turn_eq_or (hn : 0 < n) :
    turn n defined = n - 1 ∨ defined (turn n defined) = false := by
  by_contra hnot
  have hlt : turn n defined < n := turn_lt hn
  have hlast : turn n defined ≠ n - 1 := fun heq => hnot (Or.inl heq)
  have hdef : defined (turn n defined) = true := by
    rw [← Bool.not_eq_false]
    exact fun hfalse => hnot (Or.inr hfalse)
  have hnext : turn n defined + 1 ≤ turn n defined := by
    rw [le_turn_iff hn]
    constructor
    · omega
    · intro i hi
      rcases Nat.lt_succ_iff_lt_or_eq.mp hi with hlt' | heq
      · exact ((le_turn_iff hn).mp (Nat.le_refl _)).2 i hlt'
      · rw [heq]
        exact hdef
  omega

theorem nextOf_of_lt (hn : 0 < n) (hc : c < turn n defined) : nextOf n defined c = c + 1 := by
  have hlt : turn n defined < n := turn_lt hn
  have hdef := ((le_turn_iff hn).mp (Nat.le_refl _)).2 c hc
  apply if_neg
  rintro (hlast | hfalse)
  · omega
  · rw [hdef] at hfalse
    contradiction

theorem nextOf_turn (hn : 0 < n) : nextOf n defined (turn n defined) = 0 :=
  if_pos (turn_eq_or hn)

theorem previousOf_of_pos (hc : 0 < c) : previousOf n defined c = c - 1 :=
  if_neg (Nat.ne_of_gt hc)

theorem press_le (hn : 0 < n) (hc : c ≤ turn n defined) (k : SwitchKey) :
    press n defined c k ≤ turn n defined := by
  cases k with
  | previous =>
      show previousOf n defined c ≤ turn n defined
      rcases Nat.eq_zero_or_pos c with hzero | hpos
      · rw [hzero]
        exact Nat.le_refl _
      · rw [previousOf_of_pos hpos]
        omega
  | next =>
      show nextOf n defined c ≤ turn n defined
      rcases Nat.lt_or_eq_of_le hc with hlt | heq
      · rw [nextOf_of_lt hn hlt]
        exact hlt
      · rw [heq, nextOf_turn hn]
        exact Nat.zero_le _

theorem foldl_press_le (hn : 0 < n) (hc : c ≤ turn n defined) (keys : List SwitchKey) :
    keys.foldl (press n defined) c ≤ turn n defined := by
  induction keys generalizing c with
  | nil => exact hc
  | cons k keys ih => exact ih (press_le hn hc k)

theorem next_previous (hn : 0 < n) (hc : c ≤ turn n defined) :
    nextOf n defined (previousOf n defined c) = c := by
  rcases Nat.eq_zero_or_pos c with hzero | hpos
  · rw [hzero]
    exact nextOf_turn hn
  · rw [previousOf_of_pos hpos, nextOf_of_lt hn (by omega)]
    omega

theorem previous_next (hn : 0 < n) (hc : c ≤ turn n defined) :
    previousOf n defined (nextOf n defined c) = c := by
  rcases Nat.lt_or_eq_of_le hc with hlt | heq
  · rw [nextOf_of_lt hn hlt, previousOf_of_pos (Nat.succ_pos c)]
    rfl
  · rw [heq, nextOf_turn hn]
    rfl

/-! ## Where the keys lead -/

/-- Pressing `]` often enough is a way of pressing keys. -/
theorem foldl_replicate_next (k c : Nat) :
    (List.replicate k SwitchKey.next).foldl (press n defined) c = (nextOf n defined)^[k] c := by
  induction k generalizing c with
  | zero => rfl
  | succ k ih => exact ih _

/-- From every layout the key `]` leads to one from where it goes to the first. -/
theorem exists_wrap (defined : Nat → Bool) (hc : c < n) :
    ∃ k, c ≤ (nextOf n defined)^[k] c ∧ nextOf n defined ((nextOf n defined)^[k] c) = 0 := by
  induction hfuel : n - 1 - c generalizing c with
  | zero =>
      have hlast : c = n - 1 := by omega
      exact ⟨0, Nat.le_refl _, if_pos (Or.inl hlast)⟩
  | succ fuel ih =>
      by_cases hturn : c = n - 1 ∨ defined c = false
      · exact ⟨0, Nat.le_refl _, if_pos hturn⟩
      · have hnext : nextOf n defined c = c + 1 := if_neg hturn
        have hlt : c + 1 < n := by omega
        rcases ih hlt (by omega) with ⟨k, hle, hzero⟩
        refine ⟨k + 1, ?_, ?_⟩
        · rw [Function.iterate_succ_apply, hnext]
          omega
        · rw [Function.iterate_succ_apply, hnext]
          exact hzero

theorem iterate_next_zero (hn : 0 < n) {d : Nat} (hd : d ≤ turn n defined) :
    (nextOf n defined)^[d] 0 = d := by
  induction d with
  | zero => rfl
  | succ d ih =>
      rw [Function.iterate_succ_apply', ih (by omega), nextOf_of_lt hn hd]

/-- The key `]` shows every layout of the cycle. -/
theorem exists_iterate_next (hn : 0 < n) (hc : c < n) {d : Nat} (hd : d ≤ turn n defined) :
    ∃ k, (nextOf n defined)^[k] c = d := by
  rcases exists_wrap defined hc with ⟨k, _, hzero⟩
  refine ⟨d + (k + 1), ?_⟩
  rw [Function.iterate_add_apply, Function.iterate_succ_apply', hzero, iterate_next_zero hn hd]

/-- Keys that undo each other stay in the cycle. -/
theorem le_turn_of_keysReturn (hc : c < n) (h : KeysReturn n defined c) :
    c ≤ turn n defined := by
  rcases exists_wrap defined hc with ⟨k, hle, hzero⟩
  have hreturn := (h (List.replicate k SwitchKey.next)).2
  rw [foldl_replicate_next, hzero] at hreturn
  have hturn : turn n defined = (nextOf n defined)^[k] c := hreturn
  omega

/-- With any layout shown. -/
theorem shown_and_return_iff (hn : 0 < n) (hc : c < n) :
    EachShown n defined c ∧ KeysReturn n defined c ↔
      NoGap n defined ∧ c ≤ turn n defined := by
  constructor
  · intro h
    have hle := le_turn_of_keysReturn hc h.2
    constructor
    · intro d hd hdef i hi
      rcases h.1 d hd hdef with ⟨k, hk⟩
      have hreach := foldl_press_le hn hle (List.replicate k SwitchKey.next)
      rw [foldl_replicate_next, hk, le_turn_iff hn] at hreach
      exact hreach.2 i hi
    · exact hle
  · rintro ⟨hgap, hle⟩
    constructor
    · intro d hd hdef
      apply exists_iterate_next hn hc
      rw [le_turn_iff hn]
      exact ⟨hd, hgap d hd hdef⟩
    · intro keys
      have hreach := foldl_press_le hn hle keys
      exact ⟨next_previous hn hreach, previous_next hn hreach⟩

/-! ## Runs -/

/-- Which layouts are defined and which one is shown. -/
@[ext]
structure Switcher where
  defined : Nat → Bool
  current : Nat

def Switcher.init : Switcher where
  defined := fun _ => false
  current := 0

/-- A call that configures a layout, or a key. -/
inductive SwitchOp where
  | define (i : Nat)
  | key (k : SwitchKey)

def Switcher.op (n : Nat) (s : Switcher) : SwitchOp → Switcher
  | .define i => if i < n then { s with defined := Function.update s.defined i true } else s
  | .key k => { s with current := press n s.defined s.current k }

def Switcher.ops (n : Nat) (s : Switcher) (ops : List SwitchOp) : Switcher :=
  ops.foldl (Switcher.op n) s

theorem switcher_ops_append (s : Switcher) (ops ops' : List SwitchOp) :
    s.ops n (ops ++ ops') = (s.ops n ops).ops n ops' :=
  List.foldl_append ..

/-- Defining a layout moves the turning point up, if at all. -/
theorem le_turn_update (hn : 0 < n) (i : Nat) (hc : c ≤ turn n defined) :
    c ≤ turn n (Function.update defined i true) := by
  rw [le_turn_iff hn] at hc ⊢
  constructor
  · exact hc.1
  · intro j hj
    by_cases hji : j = i
    · rw [hji, Function.update_self]
    · rw [Function.update_of_ne hji]
      exact hc.2 j hj

theorem current_op (hn : 0 < n) {s : Switcher} (h : s.current ≤ turn n s.defined)
    (o : SwitchOp) : (s.op n o).current ≤ turn n (s.op n o).defined := by
  cases o with
  | define i =>
      unfold Switcher.op
      dsimp only
      split
      · exact le_turn_update hn i h
      · exact h
  | key k => exact press_le hn h k

/-- The layout that is shown is always one of the cycle. -/
theorem current_ops (hn : 0 < n) (ops : List SwitchOp) :
    (Switcher.init.ops n ops).current ≤ turn n (Switcher.init.ops n ops).defined := by
  have hrun : ∀ (ops : List SwitchOp) (s : Switcher), s.current ≤ turn n s.defined →
      (s.ops n ops).current ≤ turn n (s.ops n ops).defined := by
    intro ops
    induction ops with
    | nil => exact fun s h => h
    | cons o ops ih => exact fun s h => ih _ (current_op hn h o)
  exact hrun ops Switcher.init (Nat.zero_le _)

/-! ## The layouts of a user interface -/

def State.switcher (s : State) : Switcher where
  defined := fun i => (s.layouts i).defined
  current := s.currentLayout

/-- A step of a user interface switches layouts as some operations do. -/
def Switches (s t : State) : Prop :=
  ∃ ops, t.switcher = s.switcher.ops maxLayouts ops

theorem Switches.of_eq {s t : State} (h : t.switcher = s.switcher) : Switches s t :=
  ⟨[], h⟩

theorem Switches.trans {s t u : State} (h : Switches s t) (h' : Switches t u) :
    Switches s u := by
  rcases h with ⟨ops, hops⟩
  rcases h' with ⟨ops', hops'⟩
  refine ⟨ops ++ ops', ?_⟩
  rw [hops', hops, switcher_ops_append]

theorem switches_define {i : Int} (hi : validIndex i maxLayouts = true) (s : State)
    {f : TuiLayoutData → TuiLayoutData} (hf : ∀ layout, (f layout).defined = true) :
    Switches s (s.updateLayout i.toNat f) := by
  have hlt : i.toNat < maxLayouts := by
    simp only [validIndex, Bool.and_eq_true, decide_eq_true_eq] at hi
    omega
  refine ⟨[.define i.toNat], ?_⟩
  show _ = (if i.toNat < maxLayouts then _ else _)
  rw [if_pos hlt]
  apply Switcher.ext
  · funext j
    show ((s.updateLayout i.toNat f).layouts j).defined =
      Function.update (fun i => (s.layouts i).defined) i.toNat true j
    rw [layouts_updateLayout]
    by_cases hj : j = i.toNat
    · rw [if_pos hj, hf, hj, Function.update_self]
    · rw [if_neg hj, Function.update_of_ne hj]
  · rfl

theorem switches_updateRow (layoutIdx groupIdx rowIdx : Int) (f : TuiDataRow → TuiDataRow)
    (s : State) : Switches s (s.updateRow layoutIdx groupIdx rowIdx f) := by
  unfold State.updateRow
  split
  · rename_i hvalid
    simp only [Bool.and_eq_true] at hvalid
    exact switches_define hvalid.1.1 s (fun _ => rfl)
  · exact Switches.of_eq rfl

theorem switches_setLayoutName (layoutIdx : Int) (name : Option Bytes) (s : State) :
    Switches s (s.setLayoutName layoutIdx name) := by
  unfold State.setLayoutName
  split
  · exact Switches.of_eq rfl
  · split
    · rename_i hvalid
      exact switches_define hvalid s (fun _ => rfl)
    · exact Switches.of_eq rfl

theorem switches_setGroup (layoutIdx groupIdx : Int) (labelHdr : Bytes)
    (colHdrs : List (Option Bytes)) (s : State) :
    Switches s (s.setGroup layoutIdx groupIdx labelHdr colHdrs) := by
  unfold State.setGroup
  split
  · rename_i hvalid
    simp only [Bool.and_eq_true] at hvalid
    exact switches_define hvalid.1 s (fun _ => rfl)
  · exact Switches.of_eq rfl

theorem switches_setGroupNoHeader (layoutIdx groupIdx : Int) (s : State) :
    Switches s (s.setGroupNoHeader layoutIdx groupIdx) := by
  unfold State.setGroupNoHeader
  split
  · rename_i hvalid
    simp only [Bool.and_eq_true] at hvalid
    exact switches_define hvalid.1 s (fun _ => rfl)
  · exact Switches.of_eq rfl

theorem currentLayout_scroll (b2 : UInt8) (len : Nat) (b3 : UInt8) (s : State) :
    ((s.scroll b2 len b3).clampOffset).currentLayout = s.currentLayout := by
  rcases scroll_eq b2 len b3 s with ⟨_, _, h⟩
  rw [h]

/-- A key switches the layout when it is `[` or `]`, and no other key does. -/
theorem switches_handleKey (buf : Bytes) (s : State) : Switches s (s.handleKey buf) := by
  have hlayouts := layouts_handleKey buf s
  have hkeep : (s.handleKey buf).currentLayout = s.currentLayout →
      Switches s (s.handleKey buf) := by
    intro hcurrent
    apply Switches.of_eq
    unfold State.switcher
    rw [hlayouts, hcurrent]
  cases buf with
  | nil => exact Switches.of_eq rfl
  | cons b rest =>
      unfold State.handleKey at hkeep ⊢
      dsimp only at hkeep ⊢
      split
      · rename_i hseq
        rw [if_pos hseq] at hkeep
        exact hkeep (currentLayout_scroll _ _ _ s)
      · split
        · exact ⟨[.key .previous], rfl⟩
        · split
          · exact ⟨[.key .next], rfl⟩
          · exact Switches.of_eq rfl

theorem switches_handleKeys (skip : Nat) (buf : Bytes) (s : State) :
    Switches s (s.handleKeys skip buf) :=
  handleKeys_keeps (fun t buf h => h.trans (switches_handleKey buf t)) skip buf
    (Switches.of_eq rfl)

theorem switcher_drainLog (s : State) : s.drainLog.switcher = s.switcher :=
  drainLog_keeps (P := fun t => t.switcher = s.switcher) (fun _ _ h => h) rfl

theorem switcher_swapArea1 (s : State) : s.swapArea1.switcher = s.switcher := by
  apply Switcher.ext
  · funext j
    show ((s.updateLayout s.currentLayout TuiLayoutData.swapArea1).layouts j).defined = _
    rw [layouts_updateLayout]
    split
    · exact (swapArea1_seen _).2.2
    · rfl
  · rfl

theorem switches_tick (i : TickInput) (s : State) : Switches s (s.tick i) := by
  unfold State.tick
  split
  · have hdrain : Switches s s.drainLog := Switches.of_eq (switcher_drainLog s)
    have hkeys := switches_handleKeys 0 (i.keys.take keyBufLen) s.drainLog
    have hswap : Switches (s.beforeRender i) (s.beforeRender i).swapArea1 :=
      Switches.of_eq (switcher_swapArea1 _)
    have hresize : Switches (s.drainLog.handleKeys 0 (i.keys.take keyBufLen))
        (s.beforeRender i) := Switches.of_eq rfl
    exact ((hdrain.trans hkeys).trans hresize).trans hswap
  · exact Switches.of_eq rfl

theorem switches_op (s : State) (o : Op) : Switches s (s.op o) := by
  cases o with
  | setLayoutName layoutIdx name => exact switches_setLayoutName _ _ s
  | setGroup layoutIdx groupIdx labelHdr colHdrs => exact switches_setGroup _ _ _ _ s
  | setGroupNoHeader layoutIdx groupIdx => exact switches_setGroupNoHeader _ _ s
  | setRowCols layoutIdx groupIdx rowIdx label values => exact switches_updateRow _ _ _ _ s
  | setTextRow layoutIdx groupIdx rowIdx label text => exact switches_updateRow _ _ _ _ s
  | logV level text =>
      apply Switches.of_eq
      show (s.logV level text).switcher = _
      unfold State.logV State.tryPush
      split
      · rfl
      · rfl
  | popPendingKey => exact Switches.of_eq rfl
  | tick i => exact switches_tick i s
  | stop => exact Switches.of_eq rfl

/-- Every run of a user interface is one of a switcher with `MAX_LAYOUTS` layouts. -/
theorem switcher_ops (os : List Op) :
    ∃ ops, (State.init.ops os).switcher = Switcher.init.ops maxLayouts ops := by
  have hrun : ∀ (os : List Op) (s : State), Switches s (s.ops os) := by
    intro os
    induction os with
    | nil => exact fun s => Switches.of_eq rfl
    | cons o os ih => exact fun s => (switches_op s o).trans (ih _)
  exact hrun os State.init

/-! ## Every defined layout -/

/-- For every number of layouts: in every state that calls and keys lead to, pressing
`]` shows each defined layout and the two keys undo each other exactly when no defined
layout is behind one that is not defined.  With any other layout shown, it must also be
at most the first one that is not defined. -/
theorem layouts_shown_iff (hn : 0 < n) :
    (∀ ops, let s := Switcher.init.ops n ops
      EachShown n s.defined s.current ∧ KeysReturn n s.defined s.current ↔
        NoGap n s.defined) ∧
    ∀ (defined : Nat → Bool) (c : Nat), c < n →
      (EachShown n defined c ∧ KeysReturn n defined c ↔
        NoGap n defined ∧ c ≤ turn n defined) := by
  constructor
  · intro ops s
    have hle : s.current ≤ turn n s.defined := current_ops hn ops
    have hlt : s.current < n := Nat.lt_of_le_of_lt hle (turn_lt hn)
    rw [shown_and_return_iff hn hlt]
    exact and_iff_left hle
  · exact fun defined c hc => shown_and_return_iff hn hc

/-- Two of three layouts are defined, without a gap. -/
theorem two_layouts_shown :
    let s := Switcher.init.ops 3 [.define 0, .define 1]
    EachShown 3 s.defined s.current ∧ KeysReturn 3 s.defined s.current := by
  apply ((layouts_shown_iff (by decide)).1 [.define 0, .define 1]).mpr
  unfold NoGap
  decide

/-- With the first and the third layout defined no key ever shows the third one. -/
theorem third_layout_never_shown :
    ¬ ∀ n, 0 < n → ∀ ops, let s := Switcher.init.ops n ops
      EachShown n s.defined s.current ∧ KeysReturn n s.defined s.current := by
  intro h
  have hshown := h maxLayouts (by decide) [.define 0, .define 2]
  have hgap := ((shown_and_return_iff (by decide) (by decide)).mp hshown).1
  exact absurd (hgap 2 (by decide) (by decide) 1 (by decide)) (by decide)

end RtTui
end Log
end DtCore
