import DtCore.Foundation.Viewport
import DtCore.Log.RtTui.Window

/-!
# Scrolling the log pane

The log pane is a viewport on the messages that were taken from the queue.  A paused
pane follows its messages: the drain loop raises the scroll offset with every message,
so the lines stay as they are until the first of them is overwritten.  The offset is
only clamped for the drawing, and a scroll key starts from the offset that is stored.

Main definitions:

- `State.firstShown`: the messages in front of the first line of the pane.
- `State.windowStop`: the messages in front of the end of the pane.
- `downKey`: the bytes of the down key.

Main results:

- Theorem `line_shown_iff`: the lines of the pane are consecutive messages.
- Theorem `paused_view_still`: a paused pane does not move.
- Theorem `down_scrolls_iff`: when the down key moves the pane by one message.
-/

namespace DtCore
namespace Log
namespace RtTui

open Foundation RtLog

/-! ## The pane as a viewport -/

/-- The messages that were taken from the queue before the one on the first line. -/
def State.firstShown (height : Int) (s : State) : Nat :=
  Viewport.top logKeep (height - 2).toNat s.scrollOffset s.popped.length

/-- The index in the ring behind the last line. -/
def State.windowStop (height : Int) (s : State) : Nat :=
  (s.area2Window (height - 2).toNat).1 + (s.area2Window (height - 2).toNat).2

theorem PaneInv.count {s : State} (h : PaneInv s) :
    s.logHistory.count = Viewport.retained logKeep s.popped.length := by
  rw [← Ring.length_toList, h.history, length_lastN]
  rfl

/-- What was taken from the queue and is not in the ring any more is in front of it. -/
theorem PaneInv.windowEnd {s : State} (h : PaneInv s) (v : Nat) :
    s.popped.length - s.logHistory.count + s.windowEnd v =
      Viewport.stop logKeep v s.scrollOffset s.popped.length := by
  unfold State.windowEnd Viewport.stop
  rw [h.count]
  unfold Viewport.retained
  omega

theorem windowStop_eq (height : Int) (s : State) :
    s.windowStop height = s.windowEnd (height - 2).toNat := by
  have hle := le_windowEnd (height - 2).toNat s
  unfold State.windowStop
  rw [area2Window_eq]
  dsimp only
  omega

/-- Which message a line of the pane shows. -/
theorem line_shown_iff {s : State} (h : PaneInv s) {height : Int} (hheight : 3 ≤ height)
    (r : Nat) (e : TuiLogEntry) :
    (s.renderArea2 height)[r]? = some (some e) ↔
      r < Viewport.shown logKeep (height - 2).toNat s.popped.length ∧
        s.popped[s.firstShown height + r]? = some e := by
  have hshown : min (height - 2).toNat s.logHistory.count =
      Viewport.shown logKeep (height - 2).toNat s.popped.length := by
    rw [h.count]
    rfl
  have hend := h.windowEnd (height - 2).toNat
  have hle := le_windowEnd (height - 2).toNat s
  have hstop := windowEnd_le (height - 2).toNat s
  have htop : s.firstShown height = s.popped.length - s.logHistory.count +
      (s.windowEnd (height - 2).toNat - min (height - 2).toNat s.logHistory.count) := by
    unfold State.firstShown Viewport.top
    rw [← hend, ← hshown]
    omega
  have hcount : s.logHistory.count = min logKeep s.popped.length := h.count
  have hdrop : s.popped.length - logKeep = s.popped.length - s.logHistory.count := by
    rw [hcount]
    omega
  have hrender := renderArea2_eq hheight s
  rw [hrender, ← hshown, htop, h.history, lastN, hdrop, List.drop_drop]
  generalize min (height - 2).toNat s.logHistory.count = k at *
  generalize hskip : s.popped.length - s.logHistory.count +
    (s.windowEnd (height - 2).toNat - k) = skip
  have hlen : ((s.popped.drop skip).take k).length = k := by
    rw [List.length_take, List.length_drop]
    omega
  by_cases hr : r < k
  · rw [List.getElem?_append_left (by rw [List.length_map, hlen]; exact hr), List.getElem?_map,
      List.getElem?_take_of_lt hr, List.getElem?_drop]
    simp [hr]
  · rw [List.getElem?_append_right (by rw [List.length_map, hlen]; omega),
      List.getElem?_replicate]
    simp [hr]

/-! ## A paused pane -/

/-- A `Tick` without a key. -/
def idleKeys : TickInput where
  keys := []
  winsize := none

/-- Does a call leave the keyboard alone? -/
def Op.keyless : Op → Bool
  | .tick i => i.keys.isEmpty
  | _ => true

/-- The messages `es` were taken from the queue while the pane was paused. -/
structure Followed (s t : State) (es : List TuiLogEntry) : Prop where
  auto : t.autoScroll = false
  popped : t.popped = s.popped ++ es
  offset : es = [] ∨ s.scrollOffset + es.length < 2 ^ 64 →
    t.scrollOffset = s.scrollOffset + es.length

theorem Followed.of_sameLog {s t u : State} {es : List TuiLogEntry} (h : Followed s t es)
    (hsame : SameLog t u) : Followed s u es where
  auto := hsame.autoScroll.trans h.auto
  popped := hsame.popped.trans h.popped
  offset := fun hlt => hsame.scrollOffset.trans (h.offset hlt)

theorem Followed.keepEntry {s t : State} {es : List TuiLogEntry} (h : Followed s t es)
    (e : TuiLogEntry) : Followed s (t.keepEntry e) (es ++ [e]) where
  auto := h.auto
  popped := by
    show t.popped ++ [e] = s.popped ++ (es ++ [e])
    rw [h.popped, List.append_assoc]
  offset := by
    intro hsmall
    have hlt := hsmall.resolve_left (List.append_ne_nil_of_right_ne_nil es (List.cons_ne_nil e []))
    rw [List.length_append, List.length_singleton] at hlt ⊢
    show (if t.autoScroll then 0 else sizeWord (t.scrollOffset + 1)) = _
    rw [h.auto, h.offset (Or.inr (by omega))]
    exact Nat.mod_eq_of_lt (by omega)

theorem Followed.drainLog {s t : State} {es : List TuiLogEntry} (h : Followed s t es) :
    Followed s t.drainLog (es ++ t.logQueue) := by
  have hloop : ∀ (new : List TuiLogEntry) (es : List TuiLogEntry) (u : State),
      Followed s u es → Followed s (new.foldl State.keepEntry u) (es ++ new) := by
    intro new
    induction new with
    | nil =>
        intro es u hu
        rw [List.append_nil]
        exact hu
    | cons e new ih =>
        intro es u hu
        have hrest := ih _ _ (hu.keepEntry e)
        rw [List.append_assoc, List.singleton_append] at hrest
        exact hrest
  exact hloop t.logQueue es _ (h.of_sameLog ⟨rfl, rfl, rfl, rfl⟩)

/-- Calls without a key let a paused pane follow its messages. -/
theorem Followed.op {s t : State} {es : List TuiLogEntry} (h : Followed s t es) {o : Op}
    (ho : o.keyless = true) : ∃ es', Followed s (t.op o) es' := by
  cases o with
  | setLayoutName layoutIdx name => exact ⟨es, h.of_sameLog (sameLog_setLayoutName _ _ t)⟩
  | setGroup layoutIdx groupIdx labelHdr colHdrs =>
      exact ⟨es, h.of_sameLog (sameLog_setGroup _ _ _ _ t)⟩
  | setGroupNoHeader layoutIdx groupIdx =>
      exact ⟨es, h.of_sameLog (sameLog_setGroupNoHeader _ _ t)⟩
  | setRowCols layoutIdx groupIdx rowIdx label values =>
      exact ⟨es, h.of_sameLog (sameLog_updateRow _ _ _ _ t)⟩
  | setTextRow layoutIdx groupIdx rowIdx label text =>
      exact ⟨es, h.of_sameLog (sameLog_updateRow _ _ _ _ t)⟩
  | logV level text => exact ⟨es, h.of_sameLog (sameLog_logV _ _ t)⟩
  | popPendingKey => exact ⟨es, h.of_sameLog ⟨rfl, rfl, rfl, rfl⟩⟩
  | tick i =>
      have hkeys : i.keys = [] := List.isEmpty_iff.mp ho
      show ∃ es', Followed s (t.tick i) es'
      unfold State.tick
      split
      · refine ⟨es ++ t.logQueue, ?_⟩
        have hresize : SameLog t.drainLog (t.beforeRender i) := by
          unfold State.beforeRender
          rw [hkeys]
          exact ⟨rfl, rfl, rfl, rfl⟩
        have hfollowed := (h.drainLog).of_sameLog hresize
        exact hfollowed.of_sameLog (sameLog_updateLayout _ _ _)
      · exact ⟨es, h⟩
  | stop => exact ⟨es, h.of_sameLog ⟨rfl, rfl, rfl, rfl⟩⟩

theorem Followed.ops {s : State} (hauto : s.autoScroll = false) {rest : List Op}
    (hrest : ∀ o ∈ rest, o.keyless = true) : ∃ es, Followed s (s.ops rest) es := by
  have hrun : ∀ (rest : List Op) (t : State) (es : List TuiLogEntry), Followed s t es →
      (∀ o ∈ rest, o.keyless = true) → ∃ es', Followed s (t.ops rest) es' := by
    intro rest
    induction rest with
    | nil => exact fun t es h _ => ⟨es, h⟩
    | cons o rest ih =>
        intro t es h hkeyless
        rcases h.op (hkeyless o List.mem_cons_self) with ⟨es', h'⟩
        exact ih _ es' h' (fun o' ho' => hkeyless o' (List.mem_cons_of_mem o ho'))
  have hstart : Followed s s [] := ⟨hauto, (List.append_nil _).symm, fun _ => rfl⟩
  exact hrun rest s [] hstart hrest

/-! ## The offset is at most the number of messages -/

theorem clampOffset_le (s : State) : s.clampOffset.scrollOffset ≤ s.logHistory.count := by
  unfold State.clampOffset
  split
  · exact Nat.le_refl _
  · omega

theorem logHistory_scroll (b2 : UInt8) (len : Nat) (b3 : UInt8) (s : State) :
    (s.scroll b2 len b3).logHistory = s.logHistory ∧ (s.scroll b2 len b3).popped = s.popped := by
  unfold State.scroll
  grind

/-- The scroll offset does not pass the number of messages taken from the queue. -/
def OffsetBound (s : State) : Prop :=
  s.scrollOffset ≤ s.popped.length

theorem OffsetBound.of_sameLog {s t : State} (h : OffsetBound s) (hsame : SameLog s t) :
    OffsetBound t := by
  unfold OffsetBound
  rw [hsame.scrollOffset, hsame.popped]
  exact h

theorem OffsetBound.keepEntry {s : State} (h : OffsetBound s) (e : TuiLogEntry) :
    OffsetBound (s.keepEntry e) := by
  unfold OffsetBound at h ⊢
  show (if s.autoScroll then 0 else sizeWord (s.scrollOffset + 1)) ≤ (s.popped ++ [e]).length
  have hmod : sizeWord (s.scrollOffset + 1) ≤ s.scrollOffset + 1 := Nat.mod_le _ _
  rw [List.length_append, List.length_singleton]
  split
  · exact Nat.zero_le _
  · omega

theorem OffsetBound.drainLog {s : State} (h : OffsetBound s) : OffsetBound s.drainLog :=
  drainLog_keeps (fun _ e ht => ht.keepEntry e) (h.of_sameLog ⟨rfl, rfl, rfl, rfl⟩)

theorem OffsetBound.handleKey {s : State} (h : OffsetBound s) (hinv : PaneInv s) (buf : Bytes) :
    OffsetBound (s.handleKey buf) := by
  unfold State.handleKey
  split
  · exact h
  · rename_i c rest
    split
    · have hscroll := logHistory_scroll (rest.getD 1 0) (c :: rest).length (rest.getD 2 0) s
      have hclamp := clampOffset_le (s.scroll (rest.getD 1 0) (c :: rest).length (rest.getD 2 0))
      have hpopped : ((s.scroll (rest.getD 1 0) (c :: rest).length
          (rest.getD 2 0)).clampOffset).popped = s.popped := by
        unfold State.clampOffset
        split
        · exact hscroll.2
        · exact hscroll.2
      unfold OffsetBound
      rw [hpopped]
      rw [hscroll.1, hinv.count] at hclamp
      exact Nat.le_trans hclamp (Nat.min_le_right _ _)
    · split
      · exact h.of_sameLog ⟨rfl, rfl, rfl, rfl⟩
      · split
        · exact h.of_sameLog ⟨rfl, rfl, rfl, rfl⟩
        · exact h.of_sameLog ⟨rfl, rfl, rfl, rfl⟩

theorem OffsetBound.handleKeys {s : State} (h : OffsetBound s) (hinv : PaneInv s) (skip : Nat)
    (buf : Bytes) : OffsetBound (s.handleKeys skip buf) := by
  have hboth : OffsetBound (s.handleKeys skip buf) ∧ PaneInv (s.handleKeys skip buf) :=
    handleKeys_keeps (P := fun t => OffsetBound t ∧ PaneInv t)
      (fun _ buf ht => ⟨ht.1.handleKey ht.2 buf, ht.2.handleKey buf⟩) skip buf ⟨h, hinv⟩
  exact hboth.1

theorem OffsetBound.op {s : State} (h : OffsetBound s) (hinv : PaneInv s) (o : Op) :
    OffsetBound (s.op o) := by
  cases o with
  | setLayoutName layoutIdx name => exact h.of_sameLog (sameLog_setLayoutName _ _ s)
  | setGroup layoutIdx groupIdx labelHdr colHdrs =>
      exact h.of_sameLog (sameLog_setGroup _ _ _ _ s)
  | setGroupNoHeader layoutIdx groupIdx => exact h.of_sameLog (sameLog_setGroupNoHeader _ _ s)
  | setRowCols layoutIdx groupIdx rowIdx label values =>
      exact h.of_sameLog (sameLog_updateRow _ _ _ _ s)
  | setTextRow layoutIdx groupIdx rowIdx label text =>
      exact h.of_sameLog (sameLog_updateRow _ _ _ _ s)
  | logV level text => exact h.of_sameLog (sameLog_logV _ _ s)
  | popPendingKey => exact h.of_sameLog ⟨rfl, rfl, rfl, rfl⟩
  | tick i =>
      show OffsetBound (s.tick i)
      unfold State.tick
      split
      · have hkeys := (h.drainLog).handleKeys hinv.drainLog 0 (i.keys.take keyBufLen)
        have hresize : OffsetBound (s.beforeRender i) := hkeys.of_sameLog ⟨rfl, rfl, rfl, rfl⟩
        exact hresize.of_sameLog (sameLog_updateLayout _ _ _)
      · exact h
  | stop => exact h.of_sameLog ⟨rfl, rfl, rfl, rfl⟩

theorem offsetBound_ops (os : List Op) : OffsetBound (State.init.ops os) := by
  have hrun : ∀ (os : List Op) (s : State), PaneInv s → OffsetBound s →
      OffsetBound (s.ops os) := by
    intro os
    induction os with
    | nil => exact fun s _ h => h
    | cons o os ih => exact fun s hinv h => ih _ (hinv.op o) (h.op hinv o)
  exact hrun os State.init init_paneInv (Nat.le_refl 0)

/-! ## The pane does not move -/

/-- For every run that leaves the pane paused, every height of the pane and every
further calls without a key: a line that showed a message shows it still, as long as the
message on the first line is one of the last 2000. -/
theorem paused_view_still (os rest : List Op) {height : Int} (hheight : 3 ≤ height)
    (hpaused : (State.init.ops os).autoScroll = false)
    (hrest : ∀ o ∈ rest, o.keyless = true)
    (hkept : ((State.init.ops os).ops rest).popped.length ≤
      (State.init.ops os).firstShown height + 2000)
    (r : Nat) (e : TuiLogEntry)
    (hline : ((State.init.ops os).renderArea2 height)[r]? = some (some e)) :
    (((State.init.ops os).ops rest).renderArea2 height)[r]? = some (some e) := by
  have hinv : PaneInv (State.init.ops os) := init_paneInv.ops os
  have hbound := offsetBound_ops os
  generalize State.init.ops os = s at *
  have hinv' : PaneInv (s.ops rest) := hinv.ops rest
  rcases Followed.ops hpaused hrest with ⟨es, hfollowed⟩
  have hlen : (s.ops rest).popped.length = s.popped.length + es.length := by
    rw [hfollowed.popped, List.length_append]
  rw [hlen] at hkept
  have hoffset : (s.ops rest).scrollOffset = s.scrollOffset + es.length := by
    apply hfollowed.offset
    rcases Viewport.offset_bound hbound hkept with hzero | hsmall
    · exact Or.inl (List.eq_nil_of_length_eq_zero hzero)
    · have hkeep : 2 * logKeep < 2 ^ 64 := by decide
      exact Or.inr (Nat.lt_of_le_of_lt hsmall hkeep)
  have hfirst : (s.ops rest).firstShown height = s.firstShown height := by
    unfold State.firstShown
    rw [hoffset, hlen]
    exact Viewport.top_arrive hkept
  rw [line_shown_iff hinv hheight] at hline
  rw [line_shown_iff hinv' hheight, hlen, hfirst, hfollowed.popped]
  constructor
  · exact Nat.lt_of_lt_of_le hline.1 Viewport.shown_mono
  · rw [List.getElem?_append_left (List.getElem?_eq_some_iff.mp hline.2).1]
    exact hline.2

/-- Two messages and the up key, on a pane of one line. -/
def pausedPane : List Op :=
  [.logV .info [97], .logV .info [98], .tick { keys := [esc, key '[', key 'A'], winsize := none }]

/-- The pane shows the first message still when a third one arrives. -/
theorem paused_pane_still :
    (((State.init.ops pausedPane).ops [.logV .info [99], .tick idleKeys]).renderArea2 3)[0]? =
      some (some (tuiLogEntry .info [97])) :=
  paused_view_still pausedPane [.logV .info [99], .tick idleKeys] (by decide) (by decide)
    (by decide) (by decide) 0 (tuiLogEntry .info [97]) rfl

/-! ## The down key -/

/-- `ESC [ B`. -/
def downKey : Bytes :=
  [esc, key '[', key 'B']

/-- The down key lowers the offset by one and clamps it to the number of messages. -/
theorem scrollOffset_downKey (s : State) :
    (s.handleKeys 0 downKey).scrollOffset = min (s.scrollOffset - 1) s.logHistory.count ∧
      (s.handleKeys 0 downKey).logHistory = s.logHistory := by
  have hkeys : s.handleKeys 0 downKey =
      (s.scroll (key 'B') 3 0).clampOffset := rfl
  have hscroll : s.scroll (key 'B') 3 0 =
      { s with
        scrollOffset := s.scrollOffset - 1
        autoScroll := if s.scrollOffset - 1 = 0 then true else s.autoScroll } := rfl
  rw [hkeys, hscroll]
  unfold State.clampOffset
  dsimp only
  split
  · constructor
    · show s.logHistory.count = _
      omega
    · rfl
  · constructor
    · show s.scrollOffset - 1 = _
      omega
    · rfl

/-- For every reachable state without new messages and every height of the pane: when
the window does not end at the newest message, the down key makes it end one message
later exactly when the scroll offset was not above what the window is clamped to. -/
theorem down_scrolls_iff (os : List Op) {height : Int} (i : TickInput)
    (hrunning : (State.init.ops os).running = true)
    (hquiet : (State.init.ops os).logQueue = [])
    (hkeys : i.keys = downKey)
    (hbelow : (State.init.ops os).windowStop height < (State.init.ops os).logHistory.count) :
    ((State.init.ops os).tick i).windowStop height = (State.init.ops os).windowStop height + 1 ↔
      (State.init.ops os).scrollOffset ≤
        (State.init.ops os).logHistory.count - (height - 2).toNat := by
  generalize State.init.ops os = s at *
  have hdrain : s.drainLog = s := by
    unfold State.drainLog
    rw [hquiet]
    show { s with logQueue := [] } = s
    rw [← hquiet]
  have hbefore : s.beforeRender i =
      (s.handleKeys 0 downKey).resize (termGetSize i.winsize) := by
    unfold State.beforeRender
    rw [hdrain, hkeys]
    rfl
  have hdown := scrollOffset_downKey s
  have hoffset : (s.tick i).scrollOffset = min (s.scrollOffset - 1) s.logHistory.count := by
    unfold State.tick
    rw [if_pos hrunning, hbefore]
    exact hdown.1
  have hhistory : (s.tick i).logHistory = s.logHistory := by
    unfold State.tick
    rw [if_pos hrunning, hbefore]
    exact hdown.2
  rw [windowStop_eq, windowStop_eq] at *
  unfold State.windowEnd at *
  rw [hoffset, hhistory]
  omega

/-- The up key and then the down key, on a pane of one line. -/
theorem down_scrolls_paused_pane :
    ((State.init.ops pausedPane).tick { keys := downKey, winsize := none }).windowStop 3 =
        (State.init.ops pausedPane).windowStop 3 + 1 ↔
      (State.init.ops pausedPane).scrollOffset ≤
        (State.init.ops pausedPane).logHistory.count - 1 :=
  down_scrolls_iff pausedPane { keys := downKey, winsize := none } (by decide) (by decide) rfl
    (by decide)

/-- Two messages and the home key. -/
def paneAtHome : List Op :=
  [.logV .info [97], .logV .info [98], .tick { keys := [esc, key '[', key 'H'], winsize := none }]

/-- The first down key after the home key does not move the pane. -/
theorem down_after_home_stuck :
    ¬ ∀ (os : List Op) (height : Int) (i : TickInput), 3 ≤ height →
      (State.init.ops os).running = true → (State.init.ops os).logQueue = [] →
      i.keys = downKey →
      (State.init.ops os).windowStop height < (State.init.ops os).logHistory.count →
      ((State.init.ops os).tick i).windowStop height =
        (State.init.ops os).windowStop height + 1 := by
  intro h
  have hmoved := h paneAtHome 3 { keys := downKey, winsize := none } (by decide) (by decide)
    (by decide) rfl (by decide)
  exact absurd hmoved (by decide)

end RtTui
end Log
end DtCore
