import DtCore.Log.RtTui.Model

/-!
# The window of the log pane

The ring holds the latest messages that the drain loop has taken from the queue, and
`RenderArea2` shows a window of it that ends at the clamped scroll offset.  A pane that
scrolls by itself is not scrolled.

Main results:

- Theorem `PaneInv.op`: every call keeps the invariant.
- Theorem `renderArea2_eq`: the lines of the log pane are a window of the ring.
- Theorem `window_shown`: the log pane after any run.
-/

namespace DtCore
namespace Log
namespace RtTui

open Foundation RtLog

/-! ## The invariant -/

/-- A pane that scrolls by itself is at the bottom, and the ring holds the latest
messages. -/
structure PaneInv (s : State) : Prop where
  auto : s.autoScroll = true → s.scrollOffset = 0
  history : s.logHistory.toList = lastN logKeep s.popped

/-- The log members of two states agree. -/
structure SameLog (s t : State) : Prop where
  logHistory : t.logHistory = s.logHistory
  scrollOffset : t.scrollOffset = s.scrollOffset
  autoScroll : t.autoScroll = s.autoScroll
  popped : t.popped = s.popped

theorem PaneInv.of_sameLog {s t : State} (h : PaneInv s) (hsame : SameLog s t) : PaneInv t where
  auto := by
    rw [hsame.autoScroll, hsame.scrollOffset]
    exact h.auto
  history := by
    rw [hsame.logHistory, hsame.popped]
    exact h.history

theorem init_paneInv : PaneInv State.init where
  auto := fun _ => rfl
  history := rfl

/-! ## Calls that leave the log alone -/

theorem sameLog_updateLayout (i : Nat) (f : TuiLayoutData → TuiLayoutData) (s : State) :
    SameLog s (s.updateLayout i f) :=
  ⟨rfl, rfl, rfl, rfl⟩

theorem sameLog_setLayoutName (layoutIdx : Int) (name : Option Bytes) (s : State) :
    SameLog s (s.setLayoutName layoutIdx name) := by
  unfold State.setLayoutName
  split
  · exact ⟨rfl, rfl, rfl, rfl⟩
  · split
    · exact sameLog_updateLayout _ _ s
    · exact ⟨rfl, rfl, rfl, rfl⟩

theorem sameLog_setGroup (layoutIdx groupIdx : Int) (labelHdr : Bytes)
    (colHdrs : List (Option Bytes)) (s : State) :
    SameLog s (s.setGroup layoutIdx groupIdx labelHdr colHdrs) := by
  unfold State.setGroup
  split
  · exact sameLog_updateLayout _ _ s
  · exact ⟨rfl, rfl, rfl, rfl⟩

theorem sameLog_setGroupNoHeader (layoutIdx groupIdx : Int) (s : State) :
    SameLog s (s.setGroupNoHeader layoutIdx groupIdx) := by
  unfold State.setGroupNoHeader
  split
  · exact sameLog_updateLayout _ _ s
  · exact ⟨rfl, rfl, rfl, rfl⟩

theorem sameLog_updateRow (layoutIdx groupIdx rowIdx : Int) (f : TuiDataRow → TuiDataRow)
    (s : State) : SameLog s (s.updateRow layoutIdx groupIdx rowIdx f) := by
  unfold State.updateRow
  split
  · exact sameLog_updateLayout _ _ s
  · exact ⟨rfl, rfl, rfl, rfl⟩

theorem sameLog_logV (level : LogLevel) (text : Bytes) (s : State) :
    SameLog s (s.logV level text) := by
  unfold State.logV State.tryPush
  split
  · exact ⟨rfl, rfl, rfl, rfl⟩
  · exact ⟨rfl, rfl, rfl, rfl⟩

/-! ## The drain loop and the keys -/

theorem PaneInv.keepEntry {s : State} (h : PaneInv s) (e : TuiLogEntry) :
    PaneInv (s.keepEntry e) where
  auto := by
    intro hauto
    exact if_pos hauto
  history := by
    show (s.logHistory.push e).toList = lastN logKeep (s.popped ++ [e])
    rw [Ring.toList_push, h.history, lastN_lastN_append]

theorem PaneInv.drainLog {s : State} (h : PaneInv s) : PaneInv s.drainLog :=
  drainLog_keeps (fun _ e ht => ht.keepEntry e) (h.of_sameLog ⟨rfl, rfl, rfl, rfl⟩)

/-- The scroll keys go to the bottom whenever they switch the scrolling on. -/
theorem PaneInv.scroll {s : State} (h : PaneInv s) (b2 : UInt8) (len : Nat) (b3 : UInt8) :
    PaneInv (s.scroll b2 len b3) := by
  have hoff : ∀ offset, PaneInv { s with scrollOffset := offset, autoScroll := false } :=
    fun offset => ⟨fun hauto => absurd hauto Bool.false_ne_true, h.history⟩
  have hdown : ∀ offset, offset ≤ s.scrollOffset →
      PaneInv { s with
        scrollOffset := offset
        autoScroll := if offset = 0 then true else s.autoScroll } := by
    intro offset hle
    constructor
    · intro hauto
      show offset = 0
      by_contra hne
      have hzero := h.auto ((if_neg hne).symm.trans hauto)
      omega
    · exact h.history
  unfold State.scroll
  split
  · exact hoff _
  · split
    · exact hdown _ (Nat.sub_le _ _)
    · split
      · split
        · exact hoff _
        · exact h
      · split
        · split
          · apply hdown
            split
            · exact Nat.sub_le _ _
            · exact Nat.zero_le _
          · exact h
        · split
          · exact ⟨fun _ => rfl, h.history⟩
          · split
            · exact hoff _
            · exact h

theorem PaneInv.clampOffset {s : State} (h : PaneInv s) : PaneInv s.clampOffset := by
  unfold State.clampOffset
  split
  · rename_i hover
    constructor
    · intro hauto
      have hzero := h.auto hauto
      omega
    · exact h.history
  · exact h

theorem PaneInv.handleKey {s : State} (h : PaneInv s) (buf : Bytes) :
    PaneInv (s.handleKey buf) := by
  unfold State.handleKey
  split
  · exact h
  · split
    · exact (h.scroll _ _ _).clampOffset
    · split
      · exact h.of_sameLog ⟨rfl, rfl, rfl, rfl⟩
      · split
        · exact h.of_sameLog ⟨rfl, rfl, rfl, rfl⟩
        · exact h.of_sameLog ⟨rfl, rfl, rfl, rfl⟩

theorem PaneInv.handleKeys {s : State} (h : PaneInv s) (skip : Nat) (buf : Bytes) :
    PaneInv (s.handleKeys skip buf) :=
  handleKeys_keeps (fun _ buf ht => ht.handleKey buf) skip buf h

theorem PaneInv.tick {s : State} (h : PaneInv s) (i : TickInput) : PaneInv (s.tick i) := by
  unfold State.tick
  split
  · have hkeys := (h.drainLog).handleKeys 0 (i.keys.take keyBufLen)
    have hresize : PaneInv (s.beforeRender i) := hkeys.of_sameLog ⟨rfl, rfl, rfl, rfl⟩
    exact hresize.of_sameLog (sameLog_updateLayout _ _ _)
  · exact h

/-- Every call keeps the invariant. -/
theorem PaneInv.op {s : State} (h : PaneInv s) (o : Op) : PaneInv (s.op o) := by
  cases o with
  | setLayoutName layoutIdx name => exact h.of_sameLog (sameLog_setLayoutName _ _ s)
  | setGroup layoutIdx groupIdx labelHdr colHdrs =>
      exact h.of_sameLog (sameLog_setGroup _ _ _ _ s)
  | setGroupNoHeader layoutIdx groupIdx => exact h.of_sameLog (sameLog_setGroupNoHeader _ _ s)
  | setRowCols layoutIdx groupIdx rowIdx label values =>
      exact h.of_sameLog (sameLog_updateRow _ _ _ _ s)
  | setTextRow layoutIdx groupIdx rowIdx label text =>
      exact h.of_sameLog (sameLog_updateRow _ _ _ _ s)
  | logV level text => exact h.of_sameLog (sameLog_logV _ _ s)
  | popPendingKey => exact h.of_sameLog ⟨rfl, rfl, rfl, rfl⟩
  | tick i => exact h.tick i
  | stop => exact h.of_sameLog ⟨rfl, rfl, rfl, rfl⟩

theorem PaneInv.ops {s : State} (h : PaneInv s) (os : List Op) : PaneInv (s.ops os) := by
  induction os generalizing s with
  | nil => exact h
  | cons o os ih => exact ih (h.op o)

/-! ## The lines that are shown -/

/-- Where the window of the log pane ends. -/
def State.windowEnd (visibleH : Nat) (s : State) : Nat :=
  s.logHistory.count - min s.scrollOffset (s.logHistory.count - visibleH)

/-- The window has as many messages as fit and ends where the offset says. -/
theorem area2Window_eq (visibleH : Nat) (s : State) :
    s.area2Window visibleH =
      (s.windowEnd visibleH - min visibleH s.logHistory.count,
        min visibleH s.logHistory.count) := by
  have hmax : (if s.logHistory.count > visibleH then s.logHistory.count - visibleH else 0) =
      s.logHistory.count - visibleH := by
    split
    · rfl
    · omega
  have hoffset : (if s.scrollOffset > s.logHistory.count - visibleH then
      s.logHistory.count - visibleH else s.scrollOffset) =
        min s.scrollOffset (s.logHistory.count - visibleH) := by
    split <;> omega
  unfold State.area2Window State.windowEnd
  simp only [hmax, hoffset]
  generalize hend : s.logHistory.count - min s.scrollOffset (s.logHistory.count - visibleH) = e
  split
  · apply Prod.ext
    · show e - visibleH = e - min visibleH s.logHistory.count
      omega
    · show e - (e - visibleH) = min visibleH s.logHistory.count
      omega
  · apply Prod.ext
    · show 0 = e - min visibleH s.logHistory.count
      omega
    · show e - 0 = min visibleH s.logHistory.count
      omega

theorem windowEnd_le (visibleH : Nat) (s : State) :
    s.windowEnd visibleH ≤ s.logHistory.count :=
  Nat.sub_le _ _

theorem le_windowEnd (visibleH : Nat) (s : State) :
    min visibleH s.logHistory.count ≤ s.windowEnd visibleH := by
  unfold State.windowEnd
  omega

/-- A list of lines whose first `k` are filled. -/
theorem map_range_fill {α : Type} (f : Nat → α) {k v : Nat} (h : k ≤ v) :
    (List.range v).map (fun r => if r < k then some (f r) else none) =
      ((List.range k).map f).map some ++ List.replicate (v - k) none := by
  apply List.ext_getElem
  · simp only [List.length_map, List.length_range, List.length_append, List.length_replicate]
    omega
  · intro i hi hi'
    by_cases hik : i < k
    · simp [List.getElem_append_left, hik]
    · have hlen : (((List.range k).map f).map some).length ≤ i := by
        rw [List.length_map, List.length_map, List.length_range]
        exact Nat.not_lt.mp hik
      rw [List.getElem_append_right hlen]
      simp [hik]

/-- The log pane shows a window of the ring. -/
theorem renderArea2_eq {height : Int} (h : 3 ≤ height) (s : State) :
    let v := (height - 2).toNat
    let k := min v s.logHistory.count
    s.renderArea2 height =
      ((s.logHistory.toList.drop (s.windowEnd v - k)).take k).map some ++
        List.replicate (v - k) none := by
  intro v k
  have hlt : ¬ height < 3 := by omega
  have hk : k ≤ v := Nat.min_le_left _ _
  have hend := windowEnd_le v s
  have hstart : k ≤ s.windowEnd v := le_windowEnd v s
  have hin : s.windowEnd v - k + k ≤ s.logHistory.count := by omega
  unfold State.renderArea2
  rw [if_neg hlt]
  simp only
  rw [area2Window_eq]
  show (List.range v).map (fun r =>
      if r < k then some (s.logHistory.get (s.windowEnd v - k + r)) else none) = _
  rw [map_range_fill (fun r => s.logHistory.get (s.windowEnd v - k + r)) hk,
    Ring.map_get_range _ hin]

/-- The end of a nonempty ring is the newest message. -/
theorem getLast?_lastN {α : Type} {n : Nat} (h : 0 < n) (l : List α) :
    (lastN n l).getLast? = l.getLast? := by
  rw [lastN, List.getLast?_drop]
  split
  · rename_i hle
    have hnil : l = [] := by
      apply List.length_eq_zero_iff.mp
      omega
    rw [hnil]
    rfl
  · rfl

/-- For every run of the user interface: a pane that scrolls by itself has offset zero,
the ring holds the last messages that were popped, in their order, and on `height`
lines `RenderArea2` only reads stored messages and shows the window of them that ends
at the clamped offset; without an offset the last of its lines is the newest message. -/
theorem window_shown (os : List Op) :
    let s := State.init.ops os
    (s.autoScroll = true → s.scrollOffset = 0) ∧
      s.logHistory.toList = lastN 2000 s.popped ∧
      s.logHistory.count = min 2000 s.popped.length ∧
      ∀ height : Int, 3 ≤ height →
        let v := (height - 2).toNat
        let count := s.logHistory.count
        let k := min v count
        let stop := count - min s.scrollOffset (count - v)
        (∀ r < (s.area2Window v).2, (s.area2Window v).1 + r < count) ∧
        s.renderArea2 height =
          ((s.logHistory.toList.drop (stop - k)).take k).map some ++
            List.replicate (v - k) none ∧
        (s.autoScroll = true → ∀ e, s.popped.getLast? = some e →
          (s.renderArea2 height)[k - 1]? = some (some e)) := by
  intro s
  have hinv : PaneInv s := init_paneInv.ops os
  have hcount : s.logHistory.count = min 2000 s.popped.length := by
    rw [← Ring.length_toList, hinv.history, length_lastN]
    rfl
  constructor
  · exact hinv.auto
  · constructor
    · exact hinv.history
    · constructor
      · exact hcount
      · intro height hheight v count k stop
        have hrender := renderArea2_eq hheight s
        constructor
        · intro r hr
          rw [area2Window_eq] at hr ⊢
          have hend := windowEnd_le v s
          have hstart := le_windowEnd v s
          show s.windowEnd v - min v s.logHistory.count + r < s.logHistory.count
          have hr' : r < min v s.logHistory.count := hr
          omega
        · constructor
          · exact hrender
          · intro hauto e he
            have hzero := hinv.auto hauto
            have hpos : 0 < s.popped.length := by
              cases hpopped : s.popped with
              | nil =>
                  rw [hpopped] at he
                  contradiction
              | cons a l => exact Nat.succ_pos _
            have hk : 0 < k := by
              show 0 < min (height - 2).toNat s.logHistory.count
              omega
            have hstop : stop = count := by
              show s.logHistory.count - min s.scrollOffset _ = s.logHistory.count
              rw [hzero, Nat.zero_min, Nat.sub_zero]
            have hlast : s.logHistory.toList.getLast? = some e := by
              rw [hinv.history, getLast?_lastN (by decide), he]
            have hkc : k ≤ count := Nat.min_le_right _ _
            have hlen : s.logHistory.toList.length = count := Ring.length_toList _
            have hline : ((s.logHistory.toList.drop (stop - k)).take k)[k - 1]? = some e := by
              rw [List.getElem?_take_of_lt (by omega), List.getElem?_drop, hstop,
                ← hlast, List.getLast?_eq_getElem?, hlen]
              congr 1
              omega
            have hin : k - 1 <
                (((s.logHistory.toList.drop (stop - k)).take k).map some).length := by
              rw [List.length_map, List.length_take, List.length_drop, hlen]
              omega
            rw [hrender]
            show (((s.logHistory.toList.drop (stop - k)).take k).map some ++
              List.replicate (v - k) none)[k - 1]? = some (some e)
            rw [List.getElem?_append_left hin, List.getElem?_map, hline]
            rfl

end RtTui
end Log
end DtCore
