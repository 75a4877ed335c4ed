import DtCore.Log.RtTui.Draws

/-!
# The arrays along every run

From the constructor on every sequence of calls stays in the arrays.  It draws the frames of the
model without arrays, and what that model says about its states holds of the memory.

Main definitions:

- `State.InRange`: the stored strings end in their arrays and the current layout is one.
- `framesOf`: the frames of the model without arrays.

Main results:

- Theorem `run_refines`: a run over the arrays and the run of the model without arrays.
- Theorem `run_in_range`: every run has a result, which is in range.
-/

namespace DtCore
namespace Log
namespace RtTui
namespace Memory

open Foundation RtLog

/-! ## The calls of the model without arrays -/

/-- A call with the strings at its pointers. -/
def Op.plain : Op → RtTui.Op
  | .setLayoutName layoutIdx name => .setLayoutName layoutIdx (name.map stringAt)
  | .setGroup layoutIdx groupIdx labelHdr colHdrs ncols =>
      .setGroup layoutIdx groupIdx (stringAt labelHdr) (headersOf colHdrs ncols)
  | .setGroupNoHeader layoutIdx groupIdx => .setGroupNoHeader layoutIdx groupIdx
  | .setRowFmt layoutIdx groupIdx rowIdx label values =>
      .setRowCols layoutIdx groupIdx rowIdx (stringAt label) (values.map stringAt)
  | .setRowCols layoutIdx groupIdx rowIdx label values =>
      .setRowCols layoutIdx groupIdx rowIdx (stringAt label) (values.map stringAt)
  | .setTextRow layoutIdx groupIdx rowIdx label text =>
      .setTextRow layoutIdx groupIdx rowIdx (stringAt label) (stringAt text)
  | .logV level text => .logV level (stringAt text)
  | .popPendingKey => .popPendingKey
  | .tick i => .tick i
  | .stop => .stop

/-- The frame of a call. -/
def frameOf (t : RtTui.State) : RtTui.Op → List (List (Int × Drawn))
  | .tick i => if t.running then [t.frame i] else []
  | _ => []

/-- The frames of a sequence of calls. -/
def framesOf (t : RtTui.State) : List RtTui.Op → List (List (Int × Drawn))
  | [] => []
  | o :: os => frameOf t o ++ framesOf (t.op o) os

/-! ## Runs -/

/-- A call has a result: the state and the frames of the other model, and switchers that fit
their buffer. -/
def Follows (t : RtTui.State) (drawn : List (List (Int × Drawn))) (p : State × List Frame) :
    Prop :=
  p.1.Holds t ∧ List.Forall₂ Frame.Draws p.2 drawn ∧ ∀ f ∈ p.2, f.cmdLine.swPos < switcherLen

/-- A call that draws nothing. -/
theorem follows_silent {t : RtTui.State} {o : Option State}
    (h : Ensures (fun s => s.Holds t) o) :
    Ensures (Follows t []) (o.map (fun s => (s, []))) :=
  h.map (fun _ hs => ⟨hs, List.Forall₂.nil, fun _ hf => absurd hf List.not_mem_nil⟩)

theorem op_follows {s : State} {t : RtTui.State} (h : s.Holds t) (o : Op) :
    Ensures (Follows (t.op o.plain) (frameOf t o.plain)) (s.op o) := by
  cases o with
  | setLayoutName layoutIdx name => exact follows_silent (holds_setLayoutName h layoutIdx name)
  | setGroup layoutIdx groupIdx labelHdr colHdrs ncols =>
      exact follows_silent (holds_setGroup h layoutIdx groupIdx labelHdr colHdrs ncols)
  | setGroupNoHeader layoutIdx groupIdx =>
      exact follows_silent (holds_setGroupNoHeader h layoutIdx groupIdx)
  | setRowFmt layoutIdx groupIdx rowIdx label values =>
      exact follows_silent (holds_setRowFmt h layoutIdx groupIdx rowIdx label values)
  | setRowCols layoutIdx groupIdx rowIdx label values =>
      exact follows_silent (holds_setRowCols h layoutIdx groupIdx rowIdx label values)
  | setTextRow layoutIdx groupIdx rowIdx label text =>
      exact follows_silent (holds_setTextRow h layoutIdx groupIdx rowIdx label text)
  | logV level text => exact follows_silent (holds_logV h level text)
  | popPendingKey =>
      have hkey : s.popPendingKey.Holds t.popPendingKey.2 := { h with lastKey := rfl }
      exact follows_silent (ensures_some hkey)
  | tick i => exact holds_tick h i
  | stop =>
      have hstop : s.stop.Holds t.stop := { h with running := rfl }
      exact follows_silent (ensures_some hstop)

theorem ops_follow {s : State} {t : RtTui.State} (h : s.Holds t) (os : List Op) :
    Ensures (Follows (t.ops (os.map Op.plain)) (framesOf t (os.map Op.plain))) (s.ops os) := by
  induction os generalizing s t with
  | nil => exact follows_silent (ensures_some h)
  | cons o os ih =>
      refine (op_follows h o).bind (fun first hfirst => ?_)
      refine (ih hfirst.1).bind (fun rest hrest => ensures_some ⟨hrest.1, ?_, ?_⟩)
      · exact List.rel_append hfirst.2.1 hrest.2.1
      · intro f hf
        exact (List.mem_append.mp hf).elim (hfirst.2.2 f) (hrest.2.2 f)

/-! ## The constructor -/

theorem holds_row_initial : TuiDataRow.initial.Holds RtTui.TuiDataRow.initial where
  label := Block.string_fill (by decide)
  col := Block.holds_fill (fun _ _ => Block.string_fill (by decide))
  ncols := rfl
  textMode := rfl
  text := Block.string_fill (by decide)

theorem holds_buffer_initial : TuiDataBuffer.initial.Holds RtTui.TuiDataBuffer.initial where
  groups := Block.holds_fill (fun _ _ =>
    { rows := Block.holds_fill (fun _ _ => holds_row_initial)
      nrows := rfl
      nrows_le := Nat.zero_le _ })
  dirty := rfl

theorem holds_header_initial : TuiGroupHeader.initial.Holds RtTui.TuiGroupHeader.initial where
  label := Block.string_fill (by decide)
  cols := Block.holds_fill (fun _ _ => Block.string_fill (by decide))
  ncols := rfl
  active := rfl
  hideHeader := rfl

/-- A layout in front of the loop of the constructor. -/
def namelessLayout : RtTui.TuiLayoutData where
  name := []
  groupHeaders := fun _ => RtTui.TuiGroupHeader.initial
  dataBuf := fun _ => RtTui.TuiDataBuffer.initial
  dataWriteIdx := false
  defined := false

theorem holds_layout_initial : TuiLayoutData.initial.Holds namelessLayout where
  name := Block.string_fill (by decide)
  groupHeaders := Block.holds_fill (fun _ _ => holds_header_initial)
  dataBuf := Block.holds_fill (fun _ _ => holds_buffer_initial)
  dataWriteIdx := rfl
  defined := rfl

/-- The default names fit their arrays. -/
theorem truncate_defaultName : ∀ i < maxLayouts,
    truncateTo layoutNameLen (stringAt (ascii "Layout " ++ ascii (toString (i + 1)))) =
      ascii "Layout " ++ ascii (toString (i + 1)) := by
  decide

theorem holds_construct :
    Ensures (fun s => s.initialize.Holds RtTui.State.init) State.construct := by
  have hblank : (Block.fill TuiLayoutData.initial : Block TuiLayoutData maxLayouts).Holds
      TuiLayoutData.Holds (fun _ => namelessLayout) :=
    Block.holds_fill (fun _ _ => holds_layout_initial)
  have hnamed := hblank.forRange (c := fun i layout => do
      let name ← layout.name.printIn 0 layoutNameLen
        (ascii "Layout " ++ ascii (toString (i.toNat + 1)))
      some { layout with name := name }) (g := RtTui.State.init.layouts) 0 maxLayouts
    (Nat.zero_le _) (Nat.le_refl _) (fun i _ hi layout hl => by
      refine (hasText_printIn layout.name (by decide) _).bind (fun name hname => ensures_some ?_)
      rw [Int.toNat_natCast, truncate_defaultName i hi] at hname
      exact { hl with name := hname })
  unfold State.construct
  refine hnamed.bind (fun layouts hlayouts => ensures_some ?_)
  exact
    { logQueue := List.Forall₂.nil
      layouts := hlayouts.congr (fun i hi => if_pos ⟨Nat.zero_le _, hi⟩)
      currentLayout := rfl
      currentLayout_lt := by decide
      layoutChanged := rfl
      logHistory := Block.holds_fill (fun _ _ => Block.string_fill (by decide))
      logHead := rfl
      logCount := rfl
      scrollOffset := rfl
      autoScroll := rfl
      lastKey := rfl
      running := rfl
      termRows := rfl
      termCols := rfl
      prevTermRows := rfl
      prevTermCols := rfl }

/-- The arrays refine the model without them: a run has a result, its frames are the frames of
that model, and its state holds what the state of that model says. -/
theorem run_refines (os : List Op) :
    Ensures (Follows (RtTui.State.init.ops (os.map Op.plain))
        (framesOf RtTui.State.init (os.map Op.plain)))
      (State.run os) :=
  holds_construct.bind (fun _ hs => ops_follow hs os)

/-! ## In range -/

/-- The array holds a null byte. -/
def Terminated {size : Nat} (b : Chars size) : Prop :=
  0 ∈ b.cells

structure TuiDataRow.Terminated (dr : TuiDataRow) : Prop where
  label : Memory.Terminated dr.label
  col : ∀ col ∈ dr.col.cells, Memory.Terminated col
  text : Memory.Terminated dr.text

structure TuiGroupHeader.Terminated (gh : TuiGroupHeader) : Prop where
  label : Memory.Terminated gh.label
  cols : ∀ col ∈ gh.cols.cells, Memory.Terminated col

structure TuiLayoutData.Terminated (layout : TuiLayoutData) : Prop where
  name : Memory.Terminated layout.name
  groupHeaders : ∀ gh ∈ layout.groupHeaders.cells, gh.Terminated
  rows : ∀ dbuf ∈ layout.dataBuf.cells, ∀ gdata ∈ dbuf.groups.cells, ∀ dr ∈ gdata.rows.cells,
    dr.Terminated

/-- Every stored string ends in its array, and the current layout is one of the layouts. -/
structure State.InRange (s : State) : Prop where
  layouts : ∀ layout ∈ s.layouts.cells, layout.Terminated
  logQueue : ∀ e ∈ s.logQueue, Terminated e.msg
  logHistory : ∀ e ∈ s.logHistory.cells, Terminated e.msg
  currentLayout : 0 ≤ s.currentLayout ∧ s.currentLayout ≤ maxLayouts - 1

theorem terminated_of_hasText {size : Nat} {b : Chars size} {text : Bytes}
    (h : HasText b text) : Terminated b :=
  Block.zero_mem_of_string h

theorem terminated_cells {size n : Nat} {cols : Block (Chars size) n} {f : Nat → Bytes}
    (h : cols.Holds HasText f) : ∀ col ∈ cols.cells, Terminated col := by
  intro col hcol
  rcases h.of_mem hcol with ⟨text, htext⟩
  exact terminated_of_hasText htext

theorem terminated_row {dr : TuiDataRow} {row : RtTui.TuiDataRow} (h : dr.Holds row) :
    dr.Terminated where
  label := terminated_of_hasText h.label
  col := terminated_cells h.col
  text := terminated_of_hasText h.text

theorem terminated_header {gh : TuiGroupHeader} {header : RtTui.TuiGroupHeader}
    (h : gh.Holds header) : gh.Terminated where
  label := terminated_of_hasText h.label
  cols := terminated_cells h.cols

theorem terminated_layout {layout : TuiLayoutData} {l : RtTui.TuiLayoutData}
    (h : layout.Holds l) : layout.Terminated where
  name := terminated_of_hasText h.name
  groupHeaders := by
    intro gh hgh
    rcases h.groupHeaders.of_mem hgh with ⟨header, hheader⟩
    exact terminated_header hheader
  rows := by
    intro dbuf hdbuf gdata hgdata dr hdr
    rcases h.dataBuf.of_mem hdbuf with ⟨buf, hbuf⟩
    rcases hbuf.groups.of_mem hgdata with ⟨group, hgroup⟩
    rcases hgroup.rows.of_mem hdr with ⟨row, hrow⟩
    exact terminated_row hrow

/-- What the members hold is in range. -/
theorem State.Holds.inRange {s : State} {t : RtTui.State} (h : s.Holds t) : s.InRange where
  layouts := by
    intro layout hlayout
    rcases h.layouts.of_mem hlayout with ⟨l, hl⟩
    exact terminated_layout hl
  logQueue := by
    intro e he
    rcases List.forall₂_iff_get.mp h.logQueue with ⟨hlen, hget⟩
    rcases List.mem_iff_getElem.mp he with ⟨i, hi, rfl⟩
    exact terminated_of_hasText (hget i hi (hlen ▸ hi))
  logHistory := by
    intro e he
    rcases h.logHistory.of_mem he with ⟨entry, hentry⟩
    exact terminated_of_hasText hentry
  currentLayout := by
    have hlt := h.currentLayout_lt
    rw [h.currentLayout]
    omega

/-- No sequence of calls leaves an array: with any indices, numbers of columns, strings, keys
and terminal sizes every call has a result, the stored strings end in their arrays, the current
layout is one of the layouts, and the switcher of every frame fits its buffer. -/
theorem run_in_range (os : List Op) :
    ∃ s frames, State.run os = some (s, frames) ∧ s.InRange ∧
      ∀ f ∈ frames, f.cmdLine.swPos < switcherLen := by
  rcases run_refines os with ⟨p, hrun, hholds, _, hswitcher⟩
  exact ⟨p.1, p.2, hrun, hholds.inRange, hswitcher⟩

end Memory
end RtTui
end Log
end DtCore
