import DtCore.Log.RtTui.Holds

/-!
# A Tick over the arrays

A `Tick` keeps what the arrays hold: it drains the queue, handles the keys and swaps the
buffers like the model without arrays, and draws the frame of that model.

Main results:

- Theorem `holds_handleKeys`: the keys.
- Theorem `holds_renderArea1`: Area 1.
- Theorem `switcher_eq`: the switcher of the command line fits its buffer.
- Theorem `holds_tick`: a whole `Tick`.
-/

namespace DtCore
namespace Log
namespace RtTui
namespace Memory

open Foundation RtLog

/-! ## The log -/

theorem holds_logV {s : State} {t : RtTui.State} (h : s.Holds t) (level : LogLevel)
    (text : Bytes) :
    Ensures (fun s' => s'.Holds (t.logV level (stringAt text))) (s.logV level text) := by
  unfold State.logV
  refine (hasText_printIn (uninitialized : Chars queueMsgLen) (by decide) text).bind
    (fun msg hmsg => ?_)
  have hlen := h.logQueue.length_eq
  unfold RtTui.State.logV RtTui.State.tryPush
  rw [hlen]
  split
  · refine ensures_some ?_
    have hone : List.Forall₂ TuiLogEntry.Holds [{ level := level, msg := msg }]
        [tuiLogEntry level (stringAt text)] := List.Forall₂.cons hmsg List.Forall₂.nil
    exact { h with logQueue := List.rel_append h.logQueue hone }
  · exact ensures_some h

/-- A pass of the drain loop is a push. -/
theorem holds_keepEntry {s : State} {t : RtTui.State} (h : s.Holds t) {e : TuiLogEntry}
    {entry : RtTui.TuiLogEntry} (he : e.Holds entry) :
    Ensures (fun s' => s'.Holds (t.keepEntry entry)) (s.keepEntry e) := by
  have hhead := t.logHistory.head_lt
  have hscroll : (if s.autoScroll then 0 else sizeWord (s.scrollOffset + 1)) =
      if t.autoScroll then 0 else sizeWord (t.scrollOffset + 1) := by
    rw [h.autoScroll, h.scrollOffset]
  unfold State.keepEntry RtTui.State.keepEntry Ring.push
  dsimp only
  rw [h.logCount, h.logHead]
  by_cases hlt : t.logHistory.count < logKeep
  · have hmod : (t.logHistory.head + t.logHistory.count) % logKeep < logKeep :=
      Nat.mod_lt _ (by decide)
    rw [if_pos hlt, dif_pos hlt]
    refine (h.logHistory.set (by omega) (by omega) he).map (fun cells hcells => ?_)
    rw [Int.toNat_natCast] at hcells
    exact
      { h with
        logHistory := hcells
        logHead := rfl
        logCount := rfl
        scrollOffset := hscroll }
  · rw [if_neg hlt, dif_neg hlt]
    refine (h.logHistory.set (by omega) (by omega) he).map (fun cells hcells => ?_)
    rw [Int.toNat_natCast] at hcells
    exact
      { h with
        logHistory := hcells
        logHead := rfl
        logCount := rfl
        scrollOffset := hscroll }

theorem holds_keepEntries {es : List TuiLogEntry} {entries : List RtTui.TuiLogEntry}
    (hes : List.Forall₂ TuiLogEntry.Holds es entries) {s : State} {t : RtTui.State}
    (h : s.Holds t) :
    Ensures (fun s' => s'.Holds (entries.foldl RtTui.State.keepEntry t))
      (State.keepEntries es s) := by
  induction hes generalizing s t with
  | nil => exact ensures_some h
  | cons he _ ih => exact (holds_keepEntry h he).bind (fun s' hs' => ih hs')

theorem holds_drainLog {s : State} {t : RtTui.State} (h : s.Holds t) :
    Ensures (fun s' => s'.Holds t.drainLog) s.drainLog :=
  holds_keepEntries h.logQueue { h with logQueue := List.Forall₂.nil }

/-! ## Keys -/

theorem holds_scroll {s : State} {t : RtTui.State} (h : s.Holds t) (b2 : UInt8) (len : Nat)
    (b3 : UInt8) : (s.scroll b2 len b3).Holds (t.scroll b2 len b3) := by
  have hpage : s.page = t.page := by
    unfold State.page RtTui.State.page
    rw [h.termRows]
  unfold State.scroll RtTui.State.scroll
  dsimp only
  rw [hpage, h.scrollOffset, h.autoScroll, h.logCount]
  split_ifs
  all_goals first
    | exact h
    | exact { h with logCount := rfl, scrollOffset := rfl, autoScroll := rfl }

theorem holds_clampOffset {s : State} {t : RtTui.State} (h : s.Holds t) :
    s.clampOffset.Holds t.clampOffset := by
  unfold State.clampOffset RtTui.State.clampOffset
  rw [h.scrollOffset, h.logCount]
  split
  · exact { h with logCount := rfl, scrollOffset := rfl }
  · exact h

/-- The loop of `[` finds the first layout that is not defined. -/
theorem find_undefined {s : State} {t : RtTui.State} (h : s.Holds t) :
    forWhile 0 maxLayouts Option.isNone (fun i _ =>
        (s.layouts.get i).map (fun layout => if layout.defined then none else some i)) none =
      some (((List.range maxLayouts).find? (fun i => !(t.layouts i).defined)).map
        (fun i : Nat => (i : Int))) := by
  have hloop : Ensures (fun found => found =
        ((List.range (maxLayouts : Int).toNat).find? (fun i => !(t.layouts i).defined)).map
          (fun i : Nat => (i : Int)))
      (forWhile 0 maxLayouts Option.isNone (fun i _ =>
        (s.layouts.get i).map (fun layout => if layout.defined then none else some i))
        none) := by
    refine forWhile_ensures (I := fun (i : Int) found => found =
      ((List.range i.toNat).find? (fun j => !(t.layouts j).defined)).map
        (fun j : Nat => (j : Int))) (by decide) rfl ?_ ?_
    · intro i found h0 hi hcond hfound
      have hnext : (i + 1).toNat = i.toNat + 1 := by omega
      have hbefore : (List.range i.toNat).find? (fun j => !(t.layouts j).defined) = none := by
        rw [hfound, Option.isNone_map] at hcond
        exact Option.isNone_iff_eq_none.mp hcond
      refine (h.layouts.get h0 hi).map (fun layout hl => ?_)
      rw [hnext, List.range_succ, List.find?_append, hbefore, hl.defined]
      cases hdef : (t.layouts i.toNat).defined with
      | true => simp [hdef]
      | false => simp [hdef, h0]
    · intro i found h0 hi hcond hfound
      have hnext : (i + 1).toNat = i.toNat + 1 := by omega
      rw [hnext, List.range_succ, List.find?_append]
      cases hbefore : (List.range i.toNat).find? (fun j => !(t.layouts j).defined) with
      | none =>
          rw [hfound, hbefore] at hcond
          contradiction
      | some j =>
          rw [hfound, hbefore]
          rfl
  rcases hloop with ⟨found, hres, hfound⟩
  rw [hres, hfound, Int.toNat_natCast]

theorem previousLayout_eq {s : State} {t : RtTui.State} (h : s.Holds t) :
    s.previousLayout = some (t.previousLayout : Int) := by
  have hcurrent : s.currentLayout = 0 ↔ t.currentLayout = 0 := by
    rw [h.currentLayout]
    omega
  unfold State.previousLayout RtTui.State.previousLayout
  by_cases hzero : t.currentLayout = 0
  · rw [if_pos (hcurrent.mpr hzero), if_pos hzero, find_undefined h]
    show some _ = some _
    cases (List.range maxLayouts).find? (fun i => !(t.layouts i).defined) with
    | none => rfl
    | some i => rfl
  · rw [if_neg (fun hz => hzero (hcurrent.mp hz)), if_neg hzero, h.currentLayout]
    congr 1
    omega

theorem previousLayout_lt {t : RtTui.State} (h : t.currentLayout < maxLayouts) :
    t.previousLayout < maxLayouts := by
  unfold RtTui.State.previousLayout
  split
  · cases hfind : (List.range maxLayouts).find? (fun i => !(t.layouts i).defined) with
    | none => decide
    | some i => exact List.mem_range.mp (List.mem_of_find?_eq_some hfind)
  · omega

theorem nextLayout_eq {s : State} {t : RtTui.State} (h : s.Holds t) :
    s.nextLayout = some (t.nextLayout : Int) := by
  have hlt := h.currentLayout_lt
  have hlast : s.currentLayout = maxLayouts - 1 ↔ t.currentLayout = maxLayouts - 1 := by
    rw [h.currentLayout]
    have hmax : maxLayouts = 9 := rfl
    omega
  unfold State.nextLayout RtTui.State.nextLayout
  by_cases hend : t.currentLayout = maxLayouts - 1
  · rw [if_pos (hlast.mpr hend), if_pos (Or.inl hend)]
    rfl
  · rw [if_neg (fun he => hend (hlast.mp he))]
    have hget : Ensures (fun layout : TuiLayoutData =>
        layout.Holds (t.layouts t.currentLayout)) (s.layouts.get s.currentLayout) := by
      rw [h.currentLayout]
      exact h.layouts.get (by omega) (by omega)
    rcases hget with ⟨layout, hres, hl⟩
    rw [hres, Option.map_some, hl.defined, h.currentLayout]
    by_cases hdef : (t.layouts t.currentLayout).defined = false
    · rw [if_pos hdef, if_pos (Or.inr hdef)]
      rfl
    · rw [if_neg hdef, if_neg (fun hor => hor.elim hend hdef)]
      rfl

theorem nextLayout_lt {t : RtTui.State} (h : t.currentLayout < maxLayouts) :
    t.nextLayout < maxLayouts := by
  unfold RtTui.State.nextLayout
  split
  · decide
  · omega

theorem holds_showLayout {s : State} {t : RtTui.State} (h : s.Holds t) {i : Nat}
    (hi : i < maxLayouts) : (s.showLayout i).Holds (t.showLayout i) := by
  have hchanged : (if s.currentLayout = i then s.layoutChanged else true) =
      if t.currentLayout = i then t.layoutChanged else true := by
    rw [h.currentLayout, h.layoutChanged]
    by_cases heq : t.currentLayout = i
    · rw [if_pos heq, if_pos (by omega)]
    · rw [if_neg heq, if_neg (by omega)]
  exact { h with currentLayout := rfl, currentLayout_lt := hi, layoutChanged := hchanged }

theorem holds_handleKey {s : State} {t : RtTui.State} (h : s.Holds t) (buf : Bytes) :
    Ensures (fun s' => s'.Holds (t.handleKey buf)) (s.handleKey buf) := by
  unfold State.handleKey RtTui.State.handleKey
  cases buf with
  | nil => exact ensures_some h
  | cons c rest =>
      dsimp only
      split
      · exact ensures_some (holds_clampOffset (holds_scroll h _ _ _))
      · split
        · rw [previousLayout_eq h]
          exact ensures_some (holds_showLayout h (previousLayout_lt h.currentLayout_lt))
        · split
          · rw [nextLayout_eq h]
            exact ensures_some (holds_showLayout h (nextLayout_lt h.currentLayout_lt))
          · exact ensures_some { h with lastKey := rfl }

theorem holds_handleKeys (skip : Nat) (buf : Bytes) {s : State} {t : RtTui.State}
    (h : s.Holds t) :
    Ensures (fun s' => s'.Holds (t.handleKeys skip buf)) (s.handleKeys skip buf) := by
  induction buf generalizing skip s t with
  | nil => cases skip <;> exact ensures_some h
  | cons c rest ih =>
      cases skip with
      | succ skip => exact ih skip h
      | zero =>
          unfold State.handleKeys RtTui.State.handleKeys
          split
          · exact (holds_handleKey h _).bind (fun s' hs' => ih _ hs')
          · split
            · exact holds_handleKey h _
            · exact (holds_handleKey h _).bind (fun s' hs' => ih 0 hs')

/-! ## Area 1 -/

/-- One of the two data buffers. -/
theorem TuiLayoutData.Holds.getBuf {layout : TuiLayoutData} {l : RtTui.TuiLayoutData}
    (h : layout.Holds l) (w : Bool) :
    Ensures (fun dbuf => dbuf.Holds (l.dataBuf w)) (layout.dataBuf.get (bufIdx w)) := by
  have hlt : (bufIdx w : Int) < (2 : Nat) := by
    cases w <;> decide
  have hw : ((bufIdx w : Int).toNat == 1) = w := by
    cases w <;> rfl
  refine (h.dataBuf.get (by omega) hlt).imp (fun dbuf hdbuf => ?_)
  rw [hw] at hdbuf
  exact hdbuf

/-- The index of the other buffer. -/
theorem one_sub_bufIdx (w : Bool) : 1 - (bufIdx w : Int) = bufIdx (!w) := by
  cases w <;> rfl

theorem calcArea1Height_eq {s : State} {t : RtTui.State} (h : s.Holds t) :
    s.calcArea1Height = some t.calcArea1Height := by
  have hlt := h.currentLayout_lt
  have hres : Ensures (fun height => height = t.calcArea1Height) s.calcArea1Height := by
    unfold State.calcArea1Height RtTui.State.calcArea1Height
    rw [h.currentLayout]
    refine (h.layouts.get (by omega) (by omega)).bind (fun layout hl => ?_)
    rw [Int.toNat_natCast] at hl
    dsimp only
    rw [hl.dataWriteIdx, one_sub_bufIdx]
    refine (hl.getBuf _).bind (fun buf hbuf => ?_)
    -- the loop adds up the groups in front of its index
    refine Ensures.bind (forRange_ensures (I := fun i acc => acc = (List.range i.toNat).foldl
      (fun (acc : Int × Bool) g =>
        if ((t.layouts t.currentLayout).groupHeaders g).active then
          (acc.1 + (if acc.2 then 0 else 1) +
            (if ((t.layouts t.currentLayout).groupHeaders g).hideHeader then 0 else 2) +
            (((t.layouts t.currentLayout).dataBuf
              (!(t.layouts t.currentLayout).dataWriteIdx)).groups g).nrows, false)
        else acc) (0, true)) (by decide) rfl ?_) (fun content hcontent => ?_)
    · intro i acc h0 hi hacc
      have hnext : (i + 1).toNat = i.toNat + 1 := by omega
      refine (hl.groupHeaders.get h0 hi).bind (fun gh hgh => ?_)
      rw [hnext, List.range_succ, List.foldl_append, ← hacc, List.foldl_cons, List.foldl_nil,
        hgh.active, hgh.hideHeader]
      split
      · refine (hbuf.groups.get h0 hi).map (fun gdata hgdata => ?_)
        rw [hgdata.nrows]
      · exact ensures_some rfl
    · rw [hcontent]
      exact ensures_some rfl
  rcases hres with ⟨height, hres, heq⟩
  rw [hres, heq]

/-- The swap gives the index of the buffer that is read. -/
theorem holds_swapArea1 {layout : TuiLayoutData} {l : RtTui.TuiLayoutData}
    (h : layout.Holds l) :
    Ensures (fun p : Int × TuiLayoutData =>
        p.2.Holds l.swapArea1 ∧ p.1 = (bufIdx (!l.swapArea1.dataWriteIdx) : Nat))
      layout.swapArea1 := by
  unfold TuiLayoutData.swapArea1 RtTui.TuiLayoutData.swapArea1
  dsimp only
  rw [h.dataWriteIdx]
  refine (h.getBuf l.dataWriteIdx).bind (fun dbuf hdbuf => ?_)
  rw [hdbuf.dirty]
  split
  · have hlt : (bufIdx l.dataWriteIdx : Int) < (2 : Nat) := by
      cases l.dataWriteIdx <;> decide
    have hclean : TuiDataBuffer.Holds { dbuf with dirty := false }
        { l.dataBuf l.dataWriteIdx with dirty := false } := { hdbuf with dirty := rfl }
    refine (h.dataBuf.set (by omega) hlt hclean).bind (fun dataBuf hdata => ensures_some ?_)
    rw [Int.toNat_natCast] at hdata
    refine ⟨{ h with dataBuf := holds_update_dataBuf hdata, dataWriteIdx := ?_ }, ?_⟩
    · exact one_sub_bufIdx l.dataWriteIdx
    · dsimp only
      rw [Bool.not_not]
  · exact ensures_some ⟨h, one_sub_bufIdx l.dataWriteIdx⟩

theorem clampCols_eq (width : Int) : clampCols width = (maxColsFit width : Nat) := by
  have hmax : tuiMaxCols = 10 := rfl
  unfold clampCols maxColsFit
  dsimp only
  split_ifs
  all_goals omega

theorem maxColsFit_le (width : Int) : maxColsFit width ≤ tuiMaxCols := by
  unfold maxColsFit
  omega

/-- The texts of the columns that fit on the screen. -/
theorem columnTexts_eq {cols : Block (Chars tuiDataColLen) tuiMaxCols} {f : Nat → Bytes}
    (h : cols.Holds HasText f) (width ncols : Int) (other : Bytes) :
    columnTexts width ncols other cols =
      some ((List.range (maxColsFit width)).map (fun c : Nat =>
        if (c : Int) < ncols then f c else other)) := by
  have hle := maxColsFit_le width
  unfold columnTexts
  rw [clampCols_eq]
  refine forRange_collect (fun c hc => ?_)
  split
  · rcases h.get (i := c) (by omega) (by omega) with ⟨buf, hres, hbuf⟩
    rw [Int.toNat_natCast] at hbuf
    rw [hres, Option.bind_some]
    exact hbuf
  · rfl

theorem line_header {gh : TuiGroupHeader} {header : RtTui.TuiGroupHeader}
    (h : gh.Holds header) (width : Int) : gh.line width = some (header.line width) := by
  have hcells : ((List.range (maxColsFit width)).map (fun c : Nat =>
      if (c : Int) < gh.ncols then header.cols c else ascii ".")) =
        (List.range (maxColsFit width)).map (fun c =>
          if c < header.ncols then header.cols c else ascii ".") := by
    apply List.map_congr_left
    intro c _
    rw [← h.ncols]
    by_cases hc : (c : Int) < gh.ncols
    · rw [if_pos hc, if_pos (by omega)]
    · rw [if_neg hc, if_neg (by omega)]
  unfold TuiGroupHeader.line RtTui.TuiGroupHeader.line
  rw [h.label, columnTexts_eq h.cols, hcells]
  rfl

theorem line_row {dr : TuiDataRow} {row : RtTui.TuiDataRow} (h : dr.Holds row) (width : Int) :
    dr.line width = some (row.line width) := by
  unfold TuiDataRow.line RtTui.TuiDataRow.line
  rw [h.label, Option.bind_eq_bind, Option.bind_some, h.textMode]
  split
  · split
    · rw [h.text]
      rfl
    · have hzero : (width - 24).toNat = 0 := by omega
      rw [hzero, List.take_zero]
  · have hcells : ((List.range (maxColsFit width)).map (fun c : Nat =>
        if (c : Int) < dr.ncols then row.col c else [])) =
          (List.range (maxColsFit width)).map (fun c =>
            if c < row.ncols then row.col c else []) := by
      apply List.map_congr_left
      intro c _
      rw [h.ncols]
      by_cases hc : c < row.ncols
      · rw [if_pos hc, if_pos (by omega)]
      · rw [if_neg hc, if_neg (by omega)]
    rw [columnTexts_eq h.col, hcells]
    rfl

/-- The header of a group goes to the pen. -/
theorem render_header {gh : TuiGroupHeader} {header : RtTui.TuiGroupHeader}
    (h : gh.Holds header) (width bot : Int) (pen : Pen Drawn) :
    gh.render width bot pen =
      some (if header.hideHeader then pen
        else (pen.putIf bot (header.line width)).putIf bot .underline) := by
  unfold TuiGroupHeader.render
  rw [h.hideHeader]
  split
  · rfl
  · split
    · rename_i hroom
      rw [line_header h, Option.map_some]
      congr 2
      exact (if_pos hroom).symm
    · rename_i hfull
      congr 2
      exact (if_neg hfull).symm

/-- The rows of a group go to the pen. -/
theorem render_rows {gdata : TuiGroupRowData} {group : RtTui.TuiGroupRowData}
    (h : gdata.Holds group) (width bot : Int) (pen : Pen Drawn) :
    gdata.render width bot pen = some ((group.lines width).foldl (Pen.putIf bot) pen) := by
  have hle := h.nrows_le
  have hloop : Ensures (fun pen' => pen' = ((List.range (group.nrows : Int).toNat).map
        (fun r => (group.rows r).line width)).foldl (Pen.putIf bot) pen)
      (gdata.render width bot pen) := by
    unfold TuiGroupRowData.render
    rw [h.nrows]
    refine forWhile_ensures (I := fun i pen' => pen' = ((List.range i.toNat).map
      (fun r => (group.rows r).line width)).foldl (Pen.putIf bot) pen) (by omega) rfl ?_ ?_
    · intro i pen' h0 hi hcond hpen
      have hnext : (i + 1).toNat = i.toNat + 1 := by omega
      have hroom : pen'.row < bot := of_decide_eq_true hcond
      refine (h.rows.get h0 (by omega)).bind (fun dr hdr => ?_)
      rw [line_row hdr, hnext, List.range_succ, List.map_append, List.foldl_append, ← hpen]
      exact ensures_some (if_pos hroom).symm
    · intro i pen' h0 hi hcond hpen
      have hnext : (i + 1).toNat = i.toNat + 1 := by omega
      have hfull : ¬ pen'.row < bot := of_decide_eq_false hcond
      rw [hnext, List.range_succ, List.map_append, List.foldl_append, ← hpen]
      exact (if_neg hfull).symm
  rcases hloop with ⟨pen', hres, hpen⟩
  rw [hres, hpen, Int.toNat_natCast, RtTui.TuiGroupRowData.lines]

/-- One pass of the group loop. -/
theorem renderGroup_eq {layout : TuiLayoutData} {l : RtTui.TuiLayoutData} (h : layout.Holds l)
    {buf : TuiDataBuffer} (hbuf : buf.Holds l.readBuf) (width bot : Int) {g : Int} (h0 : 0 ≤ g)
    (hg : g < tuiMaxGroups) {p : Pen Drawn × Bool} (hroom : p.1.row < bot) :
    layout.renderGroup width bot buf g p = some (l.renderGroup width bot p g.toNat) := by
  rcases h.groupHeaders.get h0 hg with ⟨gh, hres, hgh⟩
  rcases hbuf.groups.get h0 hg with ⟨gdata, hres', hgdata⟩
  unfold TuiLayoutData.renderGroup RtTui.TuiLayoutData.renderGroup
  rw [hres, hres', if_pos hroom, Option.bind_eq_bind, Option.bind_some, hgh.active]
  dsimp only
  split
  · simp only [render_header hgh, render_rows hgdata, Option.bind_eq_bind, Option.bind_some]
  · rfl

theorem holds_renderLayout {layout : TuiLayoutData} {l : RtTui.TuiLayoutData}
    (h : layout.Holds l) (startRow width : Int) {height : Int} (hheight : ¬ height < 4) :
    Ensures (fun p => p.1 = l.renderArea1 startRow height width ∧ p.2.Holds l.swapArea1)
      (layout.renderArea1 startRow height width) := by
  unfold TuiLayoutData.renderArea1 RtTui.TuiLayoutData.renderArea1
  rw [if_neg hheight]
  refine (holds_swapArea1 h).bind (fun p hp => ?_)
  rcases hp with ⟨hl, hidx⟩
  rw [hidx]
  refine (hl.getBuf _).bind (fun buf hbuf => ?_)
  dsimp only
  rw [hl.name, Option.bind_eq_bind, Option.bind_some, (swapArea1_seen l).1]
  refine (hasText_printIn (uninitialized : Chars 48) (by decide) _).bind (fun title htitle => ?_)
  rw [htitle, Option.bind_some]
  -- the loop draws the groups in front of its index
  refine Ensures.bind (forWhile_ensures (I := fun i p => p = (List.range i.toNat).foldl
    (l.swapArea1.renderGroup width (startRow + height - 1))
      ((Pen.start startRow).put (.area1Top l.name), true)) (by decide) rfl ?_ ?_)
    (fun p hpen => ensures_some ?_)
  · intro i p h0 hi hcond hpen
    have hnext : (i + 1).toNat = i.toNat + 1 := by omega
    have hroom : p.1.row < startRow + height - 1 := of_decide_eq_true hcond
    rw [renderGroup_eq hl hbuf width _ h0 hi hroom, hnext, List.range_succ, List.foldl_append,
      ← hpen]
    exact ensures_some rfl
  · intro i p h0 hi hcond hpen
    have hnext : (i + 1).toNat = i.toNat + 1 := by omega
    have hfull : ¬ p.1.row < startRow + height - 1 := of_decide_eq_false hcond
    rw [hnext, List.range_succ, List.foldl_append, ← hpen]
    exact (if_neg hfull).symm
  · rw [hpen]
    exact ⟨rfl, hl⟩

theorem holds_renderArea1 {s : State} {t : RtTui.State} (h : s.Holds t) (startRow width : Int)
    {height : Int} (hheight : ¬ height < 4) :
    Ensures (fun p => p.1 = (t.layouts t.currentLayout).renderArea1 startRow height width ∧
        p.2.Holds t.swapArea1)
      (s.renderArea1 startRow height width) := by
  have hlt := h.currentLayout_lt
  unfold State.renderArea1
  rw [if_neg hheight, h.currentLayout]
  refine (h.layouts.get (by omega) (by omega)).bind (fun layout hl => ?_)
  rw [Int.toNat_natCast] at hl
  refine (holds_renderLayout hl startRow width hheight).bind (fun p hp => ?_)
  refine (h.layouts.set (by omega) (by omega) hp.2).bind (fun layouts hlayouts => ?_)
  rw [Int.toNat_natCast] at hlayouts
  exact ensures_some ⟨hp.1, { h with layouts := hlayouts, currentLayout := rfl }⟩

/-! ## Area 2 -/

theorem logLines_eq {s : State} {t : RtTui.State} (h : s.Holds t) (width : Int)
    (visibleH startIdx linesToShow : Nat) :
    s.logLines width visibleH startIdx linesToShow =
      some ((List.range visibleH).map (fun r => .logLine (
        if r < linesToShow then
          some (RtTui.messageText width (t.logHistory.get (startIdx + r)))
        else none))) := by
  unfold State.logLines
  refine forRange_collect (fun r _ => ?_)
  rw [h.logHead, Int.toNat_natCast]
  split
  · have hmod : (t.logHistory.head + startIdx + r) % logKeep < logKeep :=
      Nat.mod_lt _ (by decide)
    have hshow : r < linesToShow := by omega
    rcases h.logHistory.get (i := ((t.logHistory.head + startIdx + r) % logKeep : Nat))
      (by omega) (by omega) with ⟨e, hres, he⟩
    rw [Int.toNat_natCast, Nat.add_assoc] at he
    have htext : messageText width e =
        some (RtTui.messageText width (t.logHistory.get (startIdx + r))) := by
      unfold messageText RtTui.messageText
      rw [he, Option.map_some]
      rfl
    rw [hres, Option.bind_eq_bind, Option.bind_some, htext, if_pos hshow]
    rfl
  · have hshow : ¬ r < linesToShow := by omega
    rw [if_neg hshow]

theorem renderArea2_drawn {s : State} {t : RtTui.State} (h : s.Holds t)
    (startRow height width : Int) :
    s.renderArea2 startRow height width = some (t.drawArea2 startRow height width) := by
  unfold State.renderArea2 RtTui.State.drawArea2
  split
  · rfl
  · rename_i hheight
    have hvisible : ((height - 2).toNat : Int) = height - 2 := Int.toNat_of_nonneg (by omega)
    have hlines : t.logLines height width =
        (List.range (height - 2).toNat).map (fun r => .logLine (
          if r < (t.area2Window (height - 2).toNat).2 then
            some (RtTui.messageText width
              (t.logHistory.get ((t.area2Window (height - 2).toNat).1 + r)))
          else none)) := by
      unfold RtTui.State.logLines RtTui.State.renderArea2
      rw [if_neg hheight, List.map_map]
      apply List.map_congr_left
      intro r _
      show Drawn.logLine (Option.map _ (if _ then _ else _)) = _
      split
      · rfl
      · rfl
    dsimp only
    rw [h.logCount, h.scrollOffset, h.autoScroll, logLines_eq h, hvisible, hlines]
    rfl

/-! ## The command line -/

/-- The defined layouts in front of the `n`-th one: their numbers and short names. -/
def shortNames (t : RtTui.State) (n : Nat) : List (Nat × Bytes) :=
  ((List.range n).filter (fun i => (t.layouts i).defined)).map (fun i =>
    (i + 1, (t.layouts i).name.take 8))

/-- The switcher for some layouts. -/
def switcherOf (layouts : List (Nat × Bytes)) (current : Nat) : Bytes :=
  layouts.flatMap (fun p => switcherText (p.1 = current + 1) p.1 p.2)

/-- The command line for some layouts. -/
def cmdLineOf (row : Int) (layouts : List (Nat × Bytes)) (current : Nat) (lastKey : UInt8) :
    CmdLine where
  row := row
  swPos := (switcherOf layouts current).length
  switcher := switcherOf layouts current
  keyStr := keyText lastKey

theorem shortNames_succ (t : RtTui.State) (n : Nat) :
    shortNames t (n + 1) = shortNames t n ++
      if (t.layouts n).defined then [(n + 1, (t.layouts n).name.take 8)] else [] := by
  unfold shortNames
  rw [List.range_succ, List.filter_append, List.map_append, List.filter_singleton]
  cases (t.layouts n).defined with
  | true => rfl
  | false => rfl

theorem switcherOf_append (layouts layouts' : List (Nat × Bytes)) (current : Nat) :
    switcherOf (layouts ++ layouts') current =
      switcherOf layouts current ++ switcherOf layouts' current :=
  List.flatMap_append

/-- The number of a layout is one digit. -/
theorem number_ascii : ∀ i < maxLayouts,
    (ascii (toString (i + 1))).length = 1 ∧ 0 ∉ ascii (toString (i + 1)) := by
  decide

theorem length_switcherText (current : Bool) {i : Nat} (hi : i < maxLayouts) {name : Bytes}
    (hname : name.length ≤ 8) : (switcherText current (i + 1) name).length ≤ 13 := by
  have hnumber := (number_ascii i hi).1
  have hopen : (ascii "[").length = 1 ∧ (ascii "] ").length = 2 := by decide
  have hblank : (ascii " ").length = 1 ∧ (ascii ":").length = 1 := by decide
  unfold switcherText
  split
  · simp only [List.length_append]
    omega
  · simp only [List.length_append, List.length_replicate]
    omega

theorem zero_not_mem_switcherText (current : Bool) {i : Nat} (hi : i < maxLayouts)
    {name : Bytes} (hname : 0 ∉ name) : 0 ∉ switcherText current (i + 1) name := by
  have hnumber := (number_ascii i hi).2
  have hopen : 0 ∉ ascii "[" ∧ 0 ∉ ascii "] " := by decide
  have hblank : 0 ∉ ascii " " ∧ 0 ∉ ascii ":" ∧ 0 ≠ key ' ' := by decide
  unfold switcherText
  split
  · simp only [List.mem_append, not_or]
    exact ⟨⟨⟨⟨hopen.1, hnumber⟩, hblank.2.1⟩, hname⟩, hopen.2⟩
  · simp only [List.mem_append, not_or]
    refine ⟨⟨⟨⟨hblank.1, hnumber⟩, hblank.2.1⟩, hname, ?_⟩, hblank.1⟩
    intro hmem
    exact hblank.2.2 (List.eq_of_mem_replicate hmem)

section Switcher

variable {s : State} {t : RtTui.State}

/-- A stored name is a string. -/
theorem State.Holds.name (h : s.Holds t) {i : Nat} (hi : i < maxLayouts) :
    0 ∉ (t.layouts i).name := by
  rcases h.layouts i hi with ⟨layout, _, hl⟩
  rw [← Block.stringAt_cells hl.name]
  exact zero_not_mem_stringAt _

/-- The texts in front of the `n`-th layout are short and hold no null byte. -/
theorem switcherOf_bounds (h : s.Holds t) (current : Nat) {n : Nat} (hn : n ≤ maxLayouts) :
    (switcherOf (shortNames t n) current).length ≤ 13 * n ∧
      0 ∉ switcherOf (shortNames t n) current := by
  induction n with
  | zero => exact ⟨Nat.le_refl _, List.not_mem_nil⟩
  | succ n ih =>
      rcases ih (Nat.le_of_succ_le hn) with ⟨hlen, hzero⟩
      have hname : 0 ∉ (t.layouts n).name.take 8 :=
        fun hmem => h.name hn (List.mem_of_mem_take hmem)
      have htext := length_switcherText (decide (n + 1 = current + 1)) hn
        (List.length_take_le 8 (t.layouts n).name)
      have htext0 := zero_not_mem_switcherText (decide (n + 1 = current + 1)) hn hname
      rw [shortNames_succ, switcherOf_append, List.length_append, List.mem_append, not_or]
      split
      · have hone : switcherOf [(n + 1, (t.layouts n).name.take 8)] current =
            switcherText (decide (n + 1 = current + 1)) (n + 1) ((t.layouts n).name.take 8) :=
          List.append_nil _
        rw [hone]
        exact ⟨by omega, hzero, htext0⟩
      · exact ⟨by
          show _ + 0 ≤ _
          omega, hzero, List.not_mem_nil⟩

/-- The switcher with some text in front of its position. -/
def Switcher.Holds (sw : Switcher) (text : Bytes) : Prop :=
  (∃ rest, sw.text.cells = text ++ 0 :: rest) ∧ sw.swPos = text.length

/-- A text goes behind the others when it fits. -/
theorem holds_print {sw : Switcher} {before more : Bytes} (h : sw.Holds before)
    (hfits : before.length + more.length < switcherLen) :
    Ensures (fun sw' => sw'.Holds (before ++ more)) (sw.print more) := by
  have hmax : switcherLen = 256 := rfl
  have hprinted : Block.printed more = more.length := if_pos (by omega)
  rcases h with ⟨⟨rest, hcells⟩, hpos⟩
  unfold Switcher.print
  rw [hpos, if_pos ⟨by omega, by omega⟩, Int.toNat_natCast]
  refine (Block.cells_printIn hcells (n := switcherLen - before.length) (by omega)
    (by omega)).map (fun text htext => ?_)
  refine ⟨htext, ?_⟩
  show (before.length : Int) + Block.printed more = _
  rw [hprinted, List.length_append]
  rfl

/-- A pass prints the text of a defined layout. -/
theorem holds_printLayout (h : s.Holds t) {i : Int} (h0 : 0 ≤ i) (hi : i < maxLayouts)
    {sw : Switcher} (hsw : sw.Holds (switcherOf (shortNames t i.toNat) t.currentLayout)) :
    Ensures (fun sw' => sw'.Holds (switcherOf (shortNames t (i.toNat + 1)) t.currentLayout))
      (s.printLayout i sw) := by
  have hlt : i.toNat < maxLayouts := by omega
  have hmax : maxLayouts = 9 := rfl
  have hroom : switcherLen = 256 := rfl
  have hbound := (switcherOf_bounds h t.currentLayout (Nat.le_of_lt hlt)).1
  have hcurrent : decide (i = s.currentLayout) = decide (i.toNat + 1 = t.currentLayout + 1) := by
    rw [h.currentLayout, decide_eq_decide]
    omega
  unfold State.printLayout
  refine (h.layouts.get h0 hi).bind (fun layout hl => ?_)
  rw [shortNames_succ, switcherOf_append, hl.defined]
  split
  · refine (hasText_copyString (Block.fill 0 : Chars 9) (by decide) _).bind
      (fun short hshort => ?_)
    rw [hshort, Block.stringAt_cells hl.name, Option.bind_eq_bind, Option.bind_some, hcurrent]
    have hlen := length_switcherText (decide (i.toNat + 1 = t.currentLayout + 1)) hlt
      (List.length_take_le 8 (t.layouts i.toNat).name)
    have hone : switcherOf [(i.toNat + 1, (t.layouts i.toNat).name.take 8)] t.currentLayout =
        switcherText (decide (i.toNat + 1 = t.currentLayout + 1)) (i.toNat + 1)
          ((t.layouts i.toNat).name.take 8) := List.append_nil _
    rw [hone]
    exact holds_print hsw (by omega)
  · have hnone : switcherOf [] t.currentLayout = [] := rfl
    rw [hnone, List.append_nil]
    exact ensures_some hsw

/-- The loop prints the texts of all defined layouts, and there is room for them. -/
theorem switcher_eq (h : s.Holds t) :
    Ensures (fun sw : Switcher =>
        sw.text.string = some (switcherOf (shortNames t maxLayouts) t.currentLayout) ∧
        sw.swPos = (switcherOf (shortNames t maxLayouts) t.currentLayout).length)
      s.switcher := by
  have hmax : maxLayouts = 9 := rfl
  have hroom : switcherLen = 256 := rfl
  have hloop : Ensures (fun sw : Switcher =>
        sw.Holds (switcherOf (shortNames t (maxLayouts : Int).toNat) t.currentLayout))
      s.switcher := by
    refine forWhile_ensures (I := fun i (sw : Switcher) =>
      sw.Holds (switcherOf (shortNames t i.toNat) t.currentLayout)) (by decide) ?_ ?_ ?_
    · exact ⟨⟨List.replicate 255 0, rfl⟩, rfl⟩
    · intro i sw h0 hi _ hsw
      have hnext : (i + 1).toNat = i.toNat + 1 := by omega
      rw [hnext]
      exact holds_printLayout h h0 hi hsw
    · -- the loop does not stop before the last layout
      intro i sw h0 hi hcond hsw
      have hbound := (switcherOf_bounds h t.currentLayout (by omega : i.toNat ≤ maxLayouts)).1
      have hfull : ¬ sw.swPos < switcherLen - 20 := of_decide_eq_false hcond
      rw [hsw.2] at hfull
      omega
  refine hloop.imp (fun sw hsw => ?_)
  rw [Int.toNat_natCast] at hsw
  rcases hsw with ⟨⟨rest, hcells⟩, hpos⟩
  have hzero := (switcherOf_bounds h t.currentLayout (Nat.le_refl maxLayouts)).2
  refine ⟨?_, hpos⟩
  rw [Block.string_of_cells hcells, stringAt_of_zero_not_mem hzero]

end Switcher

theorem hexDigit_ne_zero : ∀ n < 16, hexDigit n ≠ 0 := by
  decide

theorem keyText_bounds (c : UInt8) : (keyText c).length ≤ 15 ∧ 0 ∉ keyText c := by
  have hquote : 0 ∉ ascii "'" ∧ (ascii "'").length = 1 := by decide
  have hhex : 0 ∉ ascii "0x" ∧ (ascii "0x").length = 2 := by decide
  have hlt : c.toNat < 256 := c.toNat_lt
  unfold keyText
  split
  · decide
  · rename_i hne
    split
    · refine ⟨?_, ?_⟩
      · rw [List.length_append, List.length_append, hquote.2]
        exact (by decide : 3 ≤ 15)
      · simp only [List.mem_append, List.mem_singleton, not_or]
        exact ⟨⟨hquote.1, fun hzero => hne hzero.symm⟩, hquote.1⟩
    · refine ⟨?_, ?_⟩
      · rw [List.length_append, hhex.2]
        exact (by decide : 4 ≤ 15)
      · simp only [List.mem_append, List.mem_cons, List.not_mem_nil, or_false, not_or]
        exact ⟨hhex.1, fun hzero => hexDigit_ne_zero _ (by omega) hzero.symm,
          fun hzero => hexDigit_ne_zero _ (by omega) hzero.symm⟩

theorem renderCmdLine_eq {s : State} {t : RtTui.State} (h : s.Holds t) (row : Int) :
    s.renderCmdLine row =
      some (cmdLineOf row (shortNames t maxLayouts) t.currentLayout t.lastKey) := by
  rcases switcher_eq h with ⟨sw, hres, htext, hpos⟩
  rcases hasText_printIn (uninitialized : Chars 16) (by decide) (keyText s.lastKey) with
    ⟨keyStr, hres', hkey⟩
  have hbounds := keyText_bounds t.lastKey
  have hstored : truncateTo 16 (stringAt (keyText t.lastKey)) = keyText t.lastKey := by
    rw [stringAt_of_zero_not_mem hbounds.2]
    exact List.take_of_length_le hbounds.1
  rw [h.lastKey, hstored] at hkey
  have hkeyStr : keyStr.string = some (keyText t.lastKey) := hkey
  unfold State.renderCmdLine
  simp only [hres, hres', htext, hkeyStr, hpos, Option.bind_eq_bind, Option.bind_some]
  rfl

/-! ## Tick -/

/-- A frame of the model without arrays, in which the command line is the last text. -/
def Frame.Draws (f : Frame) (drawn : List (Int × Drawn)) : Prop :=
  ∃ row layouts current lastKey,
    drawn = f.areas ++ [(row, .cmdLine layouts current lastKey)] ∧
      f.cmdLine = cmdLineOf row layouts current lastKey

/-- The swap leaves the command line alone. -/
theorem shortNames_swapArea1 (t : RtTui.State) (n : Nat) :
    shortNames t.swapArea1 n = shortNames t n := by
  have hlayout : ∀ i, (t.swapArea1.layouts i).name = (t.layouts i).name ∧
      (t.swapArea1.layouts i).defined = (t.layouts i).defined := by
    intro i
    have hseen := swapArea1_seen (t.layouts t.currentLayout)
    show (Function.update t.layouts t.currentLayout _ i).name = _ ∧
      (Function.update t.layouts t.currentLayout _ i).defined = _
    by_cases heq : i = t.currentLayout
    · rw [heq, Function.update_self]
      exact ⟨hseen.1, hseen.2.2⟩
    · rw [Function.update_of_ne heq]
      exact ⟨rfl, rfl⟩
  unfold shortNames
  simp only [hlayout]

theorem holds_resize {s : State} {t : RtTui.State} (h : s.Holds t) (size : Nat × Nat) :
    (s.resize size).Holds (t.resize size) :=
  { h with
    layoutChanged := rfl
    termRows := rfl
    termCols := rfl
    prevTermRows := rfl
    prevTermCols := rfl }

theorem holds_render {s : State} {t : RtTui.State} (h : s.Holds t) (hrun : t.running = true)
    (i : TickInput) :
    Ensures (fun p : State × Frame =>
        p.1.Holds (t.tick i) ∧ p.2.Draws (t.frame i) ∧ p.2.cmdLine.swPos < switcherLen)
      (s.render i) := by
  unfold State.render RtTui.State.tick RtTui.State.frame
  rw [if_pos hrun, if_pos hrun]
  refine (holds_drainLog h).bind (fun s₁ h₁ => ?_)
  refine (holds_handleKeys 0 _ h₁).bind (fun s₂ h₂ => ?_)
  have h₃ : (s₂.resize (termGetSize i.winsize)).Holds (t.beforeRender i) :=
    holds_resize h₂ (termGetSize i.winsize)
  generalize s₂.resize (termGetSize i.winsize) = s₃ at h₃
  generalize t.beforeRender i = u at h₃
  have hheight : ¬ u.areaHeights.1 < 4 := by
    unfold RtTui.State.areaHeights
    dsimp only
    omega
  dsimp only
  rw [calcArea1Height_eq h₃, Option.bind_eq_bind, Option.bind_some, h₃.termRows, h₃.termCols]
  refine (holds_renderArea1 h₃ 1 u.termCols hheight).bind (fun upper hupper => ?_)
  rcases hupper with ⟨hdrawn, h₄⟩
  simp only [renderArea2_drawn h₄, renderCmdLine_eq h₄, h₄.termRows, h₄.termCols,
    shortNames_swapArea1, Option.bind_eq_bind, Option.bind_some]
  have hbounds := (switcherOf_bounds h₃ u.currentLayout (Nat.le_refl maxLayouts)).1
  refine ensures_some ⟨h₄, ⟨u.termRows, shortNames u maxLayouts, u.currentLayout, u.lastKey,
    ?_, rfl⟩, ?_⟩
  · rw [hdrawn]
    rfl
  · have hmax : maxLayouts = 9 := rfl
    have hroom : switcherLen = 256 := rfl
    show ((switcherOf (shortNames u maxLayouts) u.currentLayout).length : Int) < switcherLen
    omega

theorem holds_tick {s : State} {t : RtTui.State} (h : s.Holds t) (i : TickInput) :
    Ensures (fun p : State × List Frame =>
        p.1.Holds (t.tick i) ∧
          List.Forall₂ Frame.Draws p.2 (if t.running then [t.frame i] else []) ∧
          ∀ f ∈ p.2, f.cmdLine.swPos < switcherLen)
      (s.tick i) := by
  unfold State.tick
  rw [h.running]
  split
  · rename_i hrun
    refine (holds_render h hrun i).map (fun p hp => ?_)
    refine ⟨hp.1, List.Forall₂.cons hp.2.1 List.Forall₂.nil, ?_⟩
    intro f hf
    rw [List.mem_singleton.mp hf]
    exact hp.2.2
  · rename_i hstop
    refine ensures_some ⟨?_, List.Forall₂.nil, fun f hf => absurd hf List.not_mem_nil⟩
    unfold RtTui.State.tick
    rw [if_neg hstop]
    exact h

end Memory
end RtTui
end Log
end DtCore
