import DtCore.Log.RtTui.Screen

/-!
# The height of Area 1

A `Tick` asks `CalcArea1Height` for the height of Area 1, which counts the rows of the
buffer that was shown last, before `RenderArea1` swaps the buffers when the other one is
dirty.

Main definitions:

- `State.content`: the lines that `RenderArea1` has to draw.
- `HeightFits`: the height is that of the lines.
- `activeRows`: the data rows of the active groups.

Main results:

- Theorem `calcArea1Height_eq`: the height is that of the buffer shown last.
- Theorem `height_fits_iff`: when it is that of the buffer shown now.
-/

namespace DtCore
namespace Log
namespace RtTui

/-! ## Numbers of lines -/

/-- The lines of some groups that are not data rows. -/
def TuiLayoutData.frameLines (layout : TuiLayoutData) : Bool → List Nat → Nat
  | _, [] => 0
  | first, g :: gs =>
      if (layout.groupHeaders g).active then
        (if first then 0 else 1) + (if (layout.groupHeaders g).hideHeader then 0 else 2) +
          layout.frameLines false gs
      else layout.frameLines first gs

/-- The data rows that a buffer has for the active ones of some groups. -/
def TuiLayoutData.rowsOf (layout : TuiLayoutData) (buf : TuiDataBuffer) (gs : List Nat) : Nat :=
  (gs.map (fun g => if (layout.groupHeaders g).active then (buf.groups g).nrows else 0)).sum

/-- The data rows that a buffer has for the active groups. -/
def TuiLayoutData.activeRows (layout : TuiLayoutData) (buf : TuiDataBuffer) : Nat :=
  layout.rowsOf buf (List.range tuiMaxGroups)

theorem length_groupLines (width : Int) (layout : TuiLayoutData) (g : Nat) :
    (layout.groupLines width g).length =
      (if (layout.groupHeaders g).hideHeader then 0 else 2) +
        (layout.readBuf.groups g).nrows := by
  have hrows : ((layout.readBuf.groups g).lines width).length =
      (layout.readBuf.groups g).nrows := by
    simp [TuiGroupRowData.lines]
  unfold TuiLayoutData.groupLines
  rw [List.length_append, hrows]
  split <;> rfl

theorem length_linesFrom (width : Int) (layout : TuiLayoutData) (first : Bool) (gs : List Nat) :
    (layout.linesFrom width first gs).length =
      layout.frameLines first gs + layout.rowsOf layout.readBuf gs := by
  induction gs generalizing first with
  | nil => rfl
  | cons g gs ih =>
      unfold TuiLayoutData.linesFrom TuiLayoutData.frameLines TuiLayoutData.rowsOf
      rw [List.map_cons, List.sum_cons]
      by_cases hactive : (layout.groupHeaders g).active = true
      · rw [if_pos hactive, if_pos hactive, if_pos hactive, List.length_append,
          List.length_append, length_groupLines, ih false]
        have hsep : (if first then ([] : List Drawn) else [.separator]).length =
            if first then 0 else 1 := by
          cases first <;> rfl
        rw [hsep]
        unfold TuiLayoutData.rowsOf
        omega
      · rw [if_neg hactive, if_neg hactive, if_neg hactive, ih first]
        unfold TuiLayoutData.rowsOf
        omega

/-- `CalcArea1Height` counts the lines of the buffer that was shown last. -/
theorem calcArea1Height_eq (width : Int) (s : State) :
    s.calcArea1Height = 2 + ((s.layouts s.currentLayout).area1Lines width).length := by
  have hloop : ∀ (gs : List Nat) (n : Int) (first : Bool),
      (gs.foldl (fun (acc : Int × Bool) g =>
        if ((s.layouts s.currentLayout).groupHeaders g).active then
          (acc.1 + (if acc.2 then 0 else 1) +
            (if ((s.layouts s.currentLayout).groupHeaders g).hideHeader then 0 else 2) +
            ((s.layouts s.currentLayout).readBuf.groups g).nrows, false)
        else acc) (n, first)).1 =
        n + ((s.layouts s.currentLayout).linesFrom width first gs).length := by
    intro gs
    induction gs with
    | nil => exact fun n first => (Int.add_zero n).symm
    | cons g gs ih =>
        intro n first
        rw [List.foldl_cons, TuiLayoutData.linesFrom]
        by_cases hactive : ((s.layouts s.currentLayout).groupHeaders g).active = true
        · rw [if_pos hactive, if_pos hactive, ih, List.length_append, List.length_append,
            length_groupLines]
          cases first <;> push_cast <;> split <;> simp <;> omega
        · rw [if_neg hactive, if_neg hactive, ih]
  have hcontent := hloop (List.range tuiMaxGroups) 0 true
  rw [Int.zero_add] at hcontent
  exact congrArg (2 + ·) hcontent

/-! ## The swap -/

/-- The lines that the `RenderArea1` of this `Tick` has to draw. -/
def State.content (s : State) : List Drawn :=
  (s.layouts s.currentLayout).swapArea1.area1Lines s.termCols

/-- The height is that of the borders and the lines to draw, so that none of them is cut
off when the terminal is tall enough. -/
structure HeightFits (s : State) : Prop where
  height : s.calcArea1Height = 2 + s.content.length
  uncut : (2 : Int) + s.content.length ≤ s.termRows - 1 - area2MinRows →
    fitRows (s.areaHeights.1 - 2).toNat s.content =
      s.content ++ List.replicate ((s.areaHeights.1 - 2).toNat - s.content.length) .blank

theorem frameLines_swapArea1 (layout : TuiLayoutData) (first : Bool) (gs : List Nat) :
    layout.swapArea1.frameLines first gs = layout.frameLines first gs := by
  have hheaders := (swapArea1_seen layout).2.1
  induction gs generalizing first with
  | nil => rfl
  | cons g gs ih =>
      unfold TuiLayoutData.frameLines
      rw [hheaders, ih, ih]

/-- The rows to draw are those of the buffer that updates went to, if it is dirty. -/
theorem rowsOf_swapArea1 (layout : TuiLayoutData) (gs : List Nat) :
    layout.swapArea1.rowsOf layout.swapArea1.readBuf gs =
      if (layout.dataBuf layout.dataWriteIdx).dirty then
        layout.rowsOf (layout.dataBuf layout.dataWriteIdx) gs
      else layout.rowsOf layout.readBuf gs := by
  unfold TuiLayoutData.swapArea1 TuiLayoutData.rowsOf TuiLayoutData.readBuf
  dsimp only
  split
  · simp
  · rfl

/-- For every run and every `Tick` behind it: the height fits the frame exactly when the
buffer that updates went to is clean or has, over the active groups of the layout, as
many data rows as the buffer shown last. -/
theorem height_fits_iff (os : List Op) (i : TickInput) :
    let s := (State.init.ops os).beforeRender i
    let layout := s.layouts s.currentLayout
    HeightFits s ↔
      ((layout.dataBuf layout.dataWriteIdx).dirty = true →
        layout.activeRows (layout.dataBuf layout.dataWriteIdx) =
          layout.activeRows layout.readBuf) := by
  intro s layout
  have hcalc := calcArea1Height_eq s.termCols s
  have hold := length_linesFrom s.termCols layout true (List.range tuiMaxGroups)
  have hnew : s.content.length = _ :=
    length_linesFrom s.termCols layout.swapArea1 true (List.range tuiMaxGroups)
  rw [frameLines_swapArea1, rowsOf_swapArea1] at hnew
  have hlines : (layout.area1Lines s.termCols).length = _ := hold
  unfold TuiLayoutData.activeRows
  have hheight : s.calcArea1Height = 2 + s.content.length ↔
      ((layout.dataBuf layout.dataWriteIdx).dirty = true →
        layout.rowsOf (layout.dataBuf layout.dataWriteIdx) (List.range tuiMaxGroups) =
          layout.rowsOf layout.readBuf (List.range tuiMaxGroups)) := by
    rw [hcalc, hlines, hnew]
    cases hdirty : (layout.dataBuf layout.dataWriteIdx).dirty with
    | false => simp
    | true => simp [eq_comm]
  rw [← hheight]
  constructor
  · exact HeightFits.height
  · intro h
    constructor
    · exact h
    · intro htall
      have hroom : s.content.length ≤ (s.areaHeights.1 - 2).toNat := by
        unfold State.areaHeights
        dsimp only
        rw [h]
        omega
      unfold fitRows
      rw [List.take_of_length_le hroom]

/-- Two rows of a group, before the first `Tick`. -/
def firstRows : List Op :=
  [.setGroup 0 0 [74] [some [112]], .setRowCols 0 0 0 [97] [[49]], .setRowCols 0 0 1 [98] [[50]]]

/-- The first frame has no room for the rows. -/
theorem first_rows_cut :
    ¬ ∀ (os : List Op) (i : TickInput), HeightFits ((State.init.ops os).beforeRender i) := by
  intro h
  have hheight := (h firstRows firstTick).height
  have hcalc : ((State.init.ops firstRows).beforeRender firstTick).calcArea1Height = 4 := by
    decide
  have hcontent : ((State.init.ops firstRows).beforeRender firstTick).content.length = 4 := by
    decide
  rw [hcalc, hcontent] at hheight
  exact absurd hheight (by decide)

end RtTui
end Log
end DtCore
