import DtCore.Foundation.DoubleBuffer
import DtCore.Log.RtTui.Model

/-!
# The rows that a Tick shows

Each layout is a double buffer of rows: `SetRowData` and `SetTextRow` write to the back
buffer of their layout, and a `Tick` swaps the buffers of the layout that it renders.
Since `RenderArea1` copies nothing, a row that was updated before the last swap but not
since is missing from the buffer that the next swap shows.

Main definitions:

- `latestValue`, `rowCount`: what a list of updates says about a row and a group.
- `State.events`: the updates and swaps of a layout in a run.
- `ShowsLatest`: a `Tick` renders from a buffer with the latest value of every row.
- `Refreshed`: every row of the last batch whose value changed is updated again.

Main results:

- Theorem `doubleBuffer_ops`: the layouts are double buffers.
- Theorem `latest_rows_shown_iff`: the runs whose `Tick`s all show the latest rows.
-/

namespace DtCore
namespace Log
namespace RtTui

open Foundation

/-! ## Updates of rows -/

/-- What is rendered of a row. -/
inductive RowValue where
  | data (label : Bytes) (cols : List Bytes)
  | text (label text : Bytes)
deriving DecidableEq

/-- A row that was never updated. -/
def RowValue.blank : RowValue := .data [] []

def TuiDataRow.value (row : TuiDataRow) : RowValue :=
  if row.textMode then .text row.label row.text
  else .data row.label ((List.range row.ncols).map row.col)

/-- An update of a row of one layout. -/
structure RowUpdate where
  group : Nat
  row : Nat
  value : RowValue

def RowUpdate.isAt (g r : Nat) (u : RowUpdate) : Bool :=
  u.group == g && u.row == r

/-- The value of the most recent update of a row. -/
def latestValue (g r : Nat) (us : List RowUpdate) : RowValue :=
  match us.reverse.find? (RowUpdate.isAt g r) with
  | some u => u.value
  | none => .blank

/-- One more than the largest row index of a group that was updated. -/
def rowCount (g : Nat) (us : List RowUpdate) : Nat :=
  (us.filter (fun u => u.group == g)).foldl (fun n u => max n (u.row + 1)) 0

theorem latestValue_concat (g r : Nat) (us : List RowUpdate) (u : RowUpdate) :
    latestValue g r (us ++ [u]) = if u.isAt g r then u.value else latestValue g r us := by
  unfold latestValue
  rw [List.reverse_concat, List.find?_cons]
  cases u.isAt g r <;> rfl

theorem rowCount_concat (g : Nat) (us : List RowUpdate) (u : RowUpdate) :
    rowCount g (us ++ [u]) =
      if u.group = g then max (rowCount g us) (u.row + 1) else rowCount g us := by
  unfold rowCount
  by_cases hg : u.group = g
  · simp [List.filter_append, hg]
  · simp [List.filter_append, hg]

/-- The later updates decide, if there are any of the row. -/
theorem latestValue_append (g r : Nat) (us vs : List RowUpdate) :
    latestValue g r (us ++ vs) =
      if ∃ u ∈ vs, u.isAt g r then latestValue g r vs else latestValue g r us := by
  unfold latestValue
  rw [List.reverse_append, List.find?_append]
  by_cases hat : ∃ u ∈ vs, u.isAt g r = true
  · rw [if_pos hat]
    rcases hat with ⟨u, hu, huat⟩
    have hsome : (vs.reverse.find? (RowUpdate.isAt g r)).isSome := by
      rw [List.find?_isSome]
      exact ⟨u, List.mem_reverse.mpr hu, huat⟩
    rw [Option.or_of_isSome hsome]
  · rw [if_neg hat]
    have hnone : vs.reverse.find? (RowUpdate.isAt g r) = none := by
      rw [List.find?_eq_none]
      intro u hu huat
      exact hat ⟨u, List.mem_reverse.mp hu, huat⟩
    rw [hnone, Option.none_or]

theorem rowCount_append (g : Nat) (us vs : List RowUpdate) :
    rowCount g (us ++ vs) = max (rowCount g us) (rowCount g vs) := by
  induction vs using List.reverseRecOn with
  | nil =>
      rw [List.append_nil]
      exact (Nat.max_zero _).symm
  | append_singleton vs u ih =>
      rw [← List.append_assoc, rowCount_concat, rowCount_concat, ih]
      split
      · exact Nat.max_assoc _ _ _
      · rfl

/-! ## Frames -/

/-- What a buffer says about the rows. -/
@[ext]
structure Frame where
  value : Nat → Nat → RowValue
  nrows : Nat → Nat

def Frame.blank : Frame where
  value := fun _ _ => .blank
  nrows := fun _ => 0

def Frame.apply (f : Frame) (u : RowUpdate) : Frame where
  value := fun g r => if u.isAt g r then u.value else f.value g r
  nrows := fun g => if u.group = g then max (f.nrows g) (u.row + 1) else f.nrows g

/-- The frame after a list of updates. -/
def Frame.of (us : List RowUpdate) : Frame where
  value := fun g r => latestValue g r us
  nrows := fun g => rowCount g us

theorem foldl_apply (us : List RowUpdate) : us.foldl Frame.apply Frame.blank = Frame.of us := by
  induction us using List.reverseRecOn with
  | nil => rfl
  | append_singleton us u ih =>
      rw [List.foldl_concat, ih]
      apply Frame.ext
      · funext g r
        exact (latestValue_concat g r us u).symm
      · funext g
        exact (rowCount_concat g us u).symm

/-- Every row of the last batch that is not updated again has its earlier value, and no
group has more rows since the last batch. -/
def Unchanged (h : Batches RowUpdate) : Prop :=
  (∀ g r, (∀ u ∈ h.current, u.isAt g r = false) →
    latestValue g r h.done.flatten = latestValue g r h.done.dropLast.flatten) ∧
  ∀ g, rowCount g h.done.flatten ≤ max (rowCount g h.done.dropLast.flatten) (rowCount g h.current)

/-- The last batch makes no difference if its rows are updated again or unchanged. -/
theorem refreshed_iff (h : Batches RowUpdate) :
    h.Refreshed Frame.apply Frame.blank ↔ (h.current ≠ [] → Unchanged h) := by
  unfold Batches.Refreshed
  rw [foldl_apply, foldl_apply]
  apply imp_congr_right
  intro _
  have hmono : ∀ g, rowCount g h.done.dropLast.flatten ≤ rowCount g h.done.flatten := by
    intro g
    rcases List.eq_nil_or_concat h.done with hnil | ⟨bs, b, hdone⟩
    · rw [hnil]
      exact Nat.le_refl _
    · rw [hdone, List.concat_eq_append, List.dropLast_concat, List.flatten_concat,
        rowCount_append]
      exact Nat.le_max_left _ _
  constructor
  · intro heq
    constructor
    · intro g r hcur
      have hvalue := congrFun (congrFun (congrArg Frame.value heq) g) r
      have hno : ¬ ∃ u ∈ h.current, u.isAt g r = true := by
        rintro ⟨u, hu, huat⟩
        rw [hcur u hu] at huat
        contradiction
      unfold Frame.of Batches.behind Batches.all at hvalue
      dsimp only at hvalue
      rw [latestValue_append, latestValue_append, if_neg hno, if_neg hno] at hvalue
      exact hvalue.symm
    · intro g
      have hnrows := congrFun (congrArg Frame.nrows heq) g
      unfold Frame.of Batches.behind Batches.all at hnrows
      dsimp only at hnrows
      rw [rowCount_append, rowCount_append] at hnrows
      rw [hnrows]
      exact Nat.le_max_left _ _
  · rintro ⟨hvalue, hnrows⟩
    apply Frame.ext
    · funext g r
      unfold Frame.of Batches.behind Batches.all
      dsimp only
      rw [latestValue_append, latestValue_append]
      split
      · rfl
      · rename_i hno
        apply Eq.symm
        apply hvalue
        intro u hu
        apply Bool.eq_false_iff.mpr
        exact fun huat => hno ⟨u, hu, huat⟩
    · funext g
      unfold Frame.of Batches.behind Batches.all
      dsimp only
      rw [rowCount_append, rowCount_append]
      have hle := hnrows g
      have hge := hmono g
      omega

/-! ## Layouts as double buffers -/

def TuiDataBuffer.frame (buf : TuiDataBuffer) : Frame where
  value := fun g r => ((buf.groups g).rows r).value
  nrows := fun g => (buf.groups g).nrows

def TuiLayoutData.doubleBuffer (layout : TuiLayoutData) : DoubleBuffer Frame where
  front := layout.readBuf.frame
  back := (layout.dataBuf layout.dataWriteIdx).frame
  dirty := (layout.dataBuf layout.dataWriteIdx).dirty

/-- The buffer that is shown is clean. -/
def TuiLayoutData.Clean (layout : TuiLayoutData) : Prop :=
  layout.readBuf.dirty = false

theorem truncateTo_truncateTo (n : Nat) (text : Bytes) :
    truncateTo n (truncateTo n text) = truncateTo n text := by
  unfold truncateTo
  rw [List.take_take, Nat.min_self]

/-- The value that `SetRowCols` writes. -/
theorem value_setCols (label : Bytes) (values : List Bytes) (row : TuiDataRow) :
    (row.setCols label
      ((values.take tuiMaxCols).map (fun v => some (truncateTo tuiDataColLen v)))).value =
      .data (truncateTo tuiDataColLen label)
        ((values.take tuiMaxCols).map (truncateTo tuiDataColLen)) := by
  have hlen : min (values.take tuiMaxCols).length tuiMaxCols =
      (values.take tuiMaxCols).length := by
    rw [List.length_take]
    omega
  unfold TuiDataRow.value TuiDataRow.setCols
  simp only [Bool.false_eq_true, if_false, List.length_map, hlen, RowValue.data.injEq, true_and]
  apply List.ext_getElem
  · rw [List.length_map, List.length_map, List.length_range]
  · intro i hi hi'
    have hlt : i < (values.take tuiMaxCols).length := by
      rw [List.length_map] at hi'
      exact hi'
    rw [List.getElem_map, List.getElem_map, List.getElem_range, if_pos hlt,
      List.getD_eq_getElem?_getD, List.getElem?_map, List.getElem?_eq_getElem hlt, Option.map_some,
      Option.getD_some, Option.getD_some, truncateTo_truncateTo]

/-- The value that `SetTextRow` writes. -/
theorem value_setText (label text : Bytes) (row : TuiDataRow) :
    (row.setText label text).value =
      .text (truncateTo tuiDataColLen label) (truncateTo tuiTextRowLen text) :=
  rfl

/-- Updating a row of a buffer. -/
theorem frame_updateRow {f : TuiDataRow → TuiDataRow} {v : RowValue}
    (hf : ∀ row, (f row).value = v) (g r : Nat) (buf : TuiDataBuffer) :
    (buf.updateRow g r f).frame =
      buf.frame.apply { group := g, row := r, value := v } := by
  unfold TuiDataBuffer.updateRow TuiDataBuffer.frame Frame.apply
  apply Frame.ext
  · funext g' r'
    by_cases hg : g' = g
    · subst hg
      by_cases hr : r' = r
      · subst hr
        simp [RowUpdate.isAt, hf]
      · simp [RowUpdate.isAt, hr, Ne.symm hr]
    · simp [RowUpdate.isAt, hg, Ne.symm hg]
  · funext g'
    by_cases hg : g' = g
    · subst hg
      simp
    · simp [hg, Ne.symm hg]

theorem readBuf_updateRow (g r : Nat) (f : TuiDataRow → TuiDataRow) (layout : TuiLayoutData) :
    (layout.updateRow g r f).readBuf = layout.readBuf := by
  unfold TuiLayoutData.readBuf TuiLayoutData.updateRow
  exact Function.update_of_ne (Bool.not_ne_self _) _ _

/-- Updating a row of a layout writes to the back buffer. -/
theorem doubleBuffer_updateRow {f : TuiDataRow → TuiDataRow} {v : RowValue}
    (hf : ∀ row, (f row).value = v) (g r : Nat) (layout : TuiLayoutData) :
    (layout.updateRow g r f).doubleBuffer =
      layout.doubleBuffer.update Frame.apply { group := g, row := r, value := v } := by
  have hwrite : (layout.updateRow g r f).dataBuf (layout.updateRow g r f).dataWriteIdx =
      (layout.dataBuf layout.dataWriteIdx).updateRow g r f :=
    Function.update_self _ _ _
  unfold TuiLayoutData.doubleBuffer
  rw [readBuf_updateRow, hwrite, frame_updateRow hf]
  rfl

theorem TuiLayoutData.Clean.updateRow {layout : TuiLayoutData} (h : layout.Clean) (g r : Nat)
    (f : TuiDataRow → TuiDataRow) : (layout.updateRow g r f).Clean := by
  unfold TuiLayoutData.Clean
  rw [readBuf_updateRow]
  exact h

/-- `RenderArea1` swaps the buffers of a layout. -/
theorem doubleBuffer_swapArea1 {layout : TuiLayoutData} (h : layout.Clean) :
    layout.swapArea1.doubleBuffer = layout.doubleBuffer.swap ∧ layout.swapArea1.Clean := by
  unfold TuiLayoutData.Clean TuiLayoutData.readBuf at h
  unfold TuiLayoutData.swapArea1 DoubleBuffer.swap
  by_cases hdirty : (layout.dataBuf layout.dataWriteIdx).dirty = true
  · have hback : layout.doubleBuffer.dirty = true := hdirty
    rw [if_pos hback]
    dsimp only
    rw [if_pos hdirty]
    constructor
    · unfold TuiLayoutData.doubleBuffer TuiLayoutData.readBuf
      simp [h, TuiDataBuffer.frame]
    · simp [TuiLayoutData.Clean, TuiLayoutData.readBuf]
  · have hback : ¬ layout.doubleBuffer.dirty = true := hdirty
    rw [if_neg hback]
    dsimp only
    rw [if_neg hdirty]
    exact ⟨rfl, h⟩

/-! ## Calls -/

/-- The update of a row of layout `c`, if the three indices are valid. -/
def rowUpdateAt (c : Nat) (layoutIdx groupIdx rowIdx : Int) (v : RowValue) : Option RowUpdate :=
  if validIndex layoutIdx maxLayouts && validIndex groupIdx tuiMaxGroups &&
      validIndex rowIdx tuiMaxRowsPerGroup && layoutIdx.toNat == c then
    some { group := groupIdx.toNat, row := rowIdx.toNat, value := v }
  else none

/-- The update of a row of layout `c` that a call asks for. -/
def Op.rowUpdate (c : Nat) : Op → Option RowUpdate
  | .setRowCols layoutIdx groupIdx rowIdx label values =>
      rowUpdateAt c layoutIdx groupIdx rowIdx
        (.data (truncateTo tuiDataColLen label)
          ((values.take tuiMaxCols).map (truncateTo tuiDataColLen)))
  | .setTextRow layoutIdx groupIdx rowIdx label text =>
      rowUpdateAt c layoutIdx groupIdx rowIdx
        (.text (truncateTo tuiDataColLen label) (truncateTo tuiTextRowLen text))
  | _ => none

/-- What a call does to the buffers of layout `c`. -/
def State.event (c : Nat) (s : State) : Op → Option (BufferEvent RowUpdate)
  | .tick i =>
      if s.running && (s.beforeRender i).currentLayout == c then some .swap else none
  | o => (o.rowUpdate c).map .update

/-- What the calls of a run do to the buffers of layout `c`. -/
def State.events (c : Nat) : State → List Op → List (BufferEvent RowUpdate)
  | _, [] => []
  | s, o :: os => (s.event c o).toList ++ State.events c (s.op o) os

/-- What a call does to a layout: its buffers take the event. -/
structure Takes (e : Option (BufferEvent RowUpdate)) (before after : TuiLayoutData) : Prop where
  buffer : after.doubleBuffer = before.doubleBuffer.run Frame.apply e.toList
  clean : after.Clean

theorem Takes.none {before after : TuiLayoutData} (h : before.Clean)
    (hbuf : after.dataBuf = before.dataBuf) (hidx : after.dataWriteIdx = before.dataWriteIdx) :
    Takes none before after := by
  have hread : after.readBuf = before.readBuf := by
    unfold TuiLayoutData.readBuf
    rw [hbuf, hidx]
  constructor
  · unfold TuiLayoutData.doubleBuffer
    rw [hread, hbuf, hidx]
    rfl
  · unfold TuiLayoutData.Clean
    rw [hread]
    exact h

/-- Changing a layout leaves the others alone. -/
theorem layouts_updateLayout (i c : Nat) (f : TuiLayoutData → TuiLayoutData) (s : State) :
    (s.updateLayout i f).layouts c = if c = i then f (s.layouts c) else s.layouts c := by
  unfold State.updateLayout
  by_cases hc : c = i
  · subst hc
    simp
  · simp [hc]

theorem takes_updateRow {c : Nat} {s : State} (h : (s.layouts c).Clean)
    {f : TuiDataRow → TuiDataRow} {v : RowValue} (hf : ∀ row, (f row).value = v)
    (layoutIdx groupIdx rowIdx : Int) :
    Takes ((rowUpdateAt c layoutIdx groupIdx rowIdx v).map .update) (s.layouts c)
      ((s.updateRow layoutIdx groupIdx rowIdx f).layouts c) := by
  unfold State.updateRow rowUpdateAt
  generalize (validIndex layoutIdx maxLayouts && validIndex groupIdx tuiMaxGroups &&
      validIndex rowIdx tuiMaxRowsPerGroup) = valid
  cases valid with
  | false => exact Takes.none h rfl rfl
  | true =>
      rw [if_pos rfl, layouts_updateLayout]
      by_cases hc : c = layoutIdx.toNat
      · have hc' : (true && layoutIdx.toNat == c) = true := by simp [hc]
        rw [if_pos hc, if_pos hc']
        exact ⟨doubleBuffer_updateRow hf _ _ _, h.updateRow _ _ f⟩
      · have hc' : ¬ (true && layoutIdx.toNat == c) = true := by simp [Ne.symm hc]
        rw [if_neg hc, if_neg hc']
        exact Takes.none h rfl rfl

/-- Changing only the name and the headers of a layout. -/
theorem takes_updateLayout {c : Nat} {s : State} (h : (s.layouts c).Clean) (i : Nat)
    {f : TuiLayoutData → TuiLayoutData} (hbuf : ∀ l, (f l).dataBuf = l.dataBuf)
    (hidx : ∀ l, (f l).dataWriteIdx = l.dataWriteIdx) :
    Takes none (s.layouts c) ((s.updateLayout i f).layouts c) := by
  rw [layouts_updateLayout]
  split
  · exact Takes.none h (hbuf _) (hidx _)
  · exact Takes.none h rfl rfl

theorem layouts_handleKey (buf : Bytes) (s : State) : (s.handleKey buf).layouts = s.layouts := by
  rcases handleKey_cases buf s with ⟨_, _, h⟩ | ⟨_, h⟩ | ⟨_, h⟩
  · rw [h]
  · rw [h, State.showLayout]
  · rw [h]

theorem layouts_handleKeys (skip : Nat) (buf : Bytes) (s : State) :
    (s.handleKeys skip buf).layouts = s.layouts :=
  handleKeys_keeps (P := fun t => t.layouts = s.layouts)
    (fun t buf h => (layouts_handleKey buf t).trans h) skip buf rfl

theorem layouts_drainLog (s : State) : s.drainLog.layouts = s.layouts :=
  drainLog_keeps (P := fun t => t.layouts = s.layouts) (fun _ _ h => h) rfl

theorem layouts_beforeRender (i : TickInput) (s : State) :
    (s.beforeRender i).layouts = s.layouts := by
  unfold State.beforeRender
  show (State.handleKeys 0 _ s.drainLog).layouts = s.layouts
  rw [layouts_handleKeys, layouts_drainLog]

theorem takes_tick {c : Nat} {s : State} (h : (s.layouts c).Clean) (i : TickInput) :
    Takes (s.event c (.tick i)) (s.layouts c) ((s.tick i).layouts c) := by
  unfold State.event State.tick
  dsimp only
  cases s.running with
  | false => exact Takes.none h rfl rfl
  | true =>
      rw [if_pos rfl, State.swapArea1, layouts_updateLayout, layouts_beforeRender]
      by_cases hc : c = (s.beforeRender i).currentLayout
      · have hc' : (true && (s.beforeRender i).currentLayout == c) = true := by simp [hc]
        have hswap := doubleBuffer_swapArea1 h
        rw [if_pos hc, if_pos hc']
        exact ⟨hswap.1, hswap.2⟩
      · have hc' : ¬ (true && (s.beforeRender i).currentLayout == c) = true := by
          simp [Ne.symm hc]
        rw [if_neg hc, if_neg hc']
        exact Takes.none h rfl rfl

/-- Every call does to the buffers of a layout what its event says. -/
theorem takes_op {c : Nat} {s : State} (h : (s.layouts c).Clean) (o : Op) :
    Takes (s.event c o) (s.layouts c) ((s.op o).layouts c) := by
  cases o with
  | setLayoutName layoutIdx name =>
      show Takes none _ ((s.setLayoutName layoutIdx name).layouts c)
      unfold State.setLayoutName
      split
      · exact Takes.none h rfl rfl
      · split
        · exact takes_updateLayout h _ (fun _ => rfl) (fun _ => rfl)
        · exact Takes.none h rfl rfl
  | setGroup layoutIdx groupIdx labelHdr colHdrs =>
      show Takes none _ ((s.setGroup layoutIdx groupIdx labelHdr colHdrs).layouts c)
      unfold State.setGroup
      split
      · exact takes_updateLayout h _ (fun _ => rfl) (fun _ => rfl)
      · exact Takes.none h rfl rfl
  | setGroupNoHeader layoutIdx groupIdx =>
      show Takes none _ ((s.setGroupNoHeader layoutIdx groupIdx).layouts c)
      unfold State.setGroupNoHeader
      split
      · exact takes_updateLayout h _ (fun _ => rfl) (fun _ => rfl)
      · exact Takes.none h rfl rfl
  | setRowCols layoutIdx groupIdx rowIdx label values =>
      exact takes_updateRow h (value_setCols label values) layoutIdx groupIdx rowIdx
  | setTextRow layoutIdx groupIdx rowIdx label text =>
      exact takes_updateRow h (value_setText label text) layoutIdx groupIdx rowIdx
  | logV level text =>
      show Takes none _ ((s.logV level text).layouts c)
      unfold State.logV State.tryPush
      split
      · exact Takes.none h rfl rfl
      · exact Takes.none h rfl rfl
  | popPendingKey => exact Takes.none h rfl rfl
  | tick i => exact takes_tick h i
  | stop => exact Takes.none h rfl rfl

/-- A layout in a run: its buffers are those of a double buffer. -/
theorem doubleBuffer_ops {c : Nat} {s : State} (h : (s.layouts c).Clean) (os : List Op) :
    ((s.ops os).layouts c).doubleBuffer =
        (s.layouts c).doubleBuffer.run Frame.apply (s.events c os) ∧
      ((s.ops os).layouts c).Clean := by
  induction os generalizing s with
  | nil => exact ⟨rfl, h⟩
  | cons o os ih =>
      have hop := takes_op h o
      have hrest := ih hop.clean
      rw [hop.buffer] at hrest
      show ((State.ops (s.op o) os).layouts c).doubleBuffer = _ ∧ _
      constructor
      · rw [hrest.1]
        exact (List.foldl_append ..).symm
      · exact hrest.2

/-- The buffers that are shown are clean in every run. -/
theorem clean_ops (c : Nat) (os : List Op) : ((State.init.ops os).layouts c).Clean := by
  have hinit : (State.init.layouts c).Clean := rfl
  exact (doubleBuffer_ops hinit os).2

/-- Only a running `Tick` that renders a layout swaps its buffers. -/
theorem tick_of_event {c : Nat} {s : State} {o : Op} (h : s.event c o = some .swap) :
    ∃ i, o = .tick i ∧ s.running = true ∧ (s.beforeRender i).currentLayout = c := by
  have hupdate : ∀ u : Option RowUpdate, u.map BufferEvent.update ≠ some .swap := by
    intro u
    cases u <;> simp
  cases o with
  | tick i =>
      unfold State.event at h
      dsimp only at h
      split at h
      · rename_i hswap
        rw [Bool.and_eq_true, beq_iff_eq] at hswap
        apply Exists.intro i
        constructor
        · rfl
        · exact hswap
      · contradiction
  | setRowCols layoutIdx groupIdx rowIdx label values => exact absurd h (hupdate _)
  | setTextRow layoutIdx groupIdx rowIdx label text => exact absurd h (hupdate _)
  | _ => cases h

/-! ## Runs -/

/-- The batches of updates between the renderings of layout `c`. -/
def batches (c : Nat) (os : List Op) : Batches RowUpdate :=
  Batches.after (State.init.events c os)

theorem events_concat (c : Nat) (s : State) (os : List Op) (o : Op) :
    s.events c (os ++ [o]) = s.events c os ++ ((s.ops os).event c o).toList := by
  induction os generalizing s with
  | nil =>
      show (s.event c o).toList ++ [] = [] ++ (s.event c o).toList
      rw [List.append_nil, List.nil_append]
  | cons o' os ih =>
      show (s.event c o').toList ++ (s.op o').events c (os ++ [o]) = _
      rw [ih, ← List.append_assoc]
      rfl

/-- The updates in the events of a run are those that its calls ask for. -/
theorem updates_events (c : Nat) (s : State) (os : List Op) :
    (s.events c os).filterMap BufferEvent.update? = os.filterMap (Op.rowUpdate c) := by
  have hevent : ∀ (s : State) (o : Op),
      (s.event c o).toList.filterMap BufferEvent.update? = (o.rowUpdate c).toList := by
    intro s o
    cases o with
    | tick i =>
        unfold State.event
        dsimp only
        split <;> rfl
    | setRowCols layoutIdx groupIdx rowIdx label values =>
        show ((Op.rowUpdate c (.setRowCols layoutIdx groupIdx rowIdx label values)).map
          BufferEvent.update).toList.filterMap _ = _
        cases Op.rowUpdate c (.setRowCols layoutIdx groupIdx rowIdx label values) <;> rfl
    | setTextRow layoutIdx groupIdx rowIdx label text =>
        show ((Op.rowUpdate c (.setTextRow layoutIdx groupIdx rowIdx label text)).map
          BufferEvent.update).toList.filterMap _ = _
        cases Op.rowUpdate c (.setTextRow layoutIdx groupIdx rowIdx label text) <;> rfl
    | setLayoutName layoutIdx name => rfl
    | setGroup layoutIdx groupIdx labelHdr colHdrs => rfl
    | setGroupNoHeader layoutIdx groupIdx => rfl
    | logV level text => rfl
    | popPendingKey => rfl
    | stop => rfl
  induction os generalizing s with
  | nil => rfl
  | cons o os ih =>
      show ((s.event c o).toList ++ (s.op o).events c os).filterMap _ = _
      rw [List.filterMap_append, hevent, ih, List.filterMap_cons]
      cases o.rowUpdate c <;> rfl

/-- The next `Tick` renders its layout from a buffer that holds, for every row, the value
of the most recent update in the run and, for every group, the number of its rows. -/
def ShowsLatest (os : List Op) (i : TickInput) : Prop :=
  let c := ((State.init.ops os).beforeRender i).currentLayout
  let us := os.filterMap (Op.rowUpdate c)
  let buf := (((State.init.ops os).tick i).layouts c).readBuf
  ∀ g, (∀ r, ((buf.groups g).rows r).value = latestValue g r us) ∧
    (buf.groups g).nrows = rowCount g us

/-- The layout that the next `Tick` renders was not updated since its last batch, or
the last batch is unchanged or updated again. -/
def Refreshed (os : List Op) (i : TickInput) : Prop :=
  let h := batches ((State.init.ops os).beforeRender i).currentLayout os
  h.current ≠ [] → Unchanged h

/-- Every running `Tick` of a run meets a condition on the calls before it. -/
def AtTicks (P : List Op → TickInput → Prop) (os : List Op) : Prop :=
  ∀ p i q, os = p ++ .tick i :: q → (State.init.ops p).running = true → P p i

theorem atTicks_concat (P : List Op → TickInput → Prop) (os : List Op) (o : Op) :
    AtTicks P (os ++ [o]) ↔
      AtTicks P os ∧ ∀ i, o = .tick i → (State.init.ops os).running = true → P os i := by
  constructor
  · intro h
    constructor
    · intro p i q hos
      apply h p i (q ++ [o])
      rw [hos, List.append_assoc]
      rfl
    · intro i ho
      apply h os i []
      rw [ho]
  · rintro ⟨hos, ho⟩ p i q heq
    rcases List.eq_nil_or_concat q with hnil | ⟨q', o', hq⟩
    · rw [hnil] at heq
      have hsplit := List.append_inj' heq rfl
      rw [← hsplit.1]
      exact ho i (List.singleton_inj.mp hsplit.2)
    · rw [hq, List.concat_eq_append, ← List.cons_append, ← List.append_assoc] at heq
      exact hos p i q' (List.append_inj' heq rfl).1

/-- While every `Tick` so far showed the latest rows, the next one does so exactly when
the rows of the last batch are updated again or unchanged. -/
theorem showsLatest_iff {os : List Op} (i : TickInput)
    (hrunning : (State.init.ops os).running = true)
    (hstep : ∀ c, InStep Frame.apply Frame.blank ((State.init.ops os).layouts c).doubleBuffer
      (batches c os)) : ShowsLatest os i ↔ Refreshed os i := by
  unfold ShowsLatest Refreshed
  dsimp only
  generalize hcurrent : ((State.init.ops os).beforeRender i).currentLayout = c
  have hevent : (State.init.ops os).event c (.tick i) = some .swap := by
    simp [State.event, hrunning, hcurrent]
  have hswap := (takes_tick (clean_ops c os) i).buffer
  rw [hevent] at hswap
  have hshown : (((State.init.ops os).tick i).layouts c).readBuf.frame =
      ((State.init.ops os).layouts c).doubleBuffer.swap.front :=
    congrArg DoubleBuffer.front hswap
  have hall : (batches c os).all = os.filterMap (Op.rowUpdate c) :=
    (Batches.all_after _).trans (updates_events c _ os)
  rw [← refreshed_iff, ← (hstep c).front_swap_iff, ← hshown, foldl_apply, hall]
  constructor
  · intro hlatest
    apply Frame.ext
    · funext g r
      exact (hlatest g).1 r
    · funext g
      exact (hlatest g).2
  · intro hframe g
    constructor
    · intro r
      exact congrFun (congrFun (congrArg Frame.value hframe) g) r
    · exact congrFun (congrArg Frame.nrows hframe) g

/-- As long as the last batches are refreshed, the front buffers lack nothing and the
back buffers lack the last batch. -/
theorem inStep_concat {os : List Op} (o : Op)
    (hstep : ∀ c, InStep Frame.apply Frame.blank ((State.init.ops os).layouts c).doubleBuffer
      (batches c os))
    (href : ∀ i, o = .tick i → (State.init.ops os).running = true → Refreshed os i) (c : Nat) :
    InStep Frame.apply Frame.blank ((State.init.ops (os ++ [o])).layouts c).doubleBuffer
      (batches c (os ++ [o])) := by
  have hop := (takes_op (clean_ops c os) o).buffer
  have hstate : State.init.ops (os ++ [o]) = (State.init.ops os).op o := List.foldl_concat ..
  have hbatches : batches c (os ++ [o]) =
      ((State.init.ops os).event c o).toList.foldl Batches.step (batches c os) := by
    unfold batches Batches.after
    rw [events_concat, List.foldl_append]
  rw [hstate, hop, hbatches]
  cases hevent : (State.init.ops os).event c o with
  | none => exact hstep c
  | some e =>
      apply (hstep c).step e
      intro he
      subst he
      rcases tick_of_event hevent with ⟨i, ho, hrunning, hcurrent⟩
      have hrefreshed := href i ho hrunning
      unfold Refreshed at hrefreshed
      rw [hcurrent] at hrefreshed
      exact (refreshed_iff _).mpr hrefreshed

theorem inStep_run (os : List Op) (h : AtTicks Refreshed os) (c : Nat) :
    InStep Frame.apply Frame.blank ((State.init.ops os).layouts c).doubleBuffer
      (batches c os) := by
  induction os using List.reverseRecOn generalizing c with
  | nil => exact InStep.initial _ _
  | append_singleton os o ih =>
      have hsplit := (atTicks_concat Refreshed os o).mp h
      exact inStep_concat o (ih hsplit.1) hsplit.2 c

/-- For every run of calls that do not overlap: every `Tick` renders from a buffer with
the latest value of every row and the row counts so far, exactly when at every `Tick` of
a layout that was updated since its last rendering, the rows of the batch shown there
last have been updated again or have not changed with that batch. -/
theorem latest_rows_shown_iff (os : List Op) :
    (∀ p i q, os = p ++ .tick i :: q → (State.init.ops p).running = true → ShowsLatest p i) ↔
      ∀ p i q, os = p ++ .tick i :: q → (State.init.ops p).running = true → Refreshed p i := by
  show AtTicks ShowsLatest os ↔ AtTicks Refreshed os
  induction os using List.reverseRecOn with
  | nil =>
      constructor
      · intro _ p i q hnil
        exact absurd hnil.symm (List.append_ne_nil_of_right_ne_nil p (List.cons_ne_nil _ _))
      · intro _ p i q hnil
        exact absurd hnil.symm (List.append_ne_nil_of_right_ne_nil p (List.cons_ne_nil _ _))
  | append_singleton os o ih =>
      rw [atTicks_concat, atTicks_concat, ih]
      apply and_congr_right
      intro href
      have hstep := inStep_run os href
      apply forall_congr'
      intro i
      apply imp_congr_right
      intro _
      apply imp_congr_right
      intro hrunning
      exact showsLatest_iff i hrunning hstep

/-! ## Rows at different rates -/

/-- A `Tick` without a key on a terminal of 40 lines. -/
def idleTick : TickInput where
  keys := []
  winsize := some (40, 120)

/-- A row that is set once, and a second row that is set after the first `Tick`. -/
def slowRow : List Op :=
  [.setRowCols 0 0 0 [97] [[49]], .tick idleTick, .setRowCols 0 0 1 [98] [[50]]]

/-- The second `Tick` shows a blank first row. -/
theorem slow_row_lost :
    ¬ ∀ p i q, slowRow ++ [.tick idleTick] = p ++ .tick i :: q →
      (State.init.ops p).running = true → ShowsLatest p i := by
  intro h
  have hlatest := h slowRow idleTick [] rfl rfl
  have hcurrent : ((State.init.ops slowRow).beforeRender idleTick).currentLayout = 0 := by decide
  have hlost : (((((State.init.ops slowRow).tick idleTick).layouts 0).readBuf.groups 0).rows
      0).value = .blank := by
    decide
  have hupdate : latestValue 0 0 (slowRow.filterMap (Op.rowUpdate 0)) = .data [97] [[49]] := by
    decide
  unfold ShowsLatest at hlatest
  dsimp only at hlatest
  rw [hcurrent] at hlatest
  have hvalue := (hlatest 0).1 0
  rw [hlost, hupdate] at hvalue
  contradiction

end RtTui
end Log
end DtCore
