import DtCore.Log.RtTui.Memory

/-!
# What the arrays of the terminal user interface hold

The arrays hold what the model without arrays says they hold.  The setters keep this: with any
indices and any strings a setter has a result, and what the arrays hold afterwards is what the
setter of the other model makes of what they held before.

Main definitions:

- `TuiDataRow.Holds`, `TuiGroupHeader.Holds`, `TuiLayoutData.Holds`: what a part holds.
- `State.Holds`: what the members hold.

Main results:

- Theorem `holds_setGroup`: `SetGroup`.
- Theorems `holds_setRowFmt`, `holds_setRowCols`, `holds_setTextRow`: the rows.
-/

namespace DtCore
namespace Log
namespace RtTui
namespace Memory

open Foundation RtLog

/-! ## The relation -/

/-- An array with a string. -/
def HasText {size : Nat} (b : Chars size) (text : Bytes) : Prop :=
  b.string = some text

structure TuiDataRow.Holds (dr : TuiDataRow) (row : RtTui.TuiDataRow) : Prop where
  label : HasText dr.label row.label
  col : dr.col.Holds HasText row.col
  ncols : dr.ncols = row.ncols
  textMode : dr.textMode = row.textMode
  text : HasText dr.text row.text

structure TuiGroupRowData.Holds (gdata : TuiGroupRowData) (group : RtTui.TuiGroupRowData) :
    Prop where
  rows : gdata.rows.Holds TuiDataRow.Holds group.rows
  nrows : gdata.nrows = group.nrows
  nrows_le : group.nrows ≤ tuiMaxRowsPerGroup

structure TuiDataBuffer.Holds (dbuf : TuiDataBuffer) (buf : RtTui.TuiDataBuffer) : Prop where
  groups : dbuf.groups.Holds TuiGroupRowData.Holds buf.groups
  dirty : dbuf.dirty = buf.dirty

/-- A negative number of columns is one like zero. -/
structure TuiGroupHeader.Holds (gh : TuiGroupHeader) (header : RtTui.TuiGroupHeader) : Prop where
  label : HasText gh.label header.label
  cols : gh.cols.Holds HasText header.cols
  ncols : gh.ncols.toNat = header.ncols
  active : gh.active = header.active
  hideHeader : gh.hideHeader = header.hideHeader

/-- The index of a data buffer. -/
def bufIdx (b : Bool) : Nat :=
  if b then 1 else 0

structure TuiLayoutData.Holds (layout : TuiLayoutData) (l : RtTui.TuiLayoutData) : Prop where
  name : HasText layout.name l.name
  groupHeaders : layout.groupHeaders.Holds TuiGroupHeader.Holds l.groupHeaders
  dataBuf : layout.dataBuf.Holds TuiDataBuffer.Holds (fun i => l.dataBuf (i == 1))
  dataWriteIdx : layout.dataWriteIdx = bufIdx l.dataWriteIdx
  defined : layout.defined = l.defined

def TuiLogEntry.Holds (e : TuiLogEntry) (entry : RtTui.TuiLogEntry) : Prop :=
  HasText e.msg entry.msg

structure State.Holds (s : State) (t : RtTui.State) : Prop where
  logQueue : List.Forall₂ TuiLogEntry.Holds s.logQueue t.logQueue
  layouts : s.layouts.Holds TuiLayoutData.Holds t.layouts
  currentLayout : s.currentLayout = t.currentLayout
  currentLayout_lt : t.currentLayout < maxLayouts
  layoutChanged : s.layoutChanged = t.layoutChanged
  logHistory : s.logHistory.Holds TuiLogEntry.Holds t.logHistory.cells
  logHead : s.logHead = t.logHistory.head
  logCount : s.logCount = t.logHistory.count
  scrollOffset : s.scrollOffset = t.scrollOffset
  autoScroll : s.autoScroll = t.autoScroll
  lastKey : s.lastKey = t.lastKey
  running : s.running = t.running
  termRows : s.termRows = t.termRows
  termCols : s.termCols = t.termCols
  prevTermRows : s.prevTermRows = t.prevTermRows
  prevTermCols : s.prevTermCols = t.prevTermCols

theorem validIndex_iff {i : Int} {n : Nat} : validIndex i n = true ↔ 0 ≤ i ∧ i < n := by
  unfold validIndex
  rw [Bool.and_eq_true, decide_eq_true_eq, decide_eq_true_eq]

/-! ## Strings -/

/-- `strncpy` and a terminator. -/
theorem hasText_copyString {size : Nat} (b : Chars size) (h : 0 < size) (src : Bytes) :
    Ensures (fun b' => HasText b' (truncateTo size (stringAt src))) (b.copyString src) :=
  b.string_copyString h src

theorem hasText_printIn {size : Nat} (b : Chars size) (h : 0 < size) (text : Bytes) :
    Ensures (fun b' => HasText b' (truncateTo size (stringAt text))) (b.printIn 0 size text) :=
  b.string_printIn h (Nat.le_refl _) text

/-- The string at a pointer, which may be a null pointer. -/
def pointed (src : Option Bytes) : Bytes :=
  stringAt (src.getD [])

theorem hasText_copyOrClear {size : Nat} (b : Chars size) (h : 0 < size) (src : Option Bytes) :
    Ensures (fun b' => HasText b' (truncateTo size (pointed src))) (copyOrClear src b) := by
  cases src with
  | none =>
      refine (b.string_set_zero h).imp (fun b' hb' => ?_)
      have hnil : truncateTo size (pointed none) = [] := List.take_nil
      rw [hnil]
      exact hb'
  | some src => exact hasText_copyString b h src

/-! ## Layouts -/

theorem State.Holds.updateLayout {s : State} {t : RtTui.State} (h : s.Holds t) {i : Int}
    (hi : validIndex i maxLayouts = true) {f : TuiLayoutData → Option TuiLayoutData}
    {g : RtTui.TuiLayoutData → RtTui.TuiLayoutData}
    (hf : ∀ layout l, layout.Holds l → Ensures (fun layout' => layout'.Holds (g l)) (f layout)) :
    Ensures (fun s' => s'.Holds (t.updateLayout i.toNat g)) (s.updateLayout i f) := by
  rcases validIndex_iff.mp hi with ⟨h0, hlt⟩
  refine (h.layouts.modify h0 hlt (fun layout hl => hf layout _ hl)).map (fun layouts hl => ?_)
  exact { h with layouts := hl }

theorem holds_setLayoutName {s : State} {t : RtTui.State} (h : s.Holds t) (layoutIdx : Int)
    (name : Option Bytes) :
    Ensures (fun s' => s'.Holds (t.setLayoutName layoutIdx (name.map stringAt)))
      (s.setLayoutName layoutIdx name) := by
  cases name with
  | none => exact ensures_some h
  | some name =>
      unfold State.setLayoutName RtTui.State.setLayoutName
      dsimp only [Option.map_some]
      split
      · rename_i hi
        refine h.updateLayout hi (fun layout l hl => ?_)
        refine (hasText_copyString layout.name (by decide) name).map (fun b hb => ?_)
        exact { hl with name := hb, defined := rfl }
      · exact ensures_some h

theorem TuiLayoutData.Holds.updateHeader {layout : TuiLayoutData} {l : RtTui.TuiLayoutData}
    (h : layout.Holds l) {g : Int} (hg : validIndex g tuiMaxGroups = true)
    {f : TuiGroupHeader → Option TuiGroupHeader}
    {f' : RtTui.TuiGroupHeader → RtTui.TuiGroupHeader}
    (hf : ∀ gh header, gh.Holds header → Ensures (fun gh' => gh'.Holds (f' header)) (f gh)) :
    Ensures (fun layout' => layout'.Holds (l.updateHeader g.toNat f'))
      (layout.updateHeader g f) := by
  rcases validIndex_iff.mp hg with ⟨h0, hlt⟩
  refine (h.groupHeaders.modify h0 hlt (fun gh hgh => hf gh _ hgh)).map (fun headers hh => ?_)
  exact { h with groupHeaders := hh, defined := rfl }

/-- The column headers that a call of `SetGroup` gets. -/
def headersOf (colHdrs : Int → Option Bytes) (ncols : Int) : List (Option Bytes) :=
  (List.range ncols.toNat).map (fun i : Nat => (colHdrs i).map stringAt)

@[simp]
theorem length_headersOf (colHdrs : Int → Option Bytes) (ncols : Int) :
    (headersOf colHdrs ncols).length = ncols.toNat := by
  rw [headersOf, List.length_map, List.length_range]

theorem headersOf_getD (colHdrs : Int → Option Bytes) {ncols : Int} {i : Nat}
    (h : i < ncols.toNat) :
    ((headersOf colHdrs ncols).getD i none).getD [] = pointed (colHdrs i) := by
  rw [headersOf, List.getD_eq_getElem?_getD, List.getElem?_map, List.getElem?_range h]
  show ((colHdrs i).map stringAt).getD [] = stringAt ((colHdrs i).getD [])
  cases colHdrs i with
  | none => rfl
  | some header => rfl

/-- The clamp of a number of columns. -/
theorem toNat_clamp (ncols : Int) :
    (if ncols > tuiMaxCols then (tuiMaxCols : Int) else ncols).toNat =
      min ncols.toNat tuiMaxCols := by
  have hmax : tuiMaxCols = 10 := rfl
  split
  · omega
  · omega

theorem holds_setGroup {s : State} {t : RtTui.State} (h : s.Holds t)
    (layoutIdx groupIdx : Int) (labelHdr : Bytes) (colHdrs : Int → Option Bytes) (ncols : Int) :
    Ensures (fun s' => s'.Holds (t.setGroup layoutIdx groupIdx (stringAt labelHdr)
        (headersOf colHdrs ncols)))
      (s.setGroup layoutIdx groupIdx labelHdr colHdrs ncols) := by
  unfold State.setGroup RtTui.State.setGroup
  split
  · rename_i hvalid
    rcases (Bool.and_eq_true _ _).mp hvalid with ⟨hi, hg⟩
    refine h.updateLayout hi (fun layout l hl => hl.updateHeader hg (fun gh header hgh => ?_))
    unfold TuiGroupHeader.setGroup
    refine (hasText_copyString gh.label (by decide) labelHdr).bind (fun label hlabel => ?_)
    have hcols := hgh.cols.forRange (c := fun i => copyOrClear (colHdrs i))
      (g := fun i => truncateTo tuiDataColLen (pointed (colHdrs i))) 0
      (min ncols.toNat tuiMaxCols) (Nat.zero_le _) (Nat.min_le_right _ _)
      (fun i _ _ col _ => hasText_copyOrClear col (by decide) (colHdrs i))
    dsimp only
    rw [forRange_toNat, toNat_clamp]
    refine hcols.bind (fun cols hcols => ensures_some ?_)
    refine { hgh with label := hlabel, cols := ?_, ncols := ?_, active := rfl }
    · refine hcols.congr (fun i _ => ?_)
      by_cases hi : i < min ncols.toNat tuiMaxCols
      · rw [if_pos ⟨Nat.zero_le _, hi⟩]
        dsimp only
        rw [length_headersOf, if_pos hi, headersOf_getD colHdrs (by omega)]
      · rw [if_neg (fun hin => hi hin.2)]
        dsimp only
        rw [length_headersOf, if_neg hi]
    · dsimp only
      rw [length_headersOf, toNat_clamp]
  · exact ensures_some h

theorem holds_setGroupNoHeader {s : State} {t : RtTui.State} (h : s.Holds t)
    (layoutIdx groupIdx : Int) :
    Ensures (fun s' => s'.Holds (t.setGroupNoHeader layoutIdx groupIdx))
      (s.setGroupNoHeader layoutIdx groupIdx) := by
  unfold State.setGroupNoHeader RtTui.State.setGroupNoHeader
  split
  · rename_i hvalid
    rcases (Bool.and_eq_true _ _).mp hvalid with ⟨hi, hg⟩
    refine h.updateLayout hi (fun layout l hl => hl.updateHeader hg (fun gh header hgh => ?_))
    refine (gh.label.string_set_zero (by decide)).map (fun label hlabel => ?_)
    exact { hgh with label := hlabel, ncols := rfl, hideHeader := rfl, active := rfl }
  · exact ensures_some h

/-! ## Data rows -/

/-- A change of the buffer that updates go to. -/
theorem holds_update_dataBuf {b : Block TuiDataBuffer 2} {bufs : Bool → RtTui.TuiDataBuffer}
    {w : Bool} {buf : RtTui.TuiDataBuffer}
    (h : b.Holds TuiDataBuffer.Holds
      (Function.update (fun i => bufs (i == 1)) (bufIdx w) buf)) :
    b.Holds TuiDataBuffer.Holds (fun i => Function.update bufs w buf (i == 1)) := by
  refine h.congr (fun i hi => ?_)
  by_cases heq : i = bufIdx w
  · have hw : (i == 1) = w := by
      rw [heq]
      cases w <;> rfl
    rw [heq, Function.update_self, ← heq, hw, Function.update_self]
  · have hw : (i == 1) ≠ w := by
      intro hw
      apply heq
      rw [← hw]
      unfold bufIdx
      by_cases hone : i = 1
      · rw [hone]
        rfl
      · have hzero : i = 0 := by omega
        rw [hzero]
        rfl
    rw [Function.update_of_ne heq, Function.update_of_ne hw]

theorem TuiDataBuffer.Holds.updateRow {dbuf : TuiDataBuffer} {buf : RtTui.TuiDataBuffer}
    (h : dbuf.Holds buf) {g r : Int} (hg : validIndex g tuiMaxGroups = true)
    (hr : validIndex r tuiMaxRowsPerGroup = true) {f : TuiDataRow → Option TuiDataRow}
    {f' : RtTui.TuiDataRow → RtTui.TuiDataRow}
    (hf : ∀ dr row, dr.Holds row → Ensures (fun dr' => dr'.Holds (f' row)) (f dr)) :
    Ensures (fun dbuf' => dbuf'.Holds (buf.updateRow g.toNat r.toNat f'))
      (dbuf.updateRow g r f) := by
  rcases validIndex_iff.mp hg with ⟨hg0, hglt⟩
  rcases validIndex_iff.mp hr with ⟨hr0, hrlt⟩
  have hgroup : ∀ gdata : TuiGroupRowData, gdata.Holds (buf.groups g.toNat) →
      Ensures (fun gdata' : TuiGroupRowData => gdata'.Holds
          { rows := Function.update (buf.groups g.toNat).rows r.toNat
              (f' ((buf.groups g.toNat).rows r.toNat))
            nrows := max (buf.groups g.toNat).nrows (r.toNat + 1) })
        ((gdata.rows.modify r f).map (fun rows =>
          { rows := rows, nrows := max gdata.nrows (r + 1) })) := by
    intro gdata h
    have hnrows := h.nrows
    have hle := h.nrows_le
    refine (h.rows.modify hr0 hrlt (fun dr hdr => hf dr _ hdr)).map (fun rows hrows => ?_)
    refine { rows := hrows, nrows := ?_, nrows_le := ?_ }
    · dsimp only
      omega
    · dsimp only
      omega
  refine (h.groups.modify hg0 hglt hgroup).map (fun groups hgroups => ?_)
  exact { groups := hgroups, dirty := rfl }

theorem TuiLayoutData.Holds.updateRow {layout : TuiLayoutData} {l : RtTui.TuiLayoutData}
    (h : layout.Holds l) {g r : Int} (hg : validIndex g tuiMaxGroups = true)
    (hr : validIndex r tuiMaxRowsPerGroup = true) {f : TuiDataRow → Option TuiDataRow}
    {f' : RtTui.TuiDataRow → RtTui.TuiDataRow}
    (hf : ∀ dr row, dr.Holds row → Ensures (fun dr' => dr'.Holds (f' row)) (f dr)) :
    Ensures (fun layout' => layout'.Holds (l.updateRow g.toNat r.toNat f'))
      (layout.updateRow g r f) := by
  have hw : (bufIdx l.dataWriteIdx == 1) = l.dataWriteIdx := by
    cases l.dataWriteIdx <;> rfl
  have hwlt : (bufIdx l.dataWriteIdx : Int) < (2 : Nat) := by
    cases l.dataWriteIdx <;> decide
  unfold TuiLayoutData.updateRow
  dsimp only
  rw [h.dataWriteIdx]
  have hbuf : ∀ dbuf : TuiDataBuffer,
      dbuf.Holds (l.dataBuf ((bufIdx l.dataWriteIdx : Int).toNat == 1)) →
      Ensures (fun dbuf' => dbuf'.Holds ((l.dataBuf l.dataWriteIdx).updateRow g.toNat r.toNat f'))
        (dbuf.updateRow g r f) := by
    intro dbuf hd
    rw [Int.toNat_natCast, hw] at hd
    exact hd.updateRow hg hr hf
  refine (h.dataBuf.modify (by omega) hwlt hbuf).map (fun dataBuf hdata => ?_)
  rw [Int.toNat_natCast] at hdata
  exact { h with dataBuf := holds_update_dataBuf hdata, dataWriteIdx := rfl, defined := rfl }

theorem State.Holds.updateRow {s : State} {t : RtTui.State} (h : s.Holds t)
    (layoutIdx groupIdx rowIdx : Int) {f : TuiDataRow → Option TuiDataRow}
    {f' : RtTui.TuiDataRow → RtTui.TuiDataRow}
    (hf : ∀ dr row, dr.Holds row → Ensures (fun dr' => dr'.Holds (f' row)) (f dr)) :
    Ensures (fun s' => s'.Holds (t.updateRow layoutIdx groupIdx rowIdx f'))
      (s.updateRow layoutIdx groupIdx rowIdx f) := by
  unfold State.updateRow RtTui.State.updateRow validRow
  split
  · rename_i hvalid
    rcases (Bool.and_eq_true _ _).mp hvalid with ⟨hboth, hr⟩
    rcases (Bool.and_eq_true _ _).mp hboth with ⟨hi, hg⟩
    exact h.updateLayout hi (fun layout l hl => hl.updateRow hg hr hf)
  · exact ensures_some h

theorem holds_setTextRow {s : State} {t : RtTui.State} (h : s.Holds t)
    (layoutIdx groupIdx rowIdx : Int) (label text : Bytes) :
    Ensures (fun s' => s'.Holds (t.setTextRow layoutIdx groupIdx rowIdx (stringAt label)
        (stringAt text)))
      (s.setTextRow layoutIdx groupIdx rowIdx label text) := by
  refine h.updateRow layoutIdx groupIdx rowIdx (fun dr row hdr => ?_)
  unfold TuiDataRow.setText
  refine (hasText_copyString dr.label (by decide) label).bind (fun b hb => ?_)
  refine (hasText_copyString dr.text (by decide) text).bind (fun b' hb' => ensures_some ?_)
  exact { hdr with label := hb, textMode := rfl, text := hb', ncols := rfl }

/-- A pointer to a string. -/
def PointsTo (src : Option Bytes) (text : Bytes) : Prop :=
  pointed src = text

/-- The row that `SetRowData` writes, when the pointers that count point to the columns of the
other model. -/
theorem holds_setCols {dr : TuiDataRow} {row : RtTui.TuiDataRow} (h : dr.Holds row)
    (label : Bytes) {ptrs : Block (Option Bytes) tuiMaxCols} {texts : Nat → Bytes}
    (hptrs : ptrs.Holds PointsTo texts) {cols : List (Option Bytes)}
    (hlen : cols.length ≤ tuiMaxCols)
    (htexts : ∀ i < cols.length, (cols.getD i none).getD [] = texts i) :
    Ensures (fun dr' => dr'.Holds (row.setCols (stringAt label) cols))
      (dr.setCols label ptrs cols.length) := by
  unfold TuiDataRow.setCols
  dsimp only
  rw [if_neg (by omega)]
  refine (hasText_copyString dr.label (by decide) label).bind (fun b hb => ?_)
  have hfirst := h.col.forRange
    (c := fun i dst => do
      let src ← ptrs.get i
      copyOrClear src dst)
    (g := fun i => truncateTo tuiDataColLen (texts i)) 0 cols.length (Nat.zero_le _) hlen
    (fun i _ hi dst _ => (hptrs.get (by omega) (by omega)).bind (fun src hsrc => by
      rw [Int.toNat_natCast] at hsrc
      rw [← hsrc]
      exact hasText_copyOrClear dst (by decide) src))
  refine hfirst.bind (fun col hcol => ?_)
  have hsecond := hcol.forRange (c := fun _ dst => dst.set 0 0) (g := fun _ => [])
    cols.length tuiMaxCols hlen (Nat.le_refl _) (fun i _ _ dst _ =>
      dst.string_set_zero (by decide))
  refine hsecond.bind (fun col' hcol' => ensures_some ?_)
  have hmin : min cols.length tuiMaxCols = cols.length := Nat.min_eq_left hlen
  refine { h with label := hb, ncols := ?_, textMode := rfl, col := ?_ }
  · refine hcol'.congr (fun i hi => ?_)
    show _ = if i < min cols.length tuiMaxCols then _ else if i < tuiMaxCols then _ else _
    rw [hmin]
    by_cases hlt : i < cols.length
    · rw [if_neg (by omega), if_pos ⟨Nat.zero_le _, hlt⟩, if_pos hlt, htexts i hlt]
    · rw [if_pos ⟨by omega, hi⟩, if_neg hlt, if_pos hi]
  · show (cols.length : Int) = (min cols.length tuiMaxCols : Nat)
    rw [hmin]

/-- The texts that `snprintf` stores in the arrays of `SetRowFmt` and `SetRowCols`. -/
def columnText (values : List Bytes) (i : Nat) : Bytes :=
  truncateTo tuiDataColLen (stringAt (values.getD i []))

theorem columnCount_eq (values : List Bytes) :
    columnCount values = (min values.length tuiMaxCols : Nat) := by
  have hmax : tuiMaxCols = 10 := rfl
  unfold columnCount
  split
  · omega
  · omega

/-- The recursion prints the remaining values from its index on. -/
theorem holds_formatColumnsRecursive (values : List Bytes) {n : Nat}
    {cols : Block (Chars tuiDataColLen) tuiMaxCols} {f : Nat → Bytes}
    (h : cols.Holds HasText f) :
    Ensures (fun cols' => cols'.Holds HasText (fun i =>
        if n ≤ i ∧ i < n + values.length then columnText values (i - n) else f i))
      (formatColumnsRecursive n cols values) := by
  induction values generalizing n cols f with
  | nil =>
      refine ensures_some (h.congr (fun i _ => ?_))
      rw [if_neg (fun hin => absurd hin.2 (by
        rw [List.length_nil]
        omega))]
  | cons value rest ih =>
      unfold formatColumnsRecursive
      split
      · refine ensures_some (h.congr (fun i hi => ?_))
        rw [if_neg (by omega)]
      · rename_i hlt
        have hmod := h.modify (g := fun buf => buf.printIn 0 tuiDataColLen value) (by omega)
          (by omega : (n : Int) < tuiMaxCols) (fun buf _ => hasText_printIn buf (by decide) value)
        refine hmod.bind (fun cols' hcols' => ?_)
        rw [Int.toNat_natCast] at hcols'
        refine (ih (n := n + 1) hcols').imp (fun cols'' hcols'' => hcols''.congr (fun i _ => ?_))
        rw [List.length_cons]
        by_cases heq : i = n
        · rw [if_neg (by omega), if_pos (by omega), heq, Function.update_self, Nat.sub_self]
          rfl
        · rw [Function.update_of_ne heq]
          by_cases hin : n + 1 ≤ i ∧ i < n + 1 + rest.length
          · have hidx : i - n = (i - (n + 1)) + 1 := by omega
            rw [if_pos hin, if_pos (by omega), hidx]
            rfl
          · rw [if_neg hin, if_neg (by omega)]

/-- The pointers to arrays with strings point to these strings. -/
theorem holds_columnPointers {source : Int → Option (Chars tuiDataColLen)} {f : Nat → Bytes}
    {n : Nat} (hn : n ≤ tuiMaxCols)
    (hsource : ∀ i < n, Ensures (fun buf => HasText buf (f i)) (source i)) :
    Ensures (fun ptrs => ptrs.Holds PointsTo (fun i => if 0 ≤ i ∧ i < n then f i else []))
      (columnPointers source n) := by
  have hnone : (Block.fill none : Block (Option Bytes) tuiMaxCols).Holds PointsTo
      (fun _ => []) := Block.holds_fill (fun _ _ => rfl)
  refine hnone.forRange (c := fun i _ => (source i).map (fun buf => some buf.cells))
    0 n (Nat.zero_le _) hn (fun i _ hi _ _ => ?_)
  exact (hsource i hi).map (fun buf hbuf => Block.stringAt_cells hbuf)

/-- `SetRowData`, with pointers to the texts of some values. -/
theorem holds_setRowData {s : State} {t : RtTui.State} (h : s.Holds t)
    (layoutIdx groupIdx rowIdx : Int) (label : Bytes) (values : List Bytes)
    {ptrs : Block (Option Bytes) tuiMaxCols}
    (hptrs : ptrs.Holds PointsTo (fun i =>
      if 0 ≤ i ∧ i < min values.length tuiMaxCols then columnText values i else [])) :
    Ensures (fun s' => s'.Holds (t.setRowCols layoutIdx groupIdx rowIdx (stringAt label)
        (values.map stringAt)))
      (s.setRowData layoutIdx groupIdx rowIdx label ptrs (columnCount values)) := by
  refine h.updateRow layoutIdx groupIdx rowIdx (fun dr row hdr => ?_)
  have hlen : (((values.map stringAt).take tuiMaxCols).map (fun value =>
      some (truncateTo tuiDataColLen value))).length = min values.length tuiMaxCols := by
    rw [List.length_map, List.length_take, List.length_map, Nat.min_comm]
  have hcount : columnCount values = ((((values.map stringAt).take tuiMaxCols).map (fun value =>
      some (truncateTo tuiDataColLen value))).length : Int) := by
    rw [hlen, columnCount_eq]
  rw [hcount]
  refine holds_setCols hdr label hptrs ?_ ?_
  · rw [hlen]
    exact Nat.min_le_right _ _
  · intro i hi
    rw [hlen] at hi
    have hi' : i < values.length := by omega
    rw [if_pos ⟨Nat.zero_le _, hi⟩, columnText, List.getD_eq_getElem?_getD, List.getElem?_map,
      List.getElem?_take_of_lt (by omega), List.getElem?_map, List.getElem?_eq_getElem hi',
      List.getD_eq_getElem?_getD, List.getElem?_eq_getElem hi']
    rfl

theorem setRowCols_of_invalid {t : RtTui.State} {layoutIdx groupIdx rowIdx : Int}
    (h : ¬ validRow layoutIdx groupIdx rowIdx = true) (label : Bytes) (values : List Bytes) :
    t.setRowCols layoutIdx groupIdx rowIdx label values = t :=
  if_neg h

theorem holds_setRowFmt {s : State} {t : RtTui.State} (h : s.Holds t)
    (layoutIdx groupIdx rowIdx : Int) (label : Bytes) (values : List Bytes) :
    Ensures (fun s' => s'.Holds (t.setRowCols layoutIdx groupIdx rowIdx (stringAt label)
        (values.map stringAt)))
      (s.setRowFmt layoutIdx groupIdx rowIdx label values) := by
  unfold State.setRowFmt
  split
  · have hzero : (Block.fill (Block.fill 0) : Block (Chars tuiDataColLen) tuiMaxCols).Holds
        HasText (fun _ => []) := Block.holds_fill (fun _ _ => Block.string_fill (by decide))
    refine (holds_formatColumnsRecursive values (n := 0) hzero).bind (fun cols hcols => ?_)
    rw [columnCount_eq]
    refine (holds_columnPointers (f := columnText values) (Nat.min_le_right _ _)
      (fun i hi => ?_)).bind (fun ptrs hptrs => ?_)
    · refine (hcols.get (by omega) (by omega)).imp (fun buf hbuf => ?_)
      rw [Int.toNat_natCast, if_pos (by omega)] at hbuf
      exact hbuf
    · rw [← columnCount_eq]
      exact holds_setRowData h layoutIdx groupIdx rowIdx label values hptrs
  · rename_i hvalid
    rw [setRowCols_of_invalid hvalid]
    exact ensures_some h

/-- The arrays of `SetRowCols`. -/
theorem hasText_tuiCols (values : List Bytes) :
    Ensures (fun colArr => ∀ i < values.length,
        Ensures (fun buf => HasText buf (columnText values i)) colArr[i]?)
      (values.mapM tuiCol) := by
  induction values with
  | nil => exact ensures_some (fun i hi => absurd hi (Nat.not_lt_zero i))
  | cons value rest ih =>
      rw [List.mapM_cons]
      refine (hasText_printIn (Block.fill 0 : Chars tuiDataColLen) (by decide) value).bind
        (fun buf hbuf => ih.bind (fun bufs hbufs => ensures_some ?_))
      intro i hi
      cases i with
      | zero => exact ensures_some hbuf
      | succ i => exact hbufs i (Nat.lt_of_succ_lt_succ hi)

theorem holds_setRowCols {s : State} {t : RtTui.State} (h : s.Holds t)
    (layoutIdx groupIdx rowIdx : Int) (label : Bytes) (values : List Bytes) :
    Ensures (fun s' => s'.Holds (t.setRowCols layoutIdx groupIdx rowIdx (stringAt label)
        (values.map stringAt)))
      (s.setRowCols layoutIdx groupIdx rowIdx label values) := by
  unfold State.setRowCols
  split
  · refine (hasText_tuiCols values).bind (fun colArr hcolArr => ?_)
    rw [columnCount_eq]
    refine (holds_columnPointers (f := columnText values) (Nat.min_le_right _ _)
      (fun i hi => ?_)).bind (fun ptrs hptrs => ?_)
    · rw [if_pos (by omega), Int.toNat_natCast]
      exact hcolArr i (by omega)
    · rw [← columnCount_eq]
      exact holds_setRowData h layoutIdx groupIdx rowIdx label values hptrs
  · rename_i hvalid
    rw [setRowCols_of_invalid hvalid]
    exact ensures_some h

end Memory
end RtTui
end Log
end DtCore
