import DtCore.Foundation.Ring
import DtCore.Log.RtLog.Drain

/-!
# The terminal user interface

`RtTui` shows two areas: rows of data, which real-time tasks update, and the log.
The rows of a layout are double-buffered: updates go to one buffer, and rendering the
layout swaps the buffers when the one written to is dirty.  Log messages wait in a
queue of their own until a `Tick` moves them to a ring of `LOG_KEEP` messages, of
which a window is shown.

The calls do not overlap in time.  The drain thread is the only producer and the only
consumer of the log queue, which is therefore a bounded queue.  What a `Tick` reads
from the terminal is its argument; the bytes that it writes are left out, so a frame
is what the render functions take from the state.  Strings are the bytes in front of
their terminating null.  The field `popped` records the messages that were taken from
the queue; nothing reads it.

Main definitions:

- `State.setRowData`, `State.setTextRow`: updates of the data rows.
- `State.logV`: a message for the log.
- `State.drainLog`, `State.handleKeys`, `State.swapArea1`: the parts of a `Tick`.
- `State.tick`: `Tick`.
- `State.renderArea2`: the lines of the log pane.
-/

namespace DtCore
namespace Log
namespace RtTui

open Foundation RtLog

/-- The bytes of a string. -/
abbrev Bytes := List UInt8

/-- `TuiLogEntry`. -/
abbrev TuiLogEntry := Entry UInt8

/-! ## Constants -/

def tuiMaxGroups : Nat := 10

def tuiMaxRowsPerGroup : Nat := 20

def tuiDataColLen : Nat := 24

def tuiMaxCols : Nat := 10

def tuiTextRowLen : Nat := 200

def area2MinRows : Int := 5

def logKeep : Nat := 2000

def maxLayouts : Nat := 9

def queueCapacity : Nat := 1024

def queueMsgLen : Nat := 1024

/-- `sizeof(TuiLayoutData::name)`. -/
def layoutNameLen : Nat := 32

/-! ## Data -/

/-- `TuiDataRow`. -/
structure TuiDataRow where
  label : Bytes
  col : Nat → Bytes
  ncols : Nat
  textMode : Bool
  text : Bytes

/-- `TuiGroupRowData`. -/
structure TuiGroupRowData where
  rows : Nat → TuiDataRow
  nrows : Nat

/-- `TuiDataBuffer`. -/
structure TuiDataBuffer where
  groups : Nat → TuiGroupRowData
  dirty : Bool

/-- `TuiGroupHeader`. -/
structure TuiGroupHeader where
  label : Bytes
  cols : Nat → Bytes
  ncols : Nat
  active : Bool
  hideHeader : Bool

/-- `TuiLayoutData`; the write index is the index of the buffer that updates go to. -/
structure TuiLayoutData where
  name : Bytes
  groupHeaders : Nat → TuiGroupHeader
  dataBuf : Bool → TuiDataBuffer
  dataWriteIdx : Bool
  defined : Bool

/-- The members of `RtTui`. -/
structure State where
  logQueue : List TuiLogEntry
  layouts : Nat → TuiLayoutData
  currentLayout : Nat
  layoutChanged : Bool
  logHistory : Ring TuiLogEntry logKeep
  scrollOffset : Nat
  autoScroll : Bool
  lastKey : UInt8
  running : Bool
  termRows : Nat
  termCols : Nat
  prevTermRows : Nat
  prevTermCols : Nat
  popped : List TuiLogEntry

def TuiDataRow.initial : TuiDataRow where
  label := []
  col := fun _ => []
  ncols := 0
  textMode := false
  text := []

def TuiDataBuffer.initial : TuiDataBuffer where
  groups := fun _ => { rows := fun _ => TuiDataRow.initial, nrows := 0 }
  dirty := false

def TuiGroupHeader.initial : TuiGroupHeader where
  label := []
  cols := fun _ => []
  ncols := 0
  active := false
  hideHeader := false

/-- The text of a string literal. -/
def ascii (text : String) : Bytes :=
  text.toList.map (fun c => c.toNat.toUInt8)

/-- The constructor and `Init`. -/
def State.init : State where
  logQueue := []
  layouts := fun i =>
    { name := ascii "Layout " ++ ascii (toString (i + 1))
      groupHeaders := fun _ => TuiGroupHeader.initial
      dataBuf := fun _ => TuiDataBuffer.initial
      dataWriteIdx := false
      defined := false }
  currentLayout := 0
  layoutChanged := false
  logHistory := Ring.empty default (by decide)
  scrollOffset := 0
  autoScroll := true
  lastKey := 0
  running := true
  termRows := 24
  termCols := 80
  prevTermRows := 0
  prevTermCols := 0
  popped := []

/-- `Stop`. -/
def State.stop (s : State) : State :=
  { s with running := false }

/-! ## Layouts and groups -/

/-- The check of an index against the size of its array. -/
def validIndex (i : Int) (n : Nat) : Bool :=
  0 ≤ i && i < n

/-- `strncpy` of a string into an array of `n` bytes whose last one is the null. -/
def truncateTo (n : Nat) (text : Bytes) : Bytes :=
  text.take (n - 1)

/-- Change one layout. -/
def State.updateLayout (i : Nat) (f : TuiLayoutData → TuiLayoutData) (s : State) : State :=
  { s with layouts := Function.update s.layouts i (f (s.layouts i)) }

/-- `SetLayoutName`; the name may be a null pointer. -/
def State.setLayoutName (layoutIdx : Int) (name : Option Bytes) (s : State) : State :=
  match name with
  | none => s
  | some name =>
      if validIndex layoutIdx maxLayouts then
        s.updateLayout layoutIdx.toNat (fun layout =>
          { layout with name := truncateTo layoutNameLen name, defined := true })
      else s

/-- Change the header of a group and define its layout. -/
def TuiLayoutData.updateHeader (g : Nat) (f : TuiGroupHeader → TuiGroupHeader)
    (layout : TuiLayoutData) : TuiLayoutData :=
  { layout with
    groupHeaders := Function.update layout.groupHeaders g (f (layout.groupHeaders g))
    defined := true }

/-- `SetGroup`; the column headers may be null pointers. -/
def State.setGroup (layoutIdx groupIdx : Int) (labelHdr : Bytes) (colHdrs : List (Option Bytes))
    (s : State) : State :=
  if validIndex layoutIdx maxLayouts && validIndex groupIdx tuiMaxGroups then
    let ncols := min colHdrs.length tuiMaxCols
    s.updateLayout layoutIdx.toNat (TuiLayoutData.updateHeader groupIdx.toNat (fun gh =>
      { gh with
        label := truncateTo tuiDataColLen labelHdr
        cols := fun i =>
          if i < ncols then truncateTo tuiDataColLen ((colHdrs.getD i none).getD [])
          else gh.cols i
        ncols := ncols
        active := true }))
  else s

/-- `SetGroupNoHeader`. -/
def State.setGroupNoHeader (layoutIdx groupIdx : Int) (s : State) : State :=
  if validIndex layoutIdx maxLayouts && validIndex groupIdx tuiMaxGroups then
    s.updateLayout layoutIdx.toNat (TuiLayoutData.updateHeader groupIdx.toNat (fun gh =>
      { gh with label := [], ncols := 0, hideHeader := true, active := true }))
  else s

/-! ## Data rows -/

/-- Change a row of a group; the group has at least this row. -/
def TuiDataBuffer.updateRow (g r : Nat) (f : TuiDataRow → TuiDataRow) (buf : TuiDataBuffer) :
    TuiDataBuffer :=
  let gdata := buf.groups g
  { groups := Function.update buf.groups g
      { rows := Function.update gdata.rows r (f (gdata.rows r))
        nrows := max gdata.nrows (r + 1) }
    dirty := true }

/-- Change a row of the buffer that updates go to, and define the layout. -/
def TuiLayoutData.updateRow (g r : Nat) (f : TuiDataRow → TuiDataRow)
    (layout : TuiLayoutData) : TuiLayoutData :=
  let widx := layout.dataWriteIdx
  { layout with
    dataBuf := Function.update layout.dataBuf widx ((layout.dataBuf widx).updateRow g r f)
    defined := true }

/-- The row that `SetRowData` writes; the columns may be null pointers. -/
def TuiDataRow.setCols (label : Bytes) (cols : List (Option Bytes)) (row : TuiDataRow) :
    TuiDataRow :=
  let ncols := min cols.length tuiMaxCols
  { row with
    label := truncateTo tuiDataColLen label
    ncols := ncols
    textMode := false
    col := fun i =>
      if i < ncols then truncateTo tuiDataColLen ((cols.getD i none).getD [])
      else if i < tuiMaxCols then []
      else row.col i }

/-- The row that `SetTextRow` writes. -/
def TuiDataRow.setText (label text : Bytes) (row : TuiDataRow) : TuiDataRow :=
  { row with
    label := truncateTo tuiDataColLen label
    textMode := true
    text := truncateTo tuiTextRowLen text
    ncols := 0 }

/-- The checks of the three indices and the update of a row. -/
def State.updateRow (layoutIdx groupIdx rowIdx : Int) (f : TuiDataRow → TuiDataRow)
    (s : State) : State :=
  if validIndex layoutIdx maxLayouts && validIndex groupIdx tuiMaxGroups &&
      validIndex rowIdx tuiMaxRowsPerGroup then
    s.updateLayout layoutIdx.toNat (TuiLayoutData.updateRow groupIdx.toNat rowIdx.toNat f)
  else s

/-- `SetRowData`. -/
def State.setRowData (layoutIdx groupIdx rowIdx : Int) (label : Bytes)
    (cols : List (Option Bytes)) (s : State) : State :=
  s.updateRow layoutIdx groupIdx rowIdx (TuiDataRow.setCols label cols)

/-- `SetRowFmt` and `SetRowCols`, when `snprintf` turns the arguments into `values`. -/
def State.setRowCols (layoutIdx groupIdx rowIdx : Int) (label : Bytes) (values : List Bytes)
    (s : State) : State :=
  s.setRowData layoutIdx groupIdx rowIdx label
    ((values.take tuiMaxCols).map (fun value => some (truncateTo tuiDataColLen value)))

/-- `SetTextRow`, which `SetTextRowFmt` calls with what `vsnprintf` prints. -/
def State.setTextRow (layoutIdx groupIdx rowIdx : Int) (label text : Bytes) (s : State) : State :=
  s.updateRow layoutIdx groupIdx rowIdx (TuiDataRow.setText label text)

/-- `CalcArea1Height`. -/
def State.calcArea1Height (s : State) : Int :=
  let layout := s.layouts s.currentLayout
  let buf := layout.dataBuf (!layout.dataWriteIdx)
  let content := (List.range tuiMaxGroups).foldl (fun (acc : Int × Bool) g =>
    if (layout.groupHeaders g).active then
      (acc.1 + (if acc.2 then 0 else 1) + (if (layout.groupHeaders g).hideHeader then 0 else 2) +
        (buf.groups g).nrows, false)
    else acc) (0, true)
  2 + content.1

/-- The buffer swap of `RenderArea1`. -/
def TuiLayoutData.swapArea1 (layout : TuiLayoutData) : TuiLayoutData :=
  let widx := layout.dataWriteIdx
  if (layout.dataBuf widx).dirty then
    { layout with
      dataWriteIdx := !widx
      dataBuf := Function.update layout.dataBuf widx { layout.dataBuf widx with dirty := false } }
  else layout

/-- The swap leaves the name and the headers of a layout alone, and defines nothing. -/
theorem swapArea1_seen (layout : TuiLayoutData) :
    layout.swapArea1.name = layout.name ∧
      layout.swapArea1.groupHeaders = layout.groupHeaders ∧
      layout.swapArea1.defined = layout.defined := by
  unfold TuiLayoutData.swapArea1
  dsimp only
  split
  · exact ⟨rfl, rfl, rfl⟩
  · exact ⟨rfl, rfl, rfl⟩

/-- The buffer that `RenderArea1` takes the rows from after its swap. -/
def TuiLayoutData.readBuf (layout : TuiLayoutData) : TuiDataBuffer :=
  layout.dataBuf (!layout.dataWriteIdx)

/-- `RenderArea1` on the state, when it is given at least four lines. -/
def State.swapArea1 (s : State) : State :=
  s.updateLayout s.currentLayout TuiLayoutData.swapArea1

/-! ## The log -/

/-- `TryPush` of the queue. -/
def State.tryPush (e : TuiLogEntry) (s : State) : Bool × State :=
  if s.logQueue.length < queueCapacity then (true, { s with logQueue := s.logQueue ++ [e] })
  else (false, s)

/-- `TuiLogEntry::SetV`, when `vsnprintf` turns the arguments into `text`. -/
def tuiLogEntry (level : LogLevel) (text : Bytes) : TuiLogEntry where
  timeStamp_ns := 0
  level := level
  msg := truncateTo queueMsgLen text
  loggerName := []

/-- `LogV`. -/
def State.logV (level : LogLevel) (text : Bytes) (s : State) : State :=
  (s.tryPush (tuiLogEntry level text)).2

/-- `std::size_t` arithmetic. -/
def sizeWord (n : Nat) : Nat :=
  n % 2 ^ 64

/-- One pass of the drain loop of `Tick`. -/
def State.keepEntry (s : State) (e : TuiLogEntry) : State :=
  { s with
    logHistory := s.logHistory.push e
    scrollOffset := if s.autoScroll then 0 else sizeWord (s.scrollOffset + 1)
    popped := s.popped ++ [e] }

/-- The drain loop of `Tick`. -/
def State.drainLog (s : State) : State :=
  s.logQueue.foldl State.keepEntry { s with logQueue := [] }

/-- What every pass of the drain loop keeps, the loop keeps. -/
theorem drainLog_keeps {P : State → Prop} (hentry : ∀ s e, P s → P (s.keepEntry e)) {s : State}
    (h : P { s with logQueue := [] }) : P s.drainLog := by
  have hloop : ∀ (es : List TuiLogEntry) (t : State), P t → P (es.foldl State.keepEntry t) := by
    intro es
    induction es with
    | nil => exact fun t ht => ht
    | cons e es ih => exact fun t ht => ih _ (hentry t e ht)
  exact hloop s.logQueue _ h

/-! ## Keys -/

/-- `'\x1b'`. -/
def esc : UInt8 := 0x1b

/-- A character of a key sequence. -/
def key (c : Char) : UInt8 :=
  c.toNat.toUInt8

/-- The number of lines that a page key scrolls. -/
def State.page (s : State) : Nat :=
  max 1 (s.termRows * 6 / 10)

/-- Scroll by the third byte of a sequence of `len` bytes; `b3` is the fourth byte. -/
def State.scroll (b2 : UInt8) (len : Nat) (b3 : UInt8) (s : State) : State :=
  if b2 = key 'A' then
    { s with scrollOffset := sizeWord (s.scrollOffset + 1), autoScroll := false }
  else if b2 = key 'B' then
    let offset := s.scrollOffset - 1
    { s with scrollOffset := offset, autoScroll := if offset = 0 then true else s.autoScroll }
  else if b2 = key '5' then
    if len ≥ 4 ∧ b3 = key '~' then
      { s with scrollOffset := sizeWord (s.scrollOffset + s.page), autoScroll := false }
    else s
  else if b2 = key '6' then
    if len ≥ 4 ∧ b3 = key '~' then
      let offset := if s.scrollOffset > s.page then s.scrollOffset - s.page else 0
      { s with scrollOffset := offset, autoScroll := if offset = 0 then true else s.autoScroll }
    else s
  else if b2 = key 'F' then { s with scrollOffset := 0, autoScroll := true }
  else if b2 = key 'H' then { s with scrollOffset := s.logHistory.count, autoScroll := false }
  else s

/-- The coarse clamp behind the scroll keys. -/
def State.clampOffset (s : State) : State :=
  if s.scrollOffset > s.logHistory.count then { s with scrollOffset := s.logHistory.count } else s

/-- The layout that `[` shows next. -/
def State.previousLayout (s : State) : Nat :=
  if s.currentLayout = 0 then
    ((List.range maxLayouts).find? (fun i => !(s.layouts i).defined)).getD (maxLayouts - 1)
  else s.currentLayout - 1

/-- The layout that `]` shows next. -/
def State.nextLayout (s : State) : Nat :=
  if s.currentLayout = maxLayouts - 1 ∨ (s.layouts s.currentLayout).defined = false then 0
  else s.currentLayout + 1

/-- Show a layout. -/
def State.showLayout (i : Nat) (s : State) : State :=
  { s with
    currentLayout := i
    layoutChanged := if s.currentLayout = i then s.layoutChanged else true }

/-- `HandleKey`. -/
def State.handleKey (buf : Bytes) (s : State) : State :=
  match buf with
  | [] => s
  | c :: rest =>
      if c = esc ∧ buf.length ≥ 3 ∧ rest.headD 0 = key '[' then
        (s.scroll (rest.getD 1 0) buf.length (rest.getD 2 0)).clampOffset
      else if c = key '[' then s.showLayout s.previousLayout
      else if c = key ']' then s.showLayout s.nextLayout
      else { s with lastKey := c }

/-- Scrolling changes the offset and the flag. -/
theorem scroll_eq (b2 : UInt8) (len : Nat) (b3 : UInt8) (s : State) :
    ∃ offset auto, (s.scroll b2 len b3).clampOffset =
      { s with scrollOffset := offset, autoScroll := auto } := by
  have hscroll : ∃ offset auto, s.scroll b2 len b3 =
      { s with scrollOffset := offset, autoScroll := auto } := by
    have hself : ∃ offset auto, s = { s with scrollOffset := offset, autoScroll := auto } :=
      ⟨s.scrollOffset, s.autoScroll, rfl⟩
    unfold State.scroll
    split
    · exact ⟨_, _, rfl⟩
    · split
      · exact ⟨_, _, rfl⟩
      · split
        · split
          · exact ⟨_, _, rfl⟩
          · exact hself
        · split
          · split
            · exact ⟨_, _, rfl⟩
            · exact hself
          · split
            · exact ⟨_, _, rfl⟩
            · split
              · exact ⟨_, _, rfl⟩
              · exact hself
  rcases hscroll with ⟨offset, auto, hscroll⟩
  rw [hscroll]
  unfold State.clampOffset
  split
  · exact ⟨_, auto, rfl⟩
  · exact ⟨offset, auto, rfl⟩

/-- A key scrolls, shows a layout or is stored. -/
theorem handleKey_cases (buf : Bytes) (s : State) :
    (∃ offset auto, s.handleKey buf = { s with scrollOffset := offset, autoScroll := auto }) ∨
      (∃ i, s.handleKey buf = s.showLayout i) ∨ ∃ c, s.handleKey buf = { s with lastKey := c } := by
  unfold State.handleKey
  split
  · exact Or.inl ⟨s.scrollOffset, s.autoScroll, rfl⟩
  · split
    · exact Or.inl (scroll_eq _ _ _ s)
    · split
      · exact Or.inr (Or.inl ⟨_, rfl⟩)
      · split
        · exact Or.inr (Or.inl ⟨_, rfl⟩)
        · exact Or.inr (Or.inr ⟨_, rfl⟩)

/-- The key loop of `Tick` over what is left of the buffer; `skip` bytes of it belong
to the sequence before. -/
def State.handleKeys : Nat → Bytes → State → State
  | _, [], s => s
  | skip + 1, _ :: rest, s => State.handleKeys skip rest s
  | 0, c :: rest, s =>
      if c = esc ∧ rest.length + 1 ≥ 3 ∧ rest.headD 0 = key '[' then
        let seqLen := if rest.length + 1 ≥ 4 ∧ rest.getD 2 0 = key '~' then 4 else 3
        State.handleKeys (seqLen - 1) rest (s.handleKey ((c :: rest).take seqLen))
      else if c = esc then s.handleKey (c :: rest)
      else State.handleKeys 0 rest (s.handleKey [c])

/-- What every call of `HandleKey` keeps, the key loop keeps. -/
theorem handleKeys_keeps {P : State → Prop} (hkey : ∀ s buf, P s → P (s.handleKey buf))
    (skip : Nat) (buf : Bytes) {s : State} (h : P s) : P (s.handleKeys skip buf) := by
  induction buf generalizing skip s with
  | nil => cases skip <;> exact h
  | cons c rest ih =>
      cases skip with
      | succ skip => exact ih skip h
      | zero =>
          unfold State.handleKeys
          split
          · exact ih _ (hkey s _ h)
          · split
            · exact hkey s _ h
            · exact ih 0 (hkey s _ h)

/-- `PopPendingKey`. -/
def State.popPendingKey (s : State) : UInt8 × State :=
  (s.lastKey, { s with lastKey := 0 })

/-! ## Tick -/

/-- What a `Tick` gets from the terminal: the bytes that `read` returns and the window
size, unless `ioctl` fails. -/
structure TickInput where
  keys : Bytes
  winsize : Option (Nat × Nat)

/-- `sizeof(kbuf)`. -/
def keyBufLen : Nat := 64

/-- `TermGetSize`. -/
def termGetSize (winsize : Option (Nat × Nat)) : Nat × Nat :=
  match winsize with
  | some size => if size.1 > 0 then size else (24, 80)
  | none => (24, 80)

/-- The new terminal size; the screen is cleared when it or the layout changed. -/
def State.resize (size : Nat × Nat) (s : State) : State :=
  { s with
    termRows := size.1
    termCols := size.2
    layoutChanged := false
    prevTermRows := size.1
    prevTermCols := size.2 }

/-- A `Tick` up to the rendering. -/
def State.beforeRender (i : TickInput) (s : State) : State :=
  ((s.drainLog).handleKeys 0 (i.keys.take keyBufLen)).resize (termGetSize i.winsize)

/-- The heights of the two areas. -/
def State.areaHeights (s : State) : Int × Int :=
  let area1 := max 4 (min s.calcArea1Height (s.termRows - 1 - area2MinRows))
  (area1, s.termRows - area1 - 1)

/-- `Tick`. -/
def State.tick (i : TickInput) (s : State) : State :=
  if s.running then (s.beforeRender i).swapArea1 else s

/-- The window of the ring that `RenderArea2` shows on `visibleH` lines: the index of
its first message and how many there are. -/
def State.area2Window (visibleH : Nat) (s : State) : Nat × Nat :=
  let total := s.logHistory.count
  let maxOffset := if total > visibleH then total - visibleH else 0
  let offset := if s.scrollOffset > maxOffset then maxOffset else s.scrollOffset
  let endIdx := total - offset
  let startIdx := if endIdx > visibleH then endIdx - visibleH else 0
  (startIdx, endIdx - startIdx)

/-- The log lines of `RenderArea2`, top to bottom. -/
def State.renderArea2 (height : Int) (s : State) : List (Option TuiLogEntry) :=
  if height < 3 then []
  else
    let visibleH := (height - 2).toNat
    let window := s.area2Window visibleH
    (List.range visibleH).map (fun r =>
      if r < window.2 then some (s.logHistory.get (window.1 + r)) else none)

/-! ## Runs -/

/-- The calls of an `RtTui`. -/
inductive Op where
  | setLayoutName (layoutIdx : Int) (name : Option Bytes)
  | setGroup (layoutIdx groupIdx : Int) (labelHdr : Bytes) (colHdrs : List (Option Bytes))
  | setGroupNoHeader (layoutIdx groupIdx : Int)
  | setRowCols (layoutIdx groupIdx rowIdx : Int) (label : Bytes) (values : List Bytes)
  | setTextRow (layoutIdx groupIdx rowIdx : Int) (label text : Bytes)
  | logV (level : LogLevel) (text : Bytes)
  | popPendingKey
  | tick (i : TickInput)
  | stop

/-- One call. -/
def State.op (s : State) : Op → State
  | .setLayoutName layoutIdx name => s.setLayoutName layoutIdx name
  | .setGroup layoutIdx groupIdx labelHdr colHdrs =>
      s.setGroup layoutIdx groupIdx labelHdr colHdrs
  | .setGroupNoHeader layoutIdx groupIdx => s.setGroupNoHeader layoutIdx groupIdx
  | .setRowCols layoutIdx groupIdx rowIdx label values =>
      s.setRowCols layoutIdx groupIdx rowIdx label values
  | .setTextRow layoutIdx groupIdx rowIdx label text =>
      s.setTextRow layoutIdx groupIdx rowIdx label text
  | .logV level text => s.logV level text
  | .popPendingKey => s.popPendingKey.2
  | .tick i => s.tick i
  | .stop => s.stop

/-- A sequence of calls. -/
def State.ops (s : State) (ops : List Op) : State :=
  ops.foldl State.op s

end RtTui
end Log
end DtCore
