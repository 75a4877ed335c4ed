import DtCore.Foundation.CString
import DtCore.Log.RtTui.Screen

/-!
# The arrays of the terminal user interface

The terminal user interface once more, now with its arrays: every index is an `int` or a
`std::size_t` and every access is checked, strings are bytes in arrays of fixed size, and a
call that leaves an array, or reads a string that does not end in its array, has no result.

What the setters get from their callers is memory of the callers: a pointer stands for the
bytes from there on.  The output buffer is left out, and a frame is drawn as a list of texts on
rows.  `snprintf` turns a value and its format into a text.

Main definitions:

- `State.setGroup`, `State.setRowFmt`, `State.setRowCols`, `State.setTextRow`: the setters.
- `State.handleKey`: the key handler.
- `State.renderArea1`, `State.renderArea2`, `State.renderCmdLine`: the renderers.
- `State.tick`: `Tick`.
- `State.run`: a sequence of calls from the constructor on.
-/

namespace DtCore
namespace Log
namespace RtTui
namespace Memory

open Foundation RtLog

/-! ## Data -/

/-- An array of characters. -/
abbrev Chars (size : Nat) := Block UInt8 size

/-- `TuiDataRow`. -/
structure TuiDataRow where
  label : Chars tuiDataColLen
  col : Block (Chars tuiDataColLen) tuiMaxCols
  ncols : Int
  textMode : Bool
  text : Chars tuiTextRowLen

/-- `TuiGroupRowData`. -/
structure TuiGroupRowData where
  rows : Block TuiDataRow tuiMaxRowsPerGroup
  nrows : Int

/-- `TuiDataBuffer`. -/
structure TuiDataBuffer where
  groups : Block TuiGroupRowData tuiMaxGroups
  dirty : Bool

/-- `TuiGroupHeader`. -/
structure TuiGroupHeader where
  label : Chars tuiDataColLen
  cols : Block (Chars tuiDataColLen) tuiMaxCols
  ncols : Int
  active : Bool
  hideHeader : Bool

/-- `TuiLayoutData`. -/
structure TuiLayoutData where
  name : Chars layoutNameLen
  groupHeaders : Block TuiGroupHeader tuiMaxGroups
  dataBuf : Block TuiDataBuffer 2
  dataWriteIdx : Int
  defined : Bool

/-- `TuiLogEntry`. -/
structure TuiLogEntry where
  level : LogLevel
  msg : Chars queueMsgLen

/-- The members of `RtTui`. -/
structure State where
  logQueue : List TuiLogEntry
  layouts : Block TuiLayoutData maxLayouts
  currentLayout : Int
  layoutChanged : Bool
  logHistory : Block TuiLogEntry logKeep
  logCount : Nat
  logHead : Nat
  scrollOffset : Nat
  autoScroll : Bool
  lastKey : UInt8
  running : Bool
  termRows : Nat
  termCols : Nat
  prevTermRows : Nat
  prevTermCols : Nat

/-- A local array without an initializer. -/
def uninitialized {size : Nat} : Chars size :=
  Block.fill 0xff

def TuiDataRow.initial : TuiDataRow where
  label := Block.fill 0
  col := Block.fill (Block.fill 0)
  ncols := 0
  textMode := false
  text := Block.fill 0

def TuiDataBuffer.initial : TuiDataBuffer where
  groups := Block.fill { rows := Block.fill TuiDataRow.initial, nrows := 0 }
  dirty := false

def TuiGroupHeader.initial : TuiGroupHeader where
  label := Block.fill 0
  cols := Block.fill (Block.fill 0)
  ncols := 0
  active := false
  hideHeader := false

def TuiLayoutData.initial : TuiLayoutData where
  name := Block.fill 0
  groupHeaders := Block.fill TuiGroupHeader.initial
  dataBuf := Block.fill TuiDataBuffer.initial
  dataWriteIdx := 0
  defined := false

/-- The constructor. -/
def State.construct : Option State := do
  let layouts ← forRange 0 maxLayouts (fun i layouts =>
    layouts.modify i (fun layout => do
      let name ← layout.name.printIn 0 layoutNameLen
        (ascii "Layout " ++ ascii (toString (i.toNat + 1)))
      some { layout with name := name })) (Block.fill TuiLayoutData.initial)
  some
    { logQueue := []
      layouts := layouts
      currentLayout := 0
      layoutChanged := false
      logHistory := Block.fill { level := .info, msg := Block.fill 0 }
      logCount := 0
      logHead := 0
      scrollOffset := 0
      autoScroll := true
      lastKey := 0
      running := false
      termRows := 24
      termCols := 80
      prevTermRows := 0
      prevTermCols := 0 }

/-- `Init`. -/
def State.initialize (s : State) : State :=
  { s with running := true }

/-- `Stop`. -/
def State.stop (s : State) : State :=
  { s with running := false }

/-! ## Layouts and groups -/

/-- Change `m_layouts[i]`. -/
def State.updateLayout (i : Int) (f : TuiLayoutData → Option TuiLayoutData) (s : State) :
    Option State :=
  (s.layouts.modify i f).map (fun layouts => { s with layouts := layouts })

/-- `SetLayoutName`. -/
def State.setLayoutName (layoutIdx : Int) (name : Option Bytes) (s : State) : Option State :=
  match name with
  | none => some s
  | some name =>
      if validIndex layoutIdx maxLayouts then
        s.updateLayout layoutIdx (fun layout =>
          (layout.name.copyString name).map (fun name =>
            { layout with name := name, defined := true }))
      else some s

/-- Change `layout.groupHeaders[g]` and define the layout. -/
def TuiLayoutData.updateHeader (g : Int) (f : TuiGroupHeader → Option TuiGroupHeader)
    (layout : TuiLayoutData) : Option TuiLayoutData :=
  (layout.groupHeaders.modify g f).map (fun groupHeaders =>
    { layout with groupHeaders := groupHeaders, defined := true })

/-- A copy of the string at a pointer, or the empty string when it is a null pointer. -/
def copyOrClear {size : Nat} (src : Option Bytes) (dst : Chars size) : Option (Chars size) :=
  match src with
  | some src => dst.copyString src
  | none => dst.set 0 0

/-- What `SetGroup` makes of a header. -/
def TuiGroupHeader.setGroup (labelHdr : Bytes) (colHdrs : Int → Option Bytes) (ncols : Int)
    (gh : TuiGroupHeader) : Option TuiGroupHeader := do
  let label ← gh.label.copyString labelHdr
  let ncols := if ncols > tuiMaxCols then (tuiMaxCols : Int) else ncols
  let cols ← forRange 0 ncols (fun i cols => cols.modify i (copyOrClear (colHdrs i))) gh.cols
  some { gh with label := label, ncols := ncols, cols := cols, active := true }

/-- `SetGroup`; `colHdrs` is an array of the caller. -/
def State.setGroup (layoutIdx groupIdx : Int) (labelHdr : Bytes) (colHdrs : Int → Option Bytes)
    (ncols : Int) (s : State) : Option State :=
  if validIndex layoutIdx maxLayouts && validIndex groupIdx tuiMaxGroups then
    s.updateLayout layoutIdx
      (TuiLayoutData.updateHeader groupIdx (TuiGroupHeader.setGroup labelHdr colHdrs ncols))
  else some s

/-- `SetGroupNoHeader`. -/
def State.setGroupNoHeader (layoutIdx groupIdx : Int) (s : State) : Option State :=
  if validIndex layoutIdx maxLayouts && validIndex groupIdx tuiMaxGroups then
    s.updateLayout layoutIdx (TuiLayoutData.updateHeader groupIdx (fun gh =>
      (gh.label.set 0 0).map (fun label =>
        { gh with label := label, ncols := 0, hideHeader := true, active := true })))
  else some s

/-! ## Data rows -/

/-- Change `dbuf.groups[g].rows[r]`. -/
def TuiDataBuffer.updateRow (g r : Int) (f : TuiDataRow → Option TuiDataRow)
    (dbuf : TuiDataBuffer) : Option TuiDataBuffer :=
  (dbuf.groups.modify g (fun gdata =>
    (gdata.rows.modify r f).map (fun rows =>
      { rows := rows, nrows := max gdata.nrows (r + 1) }))).map (fun groups =>
    { groups := groups, dirty := true })

/-- Change a row of `layout.dataBuf[widx]` and define the layout. -/
def TuiLayoutData.updateRow (g r : Int) (f : TuiDataRow → Option TuiDataRow)
    (layout : TuiLayoutData) : Option TuiLayoutData :=
  let widx := layout.dataWriteIdx
  (layout.dataBuf.modify widx (TuiDataBuffer.updateRow g r f)).map (fun dataBuf =>
    { layout with dataBuf := dataBuf, defined := true })

/-- The checks of the three indices. -/
def validRow (layoutIdx groupIdx rowIdx : Int) : Bool :=
  validIndex layoutIdx maxLayouts && validIndex groupIdx tuiMaxGroups &&
    validIndex rowIdx tuiMaxRowsPerGroup

/-- The checks of the three indices and the change of a row. -/
def State.updateRow (layoutIdx groupIdx rowIdx : Int) (f : TuiDataRow → Option TuiDataRow)
    (s : State) : Option State :=
  if validRow layoutIdx groupIdx rowIdx then
    s.updateLayout layoutIdx (TuiLayoutData.updateRow groupIdx rowIdx f)
  else some s

/-- What `SetRowData` makes of a row. -/
def TuiDataRow.setCols (label : Bytes) (cols : Block (Option Bytes) tuiMaxCols) (ncols : Int)
    (row : TuiDataRow) : Option TuiDataRow := do
  let ncols := if ncols > tuiMaxCols then (tuiMaxCols : Int) else ncols
  let label ← row.label.copyString label
  let col ← forRange 0 ncols (fun i col => col.modify i (fun dst => do
    let src ← cols.get i
    copyOrClear src dst)) row.col
  let col ← forRange ncols tuiMaxCols (fun i col => col.modify i (fun dst => dst.set 0 0)) col
  some { row with label := label, ncols := ncols, textMode := false, col := col }

/-- `SetRowData`; both callers have an array of `TUI_MAX_COLS` pointers. -/
def State.setRowData (layoutIdx groupIdx rowIdx : Int) (label : Bytes)
    (cols : Block (Option Bytes) tuiMaxCols) (ncols : Int) (s : State) : Option State :=
  s.updateRow layoutIdx groupIdx rowIdx (TuiDataRow.setCols label cols ncols)

/-- `FormatColumnsRecursive`, when `snprintf` turns the arguments into `values`. -/
def formatColumnsRecursive (colIdx : Int) (cols : Block (Chars tuiDataColLen) tuiMaxCols) :
    List Bytes → Option (Block (Chars tuiDataColLen) tuiMaxCols)
  | [] => some cols
  | value :: rest =>
      if colIdx ≥ tuiMaxCols then some cols
      else do
        let cols ← cols.modify colIdx (fun buf => buf.printIn 0 tuiDataColLen value)
        formatColumnsRecursive (colIdx + 1) cols rest

/-- The loop that fills the array of pointers from the arrays that `source` finds. -/
def columnPointers (source : Int → Option (Chars tuiDataColLen)) (ncols : Int) :
    Option (Block (Option Bytes) tuiMaxCols) :=
  forRange 0 ncols (fun i ptrs => ptrs.modify i (fun _ =>
    (source i).map (fun buf => some buf.cells))) (Block.fill none)

/-- The number of columns in `SetRowFmt` and `SetRowCols`. -/
def columnCount (values : List Bytes) : Int :=
  if (values.length : Int) > tuiMaxCols then tuiMaxCols else values.length

/-- `SetRowFmt`. -/
def State.setRowFmt (layoutIdx groupIdx rowIdx : Int) (label : Bytes) (values : List Bytes)
    (s : State) : Option State :=
  if validRow layoutIdx groupIdx rowIdx then do
    let cols ← formatColumnsRecursive 0 (Block.fill (Block.fill 0)) values
    let colPtrs ← columnPointers cols.get (columnCount values)
    s.setRowData layoutIdx groupIdx rowIdx label colPtrs (columnCount values)
  else some s

/-- `TuiCol`. -/
def tuiCol (value : Bytes) : Option (Chars tuiDataColLen) :=
  (Block.fill 0 : Chars tuiDataColLen).printIn 0 tuiDataColLen value

/-- `SetRowCols`. -/
def State.setRowCols (layoutIdx groupIdx rowIdx : Int) (label : Bytes) (values : List Bytes)
    (s : State) : Option State :=
  if validRow layoutIdx groupIdx rowIdx then do
    let colArr ← values.mapM tuiCol
    let ptrs ← columnPointers (fun i => if 0 ≤ i then colArr[i.toNat]? else none)
      (columnCount values)
    s.setRowData layoutIdx groupIdx rowIdx label ptrs (columnCount values)
  else some s

/-- What `SetTextRow` makes of a row. -/
def TuiDataRow.setText (label text : Bytes) (row : TuiDataRow) : Option TuiDataRow := do
  let label ← row.label.copyString label
  let text ← row.text.copyString text
  some { row with label := label, textMode := true, text := text, ncols := 0 }

/-- `SetTextRow`. -/
def State.setTextRow (layoutIdx groupIdx rowIdx : Int) (label text : Bytes) (s : State) :
    Option State :=
  s.updateRow layoutIdx groupIdx rowIdx (TuiDataRow.setText label text)

/-! ## The log -/

/-- `LogV`. -/
def State.logV (level : LogLevel) (text : Bytes) (s : State) : Option State := do
  let msg ← (uninitialized : Chars queueMsgLen).printIn 0 queueMsgLen text
  if s.logQueue.length < queueCapacity then
    some { s with logQueue := s.logQueue ++ [{ level := level, msg := msg }] }
  else some s

/-- One pass of the drain loop of `Tick`. -/
def State.keepEntry (s : State) (e : TuiLogEntry) : Option State :=
  let scrollOffset := if s.autoScroll then 0 else sizeWord (s.scrollOffset + 1)
  if s.logCount < logKeep then
    (s.logHistory.set ((s.logHead + s.logCount) % logKeep : Nat) e).map (fun logHistory =>
      { s with
        logHistory := logHistory
        logCount := s.logCount + 1
        scrollOffset := scrollOffset })
  else
    (s.logHistory.set s.logHead e).map (fun logHistory =>
      { s with
        logHistory := logHistory
        logHead := (s.logHead + 1) % logKeep
        scrollOffset := scrollOffset })

/-- The passes of the drain loop. -/
def State.keepEntries : List TuiLogEntry → State → Option State
  | [], s => some s
  | e :: es, s => (s.keepEntry e).bind (State.keepEntries es)

/-- The drain loop of `Tick`. -/
def State.drainLog (s : State) : Option State :=
  State.keepEntries s.logQueue { s with logQueue := [] }

/-! ## Keys -/

/-- The number of lines that a page key scrolls. -/
def State.page (s : State) : Nat :=
  max 1 (s.termRows * 6 / 10)

/-- Scroll by the third byte of a sequence of `len` bytes; `b3` is the fourth byte. -/
def State.scroll (b2 : UInt8) (len : Nat) (b3 : UInt8) (s : State) : State :=
  if b2 = key 'A' then
    { s with scrollOffset := sizeWord (s.scrollOffset + 1), autoScroll := false }
  else if b2 = key 'B' then
    let offset := s.scrollOffset - 1
    { s with scrollOffset := offset, autoScroll := if offset = 0 then true else s.autoScroll }
  else if b2 = key '5' then
    if len ≥ 4 ∧ b3 = key '~' then
      { s with scrollOffset := sizeWord (s.scrollOffset + s.page), autoScroll := false }
    else s
  else if b2 = key '6' then
    if len ≥ 4 ∧ b3 = key '~' then
      let offset := if s.scrollOffset > s.page then s.scrollOffset - s.page else 0
      { s with scrollOffset := offset, autoScroll := if offset = 0 then true else s.autoScroll }
    else s
  else if b2 = key 'F' then { s with scrollOffset := 0, autoScroll := true }
  else if b2 = key 'H' then { s with scrollOffset := s.logCount, autoScroll := false }
  else s

/-- The coarse clamp behind the scroll keys. -/
def State.clampOffset (s : State) : State :=
  if s.scrollOffset > s.logCount then { s with scrollOffset := s.logCount } else s

/-- The layout that `[` shows next; the loop looks for the first one that is not defined. -/
def State.previousLayout (s : State) : Option Int :=
  if s.currentLayout = 0 then do
    let found ← forWhile 0 maxLayouts Option.isNone (fun i _ =>
      (s.layouts.get i).map (fun layout => if layout.defined then none else some i)) none
    some (found.getD (maxLayouts - 1))
  else some (s.currentLayout - 1)

/-- The layout that `]` shows next. -/
def State.nextLayout (s : State) : Option Int :=
  if s.currentLayout = maxLayouts - 1 then some 0
  else
    (s.layouts.get s.currentLayout).map (fun layout =>
      if layout.defined = false then 0 else s.currentLayout + 1)

/-- Show a layout. -/
def State.showLayout (i : Int) (s : State) : State :=
  { s with
    currentLayout := i
    layoutChanged := if s.currentLayout = i then s.layoutChanged else true }

/-- `HandleKey`. -/
def State.handleKey (buf : Bytes) (s : State) : Option State :=
  match buf with
  | [] => some s
  | c :: rest =>
      if c = esc ∧ buf.length ≥ 3 ∧ rest.headD 0 = key '[' then
        some (s.scroll (rest.getD 1 0) buf.length (rest.getD 2 0)).clampOffset
      else if c = key '[' then s.previousLayout.map (fun i => s.showLayout i)
      else if c = key ']' then s.nextLayout.map (fun i => s.showLayout i)
      else some { s with lastKey := c }

/-- The key loop of `Tick` over what is left of the buffer; `skip` bytes of it belong
to the sequence before. -/
def State.handleKeys : Nat → Bytes → State → Option State
  | _, [], s => some s
  | skip + 1, _ :: rest, s => State.handleKeys skip rest s
  | 0, c :: rest, s =>
      if c = esc ∧ rest.length + 1 ≥ 3 ∧ rest.headD 0 = key '[' then
        let seqLen := if rest.length + 1 ≥ 4 ∧ rest.getD 2 0 = key '~' then 4 else 3
        (s.handleKey ((c :: rest).take seqLen)).bind (State.handleKeys (seqLen - 1) rest)
      else if c = esc then s.handleKey (c :: rest)
      else (s.handleKey [c]).bind (State.handleKeys 0 rest)

/-- `PopPendingKey`. -/
def State.popPendingKey (s : State) : State :=
  { s with lastKey := 0 }

/-! ## Area 1 -/

/-- `CalcArea1Height`. -/
def State.calcArea1Height (s : State) : Option Int := do
  let layout ← s.layouts.get s.currentLayout
  let ridx := 1 - layout.dataWriteIdx
  let buf ← layout.dataBuf.get ridx
  let content ← forRange 0 tuiMaxGroups (fun g (acc : Int × Bool) => do
    let gh ← layout.groupHeaders.get g
    if gh.active then
      (buf.groups.get g).map (fun gdata =>
        (acc.1 + (if acc.2 then 0 else 1) + (if gh.hideHeader then 0 else 2) + gdata.nrows,
          false))
    else some acc) (0, true)
  some (2 + content.1)

/-- The buffer swap of `RenderArea1` and the index of the buffer that it reads. -/
def TuiLayoutData.swapArea1 (layout : TuiLayoutData) : Option (Int × TuiLayoutData) := do
  let widx := layout.dataWriteIdx
  let ridx := 1 - widx
  let dbuf ← layout.dataBuf.get widx
  if dbuf.dirty then do
    let dataBuf ← layout.dataBuf.set widx { dbuf with dirty := false }
    some (widx, { layout with dataWriteIdx := 1 - widx, dataBuf := dataBuf })
  else some (ridx, layout)

/-- The number of columns that `RenderArea1` shows. -/
def clampCols (width : Int) : Int :=
  let fit := (width - 23).tdiv 12
  let fit := if fit > tuiMaxCols then (tuiMaxCols : Int) else fit
  if fit < 0 then 0 else fit

/-- The loop over the columns that a screen has room for: the strings of the first `ncols`
arrays, and `other` for the rest. -/
def columnTexts (width ncols : Int) (other : Bytes)
    (cols : Block (Chars tuiDataColLen) tuiMaxCols) : Option (List Bytes) :=
  forRange 0 (clampCols width) (fun c found =>
    (if c < ncols then (cols.get c).bind Block.string else some other).map (fun text =>
      found ++ [text])) []

/-- The header row of a group. -/
def TuiGroupHeader.line (width : Int) (gh : TuiGroupHeader) : Option Drawn := do
  let label ← gh.label.string
  let cells ← columnTexts width gh.ncols (ascii ".") gh.cols
  some (.header label cells)

/-- A data row. -/
def TuiDataRow.line (width : Int) (dr : TuiDataRow) : Option Drawn := do
  let label ← dr.label.string
  if dr.textMode then
    if width - 24 > 0 then
      dr.text.string.map (fun text => .textRow label (text.take (width - 24).toNat))
    else some (.textRow label [])
  else (columnTexts width dr.ncols [] dr.col).map (fun cells => .dataRow label cells)

/-- The header of a group and its underline. -/
def TuiGroupHeader.render (width bot : Int) (gh : TuiGroupHeader) (pen : Pen Drawn) :
    Option (Pen Drawn) :=
  if gh.hideHeader then some pen
  else if pen.row < bot then
    (gh.line width).map (fun line => (pen.put line).putIf bot .underline)
  else some (pen.putIf bot .underline)

/-- The loop over the rows of a group. -/
def TuiGroupRowData.render (width bot : Int) (gdata : TuiGroupRowData) (pen : Pen Drawn) :
    Option (Pen Drawn) :=
  forWhile 0 gdata.nrows (fun pen => pen.row < bot) (fun r pen => do
    let dr ← gdata.rows.get r
    (dr.line width).map (fun line => pen.put line)) pen

/-- One pass of the group loop of `RenderArea1`; the flag is `firstGroup`. -/
def TuiLayoutData.renderGroup (width bot : Int) (layout : TuiLayoutData) (buf : TuiDataBuffer)
    (g : Int) (s : Pen Drawn × Bool) : Option (Pen Drawn × Bool) := do
  let gh ← layout.groupHeaders.get g
  if gh.active then do
    let pen := if s.2 then s.1 else s.1.putIf bot .separator
    let pen ← gh.render width bot pen
    let gdata ← buf.groups.get g
    let pen ← gdata.render width bot pen
    some (pen, false)
  else some s

/-- `RenderArea1` on a layout. -/
def TuiLayoutData.renderArea1 (startRow height width : Int) (layout : TuiLayoutData) :
    Option (List (Int × Drawn) × TuiLayoutData) := do
  let swapped ← layout.swapArea1
  let layout := swapped.2
  let buf ← layout.dataBuf.get swapped.1
  let bot := startRow + height - 1
  let name ← layout.name.string
  let title ← (uninitialized : Chars 48).printIn 0 48 (ascii "[ " ++ name ++ ascii " ]")
  -- the number of its characters gives the length of the line behind it
  let _ ← title.string
  let pen := (Pen.start startRow).put (.area1Top name)
  let s ← forWhile 0 tuiMaxGroups (fun s => s.1.row < bot) (layout.renderGroup width bot buf)
    (pen, true)
  some ((s.1.fill bot .blank).drawn ++ [(bot, .area1Bottom)], layout)

/-- `RenderArea1`. -/
def State.renderArea1 (startRow height width : Int) (s : State) :
    Option (List (Int × Drawn) × State) :=
  if height < 4 then some ([], s)
  else do
    let layout ← s.layouts.get s.currentLayout
    let rendered ← layout.renderArea1 startRow height width
    let layouts ← s.layouts.set s.currentLayout rendered.2
    some (rendered.1, { s with layouts := layouts })

/-! ## Area 2 -/

/-- `%.*s` of a message; a negative precision does not count. -/
def messageText (width : Int) (e : TuiLogEntry) : Option Bytes :=
  e.msg.string.map (fun text => if width - 4 < 0 then text else text.take (width - 4).toNat)

/-- The loop over the log lines of `RenderArea2`. -/
def State.logLines (width : Int) (visibleH startIdx linesToShow : Nat) (s : State) :
    Option (List Drawn) :=
  forRange 0 visibleH (fun r found =>
    (if r < linesToShow then do
      let e ← s.logHistory.get ((s.logHead + startIdx + r.toNat) % logKeep : Nat)
      let text ← messageText width e
      some (.logLine (some text))
    else some (.logLine none)).map (fun line => found ++ [line])) []

/-- `RenderArea2`. -/
def State.renderArea2 (startRow height width : Int) (s : State) : Option (List (Int × Drawn)) :=
  if height < 3 then some []
  else do
    let visibleH := (height - 2).toNat
    let total := s.logCount
    let maxOffset := if total > visibleH then total - visibleH else 0
    let offset := if s.scrollOffset > maxOffset then maxOffset else s.scrollOffset
    let endIdx := total - offset
    let startIdx := if endIdx > visibleH then endIdx - visibleH else 0
    let lines ← s.logLines width visibleH startIdx (endIdx - startIdx)
    some ((startRow, .area2Top s.autoScroll) :: (place (startRow + 1) lines ++
      renderScrollbar (startRow + 1) visibleH total ++ [(startRow + height - 1, .area2Bottom)]))

/-! ## The command line -/

/-- `sizeof(switcher)`. -/
def switcherLen : Nat := 256

/-- The text of a layout in the switcher. -/
def switcherText (current : Bool) (number : Nat) (shortName : Bytes) : Bytes :=
  if current then ascii "[" ++ ascii (toString number) ++ ascii ":" ++ shortName ++ ascii "] "
  else
    ascii " " ++ ascii (toString number) ++ ascii ":" ++
      (shortName ++ List.replicate (8 - shortName.length) (key ' ')) ++ ascii " "

/-- The switcher and the number of its bytes. -/
structure Switcher where
  text : Chars switcherLen
  swPos : Int

/-- `snprintf(switcher + sw_pos, sizeof(switcher) - sw_pos, …)` and the new position; a
position outside of the array is an error. -/
def Switcher.print (text : Bytes) (sw : Switcher) : Option Switcher :=
  if 0 ≤ sw.swPos ∧ sw.swPos ≤ switcherLen then
    (sw.text.printIn sw.swPos.toNat (switcherLen - sw.swPos.toNat) text).map (fun switcher =>
      { text := switcher, swPos := sw.swPos + Block.printed text })
  else none

/-- One pass of the loop that builds the switcher. -/
def State.printLayout (s : State) (i : Int) (sw : Switcher) : Option Switcher := do
  let layout ← s.layouts.get i
  if layout.defined then do
    let shortName ← (Block.fill 0 : Chars 9).copyString layout.name.cells
    let shortName ← shortName.string
    sw.print (switcherText (i = s.currentLayout) (i.toNat + 1) shortName)
  else some sw

/-- The loop that builds the switcher. -/
def State.switcher (s : State) : Option Switcher :=
  forWhile 0 maxLayouts (fun sw => sw.swPos < switcherLen - 20) s.printLayout
    { text := Block.fill 0, swPos := 0 }

/-- A digit of `%X`. -/
def hexDigit (n : Nat) : UInt8 :=
  if n < 10 then (n + 48).toUInt8 else (n + 55).toUInt8

/-- The text for the last key. -/
def keyText (lastKey : UInt8) : Bytes :=
  if lastKey = 0 then ascii "(none)"
  else if 0x20 ≤ lastKey ∧ lastKey < 0x7f then ascii "'" ++ [lastKey] ++ ascii "'"
  else ascii "0x" ++ [hexDigit (lastKey.toNat / 16), hexDigit (lastKey.toNat % 16)]

/-- What `RenderCmdLine` draws. -/
structure CmdLine where
  row : Int
  swPos : Int
  switcher : Bytes
  keyStr : Bytes

/-- `RenderCmdLine`. -/
def State.renderCmdLine (row : Int) (s : State) : Option CmdLine := do
  let sw ← s.switcher
  let keyStr ← (uninitialized : Chars 16).printIn 0 16 (keyText s.lastKey)
  let switcher ← sw.text.string
  let keyStr ← keyStr.string
  some { row := row, swPos := sw.swPos, switcher := switcher, keyStr := keyStr }

/-! ## Tick -/

/-- What a `Tick` draws. -/
structure Frame where
  areas : List (Int × Drawn)
  cmdLine : CmdLine

/-- The new terminal size. -/
def State.resize (size : Nat × Nat) (s : State) : State :=
  { s with
    termRows := size.1
    termCols := size.2
    layoutChanged := false
    prevTermRows := size.1
    prevTermCols := size.2 }

/-- `Tick` while the interface runs. -/
def State.render (i : TickInput) (s : State) : Option (State × Frame) := do
  let s ← s.drainLog
  let s ← s.handleKeys 0 (i.keys.take keyBufLen)
  let s := s.resize (termGetSize i.winsize)
  let needed ← s.calcArea1Height
  let area1 := max 4 (min needed (s.termRows - 1 - area2MinRows))
  let area2 := s.termRows - area1 - 1
  let upper ← s.renderArea1 1 area1 s.termCols
  let s := upper.2
  let lower ← s.renderArea2 (area1 + 1) area2 s.termCols
  let cmdLine ← s.renderCmdLine s.termRows
  some (s, { areas := upper.1 ++ lower, cmdLine := cmdLine })

/-- `Tick`; it draws a frame while the interface runs. -/
def State.tick (i : TickInput) (s : State) : Option (State × List Frame) :=
  if s.running then (s.render i).map (fun p => (p.1, [p.2])) else some (s, [])

/-! ## Runs -/

/-- The calls of an `RtTui`. -/
inductive Op where
  | setLayoutName (layoutIdx : Int) (name : Option Bytes)
  | setGroup (layoutIdx groupIdx : Int) (labelHdr : Bytes) (colHdrs : Int → Option Bytes)
      (ncols : Int)
  | setGroupNoHeader (layoutIdx groupIdx : Int)
  | setRowFmt (layoutIdx groupIdx rowIdx : Int) (label : Bytes) (values : List Bytes)
  | setRowCols (layoutIdx groupIdx rowIdx : Int) (label : Bytes) (values : List Bytes)
  | setTextRow (layoutIdx groupIdx rowIdx : Int) (label text : Bytes)
  | logV (level : LogLevel) (text : Bytes)
  | popPendingKey
  | tick (i : TickInput)
  | stop

/-- One call, and the frame that it draws if it is a `Tick`. -/
def State.op (o : Op) (s : State) : Option (State × List Frame) :=
  match o with
  | .setLayoutName layoutIdx name => (s.setLayoutName layoutIdx name).map (fun s => (s, []))
  | .setGroup layoutIdx groupIdx labelHdr colHdrs ncols =>
      (s.setGroup layoutIdx groupIdx labelHdr colHdrs ncols).map (fun s => (s, []))
  | .setGroupNoHeader layoutIdx groupIdx =>
      (s.setGroupNoHeader layoutIdx groupIdx).map (fun s => (s, []))
  | .setRowFmt layoutIdx groupIdx rowIdx label values =>
      (s.setRowFmt layoutIdx groupIdx rowIdx label values).map (fun s => (s, []))
  | .setRowCols layoutIdx groupIdx rowIdx label values =>
      (s.setRowCols layoutIdx groupIdx rowIdx label values).map (fun s => (s, []))
  | .setTextRow layoutIdx groupIdx rowIdx label text =>
      (s.setTextRow layoutIdx groupIdx rowIdx label text).map (fun s => (s, []))
  | .logV level text => (s.logV level text).map (fun s => (s, []))
  | .popPendingKey => some (s.popPendingKey, [])
  | .tick i => s.tick i
  | .stop => some (s.stop, [])

/-- A sequence of calls and the frames that it draws. -/
def State.ops (s : State) : List Op → Option (State × List Frame)
  | [] => some (s, [])
  | o :: os => do
      let first ← s.op o
      let rest ← first.1.ops os
      some (rest.1, first.2 ++ rest.2)

/-- The constructor, `Init` and a sequence of calls. -/
def State.run (os : List Op) : Option (State × List Frame) := do
  let s ← State.construct
  s.initialize.ops os

end Memory
end RtTui
end Log
end DtCore
