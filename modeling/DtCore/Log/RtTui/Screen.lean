import DtCore.Foundation.Pen
import DtCore.Log.RtTui.Window

/-!
# The frame that a Tick draws

A frame is a list of lines, each at the row that the cursor is moved to for it, in the
order in which `RenderArea1`, `RenderArea2` and `RenderCmdLine` write them to the output
buffer.  Of a line only its parts are kept here, not the colours, the padding and the
line characters around them, nor where the thumb of the scrollbar is.

Main definitions:

- `TuiLayoutData.renderArea1`, `State.drawArea2`, `State.renderCmdLine`: the renderers.
- `TuiLayoutData.area1Lines`: the lines that a layout has to show.
- `State.frame`: the frame of a `Tick`.
- `Tiles`: the rows of a frame.

Main results:

- Theorem `renderArea1_eq`: `RenderArea1` cuts the lines at its height or fills up.
- Theorem `tiles_frame`: the rows of every frame tile the screen.
-/

namespace DtCore
namespace Log
namespace RtTui

open Foundation RtLog

/-! ## What is drawn -/

/-- A line of the screen. -/
inductive Drawn where
  | area1Top (name : Bytes)
  | separator
  | header (label : Bytes) (cells : List Bytes)
  | underline
  | textRow (label text : Bytes)
  | dataRow (label : Bytes) (cells : List Bytes)
  | blank
  | area1Bottom
  | area2Top (autoScroll : Bool)
  | logLine (message : Option Bytes)
  | scrollbar
  | area2Bottom
  | cmdLine (layouts : List (Nat × Bytes)) (current : Nat) (lastKey : UInt8)
deriving DecidableEq

inductive Region where
  | area1
  | area2
  | cmdLine
deriving DecidableEq

def Drawn.region : Drawn → Region
  | .area1Top _ | .separator | .header _ _ | .underline | .textRow _ _ | .dataRow _ _
  | .blank | .area1Bottom => .area1
  | .area2Top _ | .logLine _ | .scrollbar | .area2Bottom => .area2
  | .cmdLine _ _ _ => .cmdLine

/-! ## Area 1 -/

/-- The data columns that fit on a screen. -/
def maxColsFit (width : Int) : Nat :=
  (min ((width - 23).tdiv 12) tuiMaxCols).toNat

def TuiGroupHeader.line (width : Int) (gh : TuiGroupHeader) : Drawn :=
  .header gh.label ((List.range (maxColsFit width)).map (fun c =>
    if c < gh.ncols then gh.cols c else ascii "."))

def TuiDataRow.line (width : Int) (dr : TuiDataRow) : Drawn :=
  if dr.textMode then .textRow dr.label (dr.text.take (width - 24).toNat)
  else .dataRow dr.label ((List.range (maxColsFit width)).map (fun ci =>
    if ci < dr.ncols then dr.col ci else []))

/-- The data rows of a group. -/
def TuiGroupRowData.lines (width : Int) (gdata : TuiGroupRowData) : List Drawn :=
  (List.range gdata.nrows).map (fun r => (gdata.rows r).line width)

/-- One pass of the group loop of `RenderArea1`; the flag is `firstGroup`. -/
def TuiLayoutData.renderGroup (width bot : Int) (layout : TuiLayoutData)
    (s : Pen Drawn × Bool) (g : Nat) : Pen Drawn × Bool :=
  let gh := layout.groupHeaders g
  if s.1.row < bot then
    if gh.active then
      let pen := if s.2 then s.1 else s.1.putIf bot .separator
      let pen := if gh.hideHeader then pen
        else (pen.putIf bot (gh.line width)).putIf bot .underline
      (((layout.readBuf.groups g).lines width).foldl (Pen.putIf bot) pen, false)
    else s
  else s

/-- `RenderArea1`. -/
def TuiLayoutData.renderArea1 (startRow height width : Int) (layout : TuiLayoutData) :
    List (Int × Drawn) :=
  if height < 4 then []
  else
    let layout := layout.swapArea1
    let bot := startRow + height - 1
    let pen := (Pen.start startRow).put (.area1Top layout.name)
    let pen := ((List.range tuiMaxGroups).foldl (layout.renderGroup width bot) (pen, true)).1
    (pen.fill bot .blank).drawn ++ [(bot, .area1Bottom)]

/-! ## Area 2 and the command line -/

/-- `%.*s` of a message; a negative precision does not count. -/
def messageText (width : Int) (e : TuiLogEntry) : Bytes :=
  if width - 4 < 0 then e.msg else e.msg.take (width - 4).toNat

/-- `RenderScrollbar`. -/
def renderScrollbar (startRow height : Int) (total : Nat) : List (Int × Drawn) :=
  if total ≤ height.toNat then [] else place startRow (List.replicate height.toNat .scrollbar)

/-- The lines of `RenderArea2` between its borders. -/
def State.logLines (height width : Int) (s : State) : List Drawn :=
  (s.renderArea2 height).map (fun line => .logLine (line.map (messageText width)))

/-- `RenderArea2`. -/
def State.drawArea2 (startRow height width : Int) (s : State) : List (Int × Drawn) :=
  if height < 3 then []
  else
    (startRow, .area2Top s.autoScroll) :: (place (startRow + 1) (s.logLines height width) ++
      renderScrollbar (startRow + 1) (height - 2) s.logHistory.count ++
      [(startRow + height - 1, .area2Bottom)])

/-- `RenderCmdLine`; the names are short enough for all layouts to fit in its buffer. -/
def State.renderCmdLine (row : Int) (s : State) : Int × Drawn :=
  (row, .cmdLine
    (((List.range maxLayouts).filter (fun i => (s.layouts i).defined)).map (fun i =>
      (i + 1, (s.layouts i).name.take 8))) s.currentLayout s.lastKey)

/-- The frame of a `Tick`. -/
def State.frame (i : TickInput) (s : State) : List (Int × Drawn) :=
  if s.running then
    let t := s.beforeRender i
    let area1 := t.areaHeights.1
    let area2 := t.areaHeights.2
    (t.layouts t.currentLayout).renderArea1 1 area1 t.termCols ++
      t.drawArea2 (area1 + 1) area2 t.termCols ++ [t.renderCmdLine t.termRows]
  else []

/-! ## The lines of a layout -/

/-- The header of a group, its underline and its data rows. -/
def TuiLayoutData.groupLines (width : Int) (layout : TuiLayoutData) (g : Nat) : List Drawn :=
  (if (layout.groupHeaders g).hideHeader then []
    else [(layout.groupHeaders g).line width, .underline]) ++
    (layout.readBuf.groups g).lines width

/-- The lines of the active groups, with a separator in front of all but the first. -/
def TuiLayoutData.linesFrom (width : Int) (layout : TuiLayoutData) :
    Bool → List Nat → List Drawn
  | _, [] => []
  | first, g :: gs =>
      if (layout.groupHeaders g).active then
        (if first then [] else [.separator]) ++
          (layout.groupLines width g ++ layout.linesFrom width false gs)
      else layout.linesFrom width first gs

/-- Lines cut or filled up to `n` rows. -/
def fitRows (n : Nat) (lines : List Drawn) : List Drawn :=
  lines.take n ++ List.replicate (n - lines.length) .blank

/-- The lines that a layout has to show between the borders of Area 1. -/
def TuiLayoutData.area1Lines (width : Int) (layout : TuiLayoutData) : List Drawn :=
  layout.linesFrom width true (List.range tuiMaxGroups)

theorem region_line_row (width : Int) (dr : TuiDataRow) : (dr.line width).region = .area1 := by
  unfold TuiDataRow.line
  split <;> rfl

theorem region_groupLines {width : Int} {layout : TuiLayoutData} {g : Nat} {d : Drawn}
    (h : d ∈ layout.groupLines width g) : d.region = .area1 := by
  unfold TuiLayoutData.groupLines at h
  rcases List.mem_append.mp h with hheader | hrow
  · split at hheader
    · contradiction
    · simp only [List.mem_cons, List.not_mem_nil, or_false] at hheader
      rcases hheader with rfl | rfl
      · rfl
      · rfl
  · rcases List.mem_map.mp hrow with ⟨r, _, rfl⟩
    exact region_line_row width _

theorem region_linesFrom {width : Int} {layout : TuiLayoutData} {first : Bool} {gs : List Nat}
    {d : Drawn} (h : d ∈ layout.linesFrom width first gs) : d.region = .area1 := by
  induction gs generalizing first with
  | nil => contradiction
  | cons g gs ih =>
      unfold TuiLayoutData.linesFrom at h
      split at h
      · rcases List.mem_append.mp h with hsep | hrest
        · cases first with
          | true => contradiction
          | false =>
              rw [List.mem_singleton.mp hsep]
              rfl
        · rcases List.mem_append.mp hrest with hgroup | hrest
          · exact region_groupLines hgroup
          · exact ih hrest
      · exact ih h

/-! ## `RenderArea1` -/

section Area1

variable {width first bot : Int} {layout : TuiLayoutData}

/-- A pass asks the pen for the lines of its group. -/
theorem holds_renderGroup {pen : Pen Drawn} {items : List Drawn}
    (h : pen.Holds first bot items) (hroom : pen.row < bot) {g : Nat}
    (hactive : (layout.groupHeaders g).active = true) (flag : Bool) :
    ∃ pen', layout.renderGroup width bot (pen, flag) g = (pen', false) ∧
      pen'.Holds first bot
        (items ++ ((if flag then [] else [.separator]) ++ layout.groupLines width g)) := by
  have hsep : (if flag then pen else pen.putIf bot .separator).Holds first bot
      (items ++ if flag then [] else [.separator]) := by
    cases flag with
    | true =>
        rw [if_pos rfl, if_pos rfl, List.append_nil]
        exact h
    | false => exact h.putIf _
  have hheader : ∀ {pen : Pen Drawn} {items : List Drawn}, pen.Holds first bot items →
      (if (layout.groupHeaders g).hideHeader then pen
        else (pen.putIf bot ((layout.groupHeaders g).line width)).putIf bot .underline).Holds
          first bot
        (items ++ if (layout.groupHeaders g).hideHeader then []
          else [(layout.groupHeaders g).line width, .underline]) := by
    intro pen items h
    split
    · rw [List.append_nil]
      exact h
    · have hboth := (h.putIf ((layout.groupHeaders g).line width)).putIf .underline
      rw [List.append_assoc] at hboth
      exact hboth
  have hrows := (hheader hsep).foldl_putIf ((layout.readBuf.groups g).lines width)
  rw [List.append_assoc, List.append_assoc] at hrows
  refine ⟨_, ?_, hrows⟩
  unfold TuiLayoutData.renderGroup
  rw [if_pos hroom, if_pos hactive]

/-- At the limit nothing more is drawn. -/
theorem foldl_renderGroup_full {s : Pen Drawn × Bool} (hfull : ¬ s.1.row < bot) (gs : List Nat) :
    gs.foldl (layout.renderGroup width bot) s = s := by
  induction gs with
  | nil => rfl
  | cons g gs ih =>
      have hskip : layout.renderGroup width bot s g = s := if_neg hfull
      rw [List.foldl_cons, hskip, ih]

theorem holds_foldl_renderGroup (width : Int) (layout : TuiLayoutData) {pen : Pen Drawn}
    {items : List Drawn} (h : pen.Holds first bot items) (flag : Bool) (gs : List Nat) :
    (gs.foldl (layout.renderGroup width bot) (pen, flag)).1.Holds first bot
      (items ++ layout.linesFrom width flag gs) := by
  induction gs generalizing pen items flag with
  | nil =>
      rw [TuiLayoutData.linesFrom, List.append_nil]
      exact h
  | cons g gs ih =>
      by_cases hroom : pen.row < bot
      · by_cases hactive : (layout.groupHeaders g).active = true
        · rcases holds_renderGroup h hroom hactive flag with ⟨pen', hgroup, hpen⟩
          have hrest := ih hpen false
          rw [List.append_assoc, List.append_assoc] at hrest
          rw [TuiLayoutData.linesFrom, if_pos hactive, List.foldl_cons, hgroup]
          exact hrest
        · have hskip : layout.renderGroup width bot (pen, flag) g = (pen, flag) := by
            unfold TuiLayoutData.renderGroup
            simp [hactive]
          rw [TuiLayoutData.linesFrom, if_neg hactive, List.foldl_cons, hskip]
          exact ih h flag
      · rw [foldl_renderGroup_full hroom]
        exact h.append hroom _

theorem length_fitRows (n : Nat) (lines : List Drawn) : (fitRows n lines).length = n := by
  unfold fitRows
  rw [List.length_append, List.length_take, List.length_replicate]
  omega

/-- On `height` rows `RenderArea1` draws its borders and between them the first lines,
in their order, and blank rows when there are fewer. -/
theorem renderArea1_eq (startRow width : Int) {height : Int} (h : 4 ≤ height)
    (layout : TuiLayoutData) :
    layout.renderArea1 startRow height width =
      place startRow (.area1Top layout.name ::
        (fitRows (height - 2).toNat (layout.swapArea1.area1Lines width) ++ [.area1Bottom])) := by
  have hnot : ¬ height < 4 := by omega
  have hname := (swapArea1_seen layout).1
  have hroom : (Pen.start startRow : Pen Drawn).row < startRow + height - 1 := by
    show startRow < startRow + height - 1
    omega
  have htop := (Pen.Holds.start startRow (startRow + height - 1)).put hroom
    (Drawn.area1Top layout.swapArea1.name)
  have hgroups := holds_foldl_renderGroup width layout.swapArea1 htop true
    (List.range tuiMaxGroups)
  have hfill := hgroups.fill (by omega) .blank
  have hcap : (startRow + height - 1 - startRow).toNat = (height - 2).toNat + 1 := by omega
  have hitems : ([] ++ [Drawn.area1Top layout.swapArea1.name] ++
      layout.swapArea1.linesFrom width true (List.range tuiMaxGroups)) =
        .area1Top layout.name :: layout.swapArea1.area1Lines width := by
    rw [hname]
    rfl
  rw [hitems, hcap, List.take_succ_cons, List.length_cons, Nat.add_sub_add_right,
    List.cons_append] at hfill
  have hbot : startRow + height - 1 = startRow + (Drawn.area1Top layout.name ::
      fitRows (height - 2).toNat (layout.swapArea1.area1Lines width)).length := by
    rw [List.length_cons, length_fitRows]
    omega
  unfold TuiLayoutData.renderArea1
  rw [if_neg hnot]
  dsimp only
  have hsplit := place_append startRow (Drawn.area1Top layout.name ::
    fitRows (height - 2).toNat (layout.swapArea1.area1Lines width)) [.area1Bottom]
  rw [← hbot] at hsplit
  rw [hfill]
  exact hsplit.symm

end Area1

/-! ## The tiling -/

def Drawn.isScrollbar : Drawn → Bool
  | .scrollbar => true
  | _ => false

/-- A frame for the state in front of the rendering: Area 1 has the rows up to `a`, the
last row is the command line and Area 2 has the rows between; within the areas every row
holds what it should, and the scrollbar is drawn over the log lines only. -/
structure Tiles (t : State) (a rows : Int) (frame : List (Int × Drawn)) : Prop where
  area1_height : 4 ≤ a
  area2_height : area2MinRows ≤ rows - 1 - a
  on_screen : ∀ d ∈ frame, 1 ≤ d.1 ∧ d.1 ≤ rows
  region : ∀ d ∈ frame, d.2.region =
    if d.1 ≤ a then .area1 else if d.1 < rows then .area2 else .cmdLine
  covered : ∀ r, 1 ≤ r → r ≤ rows → ∃ d ∈ frame, d.1 = r
  area1 : frame.filter (fun d => d.2.region == .area1) =
    place 1 (.area1Top (t.layouts t.currentLayout).name ::
      (fitRows (a - 2).toNat
        ((t.layouts t.currentLayout).swapArea1.area1Lines t.termCols) ++ [.area1Bottom]))
  area2 : frame.filter (fun d => d.2.region == .area2 && !d.2.isScrollbar) =
    place (a + 1) (.area2Top t.autoScroll ::
      (t.logLines (rows - 1 - a) t.termCols ++ [.area2Bottom]))
  logLines : ((t.logLines (rows - 1 - a) t.termCols).length : Int) = rows - 1 - a - 2
  scrollbar : ∀ d ∈ frame, d.2.isScrollbar → a + 2 ≤ d.1 ∧ d.1 ≤ rows - 2
  cmdLine : frame.filter (fun d => d.2.region == .cmdLine) = [t.renderCmdLine rows]

theorem region_fitRows {n : Nat} {width : Int} {layout : TuiLayoutData} {d : Drawn}
    (h : d ∈ fitRows n (layout.area1Lines width)) : d.region = .area1 := by
  rcases List.mem_append.mp h with hline | hblank
  · exact region_linesFrom (List.mem_of_mem_take hline)
  · rw [List.eq_of_mem_replicate hblank]
    rfl

theorem region_renderArea1 {width startRow height : Int} (h : 4 ≤ height)
    {layout : TuiLayoutData} {d : Int × Drawn}
    (hd : d ∈ layout.renderArea1 startRow height width) :
    d.2.region = .area1 ∧ startRow ≤ d.1 ∧ d.1 < startRow + height := by
  rw [renderArea1_eq startRow width h] at hd
  rcases mem_place hd with ⟨hlow, hhigh, hmem⟩
  rw [List.length_cons, List.length_append, length_fitRows, List.length_singleton] at hhigh
  constructor
  · rcases List.mem_cons.mp hmem with htop | hrest
    · rw [htop]
      rfl
    · rcases List.mem_append.mp hrest with hline | hbottom
      · exact region_fitRows hline
      · rw [List.mem_singleton.mp hbottom]
        rfl
  · omega

theorem length_logLines (width : Int) {height : Int} (h : 3 ≤ height) (s : State) :
    (s.logLines height width).length = (height - 2).toNat := by
  have hnot : ¬ height < 3 := by omega
  unfold State.logLines State.renderArea2
  rw [if_neg hnot]
  simp

theorem region_logLines {height width : Int} {s : State} {d : Drawn}
    (h : d ∈ s.logLines height width) : d.region = .area2 ∧ d.isScrollbar = false := by
  rcases List.mem_map.mp h with ⟨line, _, rfl⟩
  exact ⟨rfl, rfl⟩

theorem mem_renderScrollbar {startRow height : Int} {total : Nat} {d : Int × Drawn}
    (h : d ∈ renderScrollbar startRow height total) :
    d.2 = .scrollbar ∧ startRow ≤ d.1 ∧ d.1 < startRow + height := by
  unfold renderScrollbar at h
  split at h
  · contradiction
  · rcases mem_place h with ⟨hlow, hhigh, hmem⟩
    rw [List.length_replicate] at hhigh
    exact ⟨List.eq_of_mem_replicate hmem, hlow, by omega⟩

/-- What `RenderArea2` draws apart from the scrollbar. -/
theorem drawArea2_eq (startRow width : Int) {height : Int} (h : 3 ≤ height) (s : State) :
    ∃ bar, s.drawArea2 startRow height width =
        place startRow (.area2Top s.autoScroll :: s.logLines height width) ++ bar ++
          place (startRow + height - 1) [.area2Bottom] ∧
      place startRow (.area2Top s.autoScroll :: s.logLines height width) ++
          place (startRow + height - 1) [.area2Bottom] =
        place startRow (.area2Top s.autoScroll ::
          (s.logLines height width ++ [.area2Bottom])) ∧
      ∀ d ∈ bar, d.2 = .scrollbar ∧ startRow + 1 ≤ d.1 ∧ d.1 < startRow + height - 1 := by
  have hnot : ¬ height < 3 := by omega
  refine ⟨renderScrollbar (startRow + 1) (height - 2) s.logHistory.count, ?_, ?_, ?_⟩
  · unfold State.drawArea2
    rw [if_neg hnot]
    rfl
  · have hlen : startRow + height - 1 = startRow +
        (Drawn.area2Top s.autoScroll :: s.logLines height width).length := by
      rw [List.length_cons, length_logLines width h]
      omega
    rw [hlen, ← place_append]
    rfl
  · intro d hd
    rcases mem_renderScrollbar hd with ⟨hbar, hlow, hhigh⟩
    exact ⟨hbar, hlow, by omega⟩

theorem region_drawArea2 {width startRow height : Int} {s : State} (h : 3 ≤ height)
    {d : Int × Drawn} (hd : d ∈ s.drawArea2 startRow height width) :
    d.2.region = .area2 ∧ startRow ≤ d.1 ∧ d.1 < startRow + height ∧
      (d.2.isScrollbar → startRow + 1 ≤ d.1 ∧ d.1 < startRow + height - 1) := by
  rcases drawArea2_eq startRow width h s with ⟨bar, heq, hplain, hbar⟩
  rw [heq] at hd
  have hsplit : d ∈ bar ∨ d ∈ place startRow (.area2Top s.autoScroll ::
      (s.logLines height width ++ [.area2Bottom])) := by
    rw [← hplain]
    simp only [List.mem_append] at hd ⊢
    tauto
  rcases hsplit with hscroll | hrow
  · rcases hbar d hscroll with ⟨hd2, hlow, hhigh⟩
    rw [hd2]
    exact ⟨rfl, by omega, by omega, fun _ => ⟨hlow, hhigh⟩⟩
  · rcases mem_place hrow with ⟨hlow, hhigh, hmem⟩
    rw [List.length_cons, List.length_append, length_logLines width h,
      List.length_singleton] at hhigh
    have hregion : d.2.region = .area2 ∧ d.2.isScrollbar = false := by
      rcases List.mem_cons.mp hmem with htop | hrest
      · rw [htop]
        exact ⟨rfl, rfl⟩
      · rcases List.mem_append.mp hrest with hline | hbottom
        · exact region_logLines hline
        · rw [List.mem_singleton.mp hbottom]
          exact ⟨rfl, rfl⟩
    refine ⟨hregion.1, hlow, by omega, ?_⟩
    rw [hregion.2]
    exact fun hfalse => absurd hfalse Bool.false_ne_true

theorem region_of_isScrollbar {d : Drawn} (h : d.isScrollbar = true) : d.region = .area2 := by
  cases d <;> first | rfl | contradiction

/-- The texts of a region are all of a part that is in the region. -/
theorem filter_region {part : List (Int × Drawn)} {reg : Region}
    (h : ∀ d ∈ part, d.2.region = reg) : part.filter (fun d => d.2.region == reg) = part := by
  rw [List.filter_eq_self]
  intro d hd
  rw [h d hd]
  exact beq_self_eq_true reg

/-- A part that is in one region has no texts of another. -/
theorem filter_region_of_ne {part : List (Int × Drawn)} {reg reg' : Region}
    (h : ∀ d ∈ part, d.2.region = reg') (hne : reg' ≠ reg) :
    part.filter (fun d => d.2.region == reg) = [] := by
  rw [List.filter_eq_nil_iff]
  intro d hd
  rw [h d hd, beq_iff_eq]
  exact hne

/-- The texts of Area 2 without the scrollbar are those of a part that has only such. -/
theorem filter_area2 {start : Int} {items : List Drawn}
    (h : ∀ d ∈ items, d.region = .area2 ∧ d.isScrollbar = false) :
    (place start items).filter (fun d => d.2.region == .area2 && !d.2.isScrollbar) =
      place start items := by
  rw [List.filter_eq_self]
  intro d hd
  have hin := h d.2 (mem_place hd).2.2
  rw [hin.1, hin.2]
  rfl

theorem filter_area2_eq_nil {part : List (Int × Drawn)}
    (h : ∀ d ∈ part, d.2.region ≠ .area2 ∨ d.2 = .scrollbar) :
    part.filter (fun d => d.2.region == .area2 && !d.2.isScrollbar) = [] := by
  rw [List.filter_eq_nil_iff]
  intro d hd
  rw [Bool.and_eq_true, beq_iff_eq]
  rintro ⟨hregion, hplain⟩
  rcases h d hd with hne | hbar
  · exact hne hregion
  · rw [hbar] at hplain
    contradiction

/-- `RenderArea1` draws on each of its lines. -/
theorem covered_area1 {height r : Int} (startRow width : Int) (h : 4 ≤ height)
    (layout : TuiLayoutData) (hlow : startRow ≤ r) (hhigh : r < startRow + height) :
    ∃ d ∈ layout.renderArea1 startRow height width, d.1 = r := by
  have hend : r < startRow + (Drawn.area1Top layout.name ::
      (fitRows (height - 2).toNat (layout.swapArea1.area1Lines width) ++
        [.area1Bottom])).length := by
    rw [List.length_cons, List.length_append, length_fitRows, List.length_singleton]
    omega
  rw [renderArea1_eq startRow width h layout]
  exact exists_mem_place hlow hend

/-- `RenderArea2` draws on each of its lines. -/
theorem covered_area2 {height r : Int} (startRow width : Int) (h : 3 ≤ height) (s : State)
    (hlow : startRow ≤ r) (hhigh : r < startRow + height) :
    ∃ d ∈ s.drawArea2 startRow height width, d.1 = r := by
  rcases drawArea2_eq startRow width h s with ⟨bar, hrows, hplain, _⟩
  have hend : r < startRow + (Drawn.area2Top s.autoScroll ::
      (s.logLines height width ++ [.area2Bottom])).length := by
    rw [List.length_cons, List.length_append, length_logLines width h, List.length_singleton]
    omega
  rcases exists_mem_place hlow hend with ⟨d, hd, hrow⟩
  rw [← hplain] at hd
  refine ⟨d, ?_, hrow⟩
  rw [hrows, List.append_assoc]
  rcases List.mem_append.mp hd with htop | hbottom
  · exact List.mem_append_left _ htop
  · exact List.mem_append_right _ (List.mem_append_right _ hbottom)

/-- What `RenderArea2` draws without the scrollbar, line by line. -/
theorem filter_drawArea2 (startRow width : Int) {height : Int} (h : 3 ≤ height) (s : State) :
    (s.drawArea2 startRow height width).filter
        (fun d => d.2.region == .area2 && !d.2.isScrollbar) =
      place startRow (.area2Top s.autoScroll ::
        (s.logLines height width ++ [.area2Bottom])) := by
  rcases drawArea2_eq startRow width h s with ⟨bar, hrows, hplain, hbar⟩
  have hbars := filter_area2_eq_nil (fun d hd => Or.inr (hbar d hd).1)
  have hlog : ∀ d ∈ Drawn.area2Top s.autoScroll :: s.logLines height width,
      d.region = .area2 ∧ d.isScrollbar = false := by
    intro d hd
    rcases List.mem_cons.mp hd with htop | hline
    · rw [htop]
      exact ⟨rfl, rfl⟩
    · exact region_logLines hline
  have hbottom : ∀ d ∈ [Drawn.area2Bottom], d.region = .area2 ∧ d.isScrollbar = false := by
    intro d hd
    rw [List.mem_singleton.mp hd]
    exact ⟨rfl, rfl⟩
  rw [hrows, List.filter_append, List.filter_append, hbars, filter_area2 hlog,
    filter_area2 hbottom, List.append_nil, hplain]

/-- The three renderers one below the other tile the screen. -/
theorem tiles_of_heights {t : State} {a rows : Int} (ha : 4 ≤ a)
    (hrest : area2MinRows ≤ rows - 1 - a) :
    Tiles t a rows ((t.layouts t.currentLayout).renderArea1 1 a t.termCols ++
      t.drawArea2 (a + 1) (rows - 1 - a) t.termCols ++ [t.renderCmdLine rows]) := by
  have hheight : 3 ≤ rows - 1 - a := by
    unfold area2MinRows at hrest
    omega
  have harea1 : ∀ d ∈ (t.layouts t.currentLayout).renderArea1 1 a t.termCols,
      d.2.region = .area1 ∧ 1 ≤ d.1 ∧ d.1 < 1 + a :=
    fun _ hd => region_renderArea1 ha hd
  have harea2 : ∀ d ∈ t.drawArea2 (a + 1) (rows - 1 - a) t.termCols,
      d.2.region = .area2 ∧ a + 1 ≤ d.1 ∧ d.1 < a + 1 + (rows - 1 - a) ∧
        (d.2.isScrollbar → a + 1 + 1 ≤ d.1 ∧ d.1 < a + 1 + (rows - 1 - a) - 1) :=
    fun _ hd => region_drawArea2 hheight hd
  have hrow1 := renderArea1_eq 1 t.termCols ha (t.layouts t.currentLayout)
  have hrow2 := filter_drawArea2 (a + 1) t.termCols hheight t
  have hcovered1 : ∀ r, 1 ≤ r → r < 1 + a →
      ∃ d ∈ (t.layouts t.currentLayout).renderArea1 1 a t.termCols, d.1 = r :=
    fun _ => covered_area1 1 t.termCols ha _
  have hcovered2 : ∀ r, a + 1 ≤ r → r < a + 1 + (rows - 1 - a) →
      ∃ d ∈ t.drawArea2 (a + 1) (rows - 1 - a) t.termCols, d.1 = r :=
    fun _ => covered_area2 (a + 1) t.termCols hheight t
  have hlines := length_logLines t.termCols hheight t
  generalize (t.layouts t.currentLayout).renderArea1 1 a t.termCols = A1 at *
  generalize t.drawArea2 (a + 1) (rows - 1 - a) t.termCols = A2 at *
  have hmem : ∀ d ∈ A1 ++ A2 ++ [t.renderCmdLine rows],
      d ∈ A1 ∨ d ∈ A2 ∨ d = t.renderCmdLine rows := by
    intro d hd
    simpa [or_assoc] using hd
  -- No text of one region is in the part of another.
  have hkeep : ∀ (p : Int × Drawn → Bool), (A1 ++ A2 ++ [t.renderCmdLine rows]).filter p =
      A1.filter p ++ A2.filter p ++ [t.renderCmdLine rows].filter p := by
    intro p
    rw [List.filter_append, List.filter_append]
  constructor
  · exact ha
  · exact hrest
  · intro d hd
    rcases hmem d hd with h1 | h2 | hcmd
    · have hin := harea1 d h1
      omega
    · have hin := harea2 d h2
      omega
    · have hrow : d.1 = rows := by rw [hcmd]; rfl
      omega
  · intro d hd
    rcases hmem d hd with h1 | h2 | hcmd
    · have hin := harea1 d h1
      rw [hin.1, if_pos (by omega)]
    · have hin := harea2 d h2
      rw [hin.1, if_neg (by omega), if_pos (by omega)]
    · have hrow : d.1 = rows := by rw [hcmd]; rfl
      rw [if_neg (by omega), if_neg (by omega), hcmd]
      rfl
  · intro r hlow hhigh
    by_cases h1 : r ≤ a
    · rcases hcovered1 r hlow (by omega) with ⟨d, hd, hrow⟩
      exact ⟨d, by simp [hd], hrow⟩
    · by_cases h2 : r < rows
      · rcases hcovered2 r (by omega) (by omega) with ⟨d, hd, hrow⟩
        exact ⟨d, by simp [hd], hrow⟩
      · refine ⟨t.renderCmdLine rows, by simp, ?_⟩
        show rows = r
        omega
  · rw [hkeep, filter_region (fun d hd => (harea1 d hd).1),
      filter_region_of_ne (fun d hd => (harea2 d hd).1) (by decide), hrow1, List.append_nil]
    exact List.append_nil _
  · have hnil := filter_area2_eq_nil (fun d hd => Or.inl (by rw [(harea1 d hd).1]; decide))
    rw [hkeep, hnil, hrow2]
    exact List.append_nil _
  · rw [hlines]
    omega
  · intro d hd hscroll
    rcases hmem d hd with h1 | h2 | hcmd
    · have hregion := (harea1 d h1).1
      rw [region_of_isScrollbar hscroll] at hregion
      contradiction
    · have hin := (harea2 d h2).2.2.2 hscroll
      omega
    · rw [hcmd] at hscroll
      contradiction
  · rw [hkeep, filter_region_of_ne (fun d hd => (harea1 d hd).1) (by decide),
      filter_region_of_ne (fun d hd => (harea2 d hd).1) (by decide)]
    rfl

/-- On a terminal with at least ten rows the two areas have room. -/
theorem areaHeights_fit (s : State) (i : TickInput) (hrows : 10 ≤ (termGetSize i.winsize).1) :
    4 ≤ (s.beforeRender i).areaHeights.1 ∧
      area2MinRows ≤ (termGetSize i.winsize).1 - 1 - (s.beforeRender i).areaHeights.1 ∧
      (s.beforeRender i).areaHeights.2 =
        (termGetSize i.winsize).1 - 1 - (s.beforeRender i).areaHeights.1 := by
  have htermRows : (s.beforeRender i).termRows = (termGetSize i.winsize).1 := rfl
  generalize (termGetSize i.winsize).1 = n at *
  unfold State.areaHeights area2MinRows
  rw [htermRows]
  dsimp only
  omega

/-- For every state and every terminal with at least ten rows: the rows of the frame of
a `Tick` tile the screen. -/
theorem tiles_frame (s : State) (i : TickInput) (hrunning : s.running = true)
    (hrows : 10 ≤ (termGetSize i.winsize).1) :
    Tiles (s.beforeRender i) (s.beforeRender i).areaHeights.1 (termGetSize i.winsize).1
      (s.frame i) := by
  have htermRows : (s.beforeRender i).termRows = (termGetSize i.winsize).1 := rfl
  rcases areaHeights_fit s i hrows with ⟨hlow, hhigh, harea2⟩
  have htiles := tiles_of_heights hlow hhigh (t := s.beforeRender i)
  unfold State.frame
  rw [if_pos hrunning]
  dsimp only
  rw [harea2, htermRows]
  exact htiles

/-- A `Tick` without a key on a terminal of 24 rows. -/
def firstTick : TickInput where
  keys := []
  winsize := some (24, 80)

end RtTui
end Log
end DtCore
