import DtCore.Foundation.TextScreen
import DtCore.Log.RtTui.Memory
import DtCore.Log.RtTui.Output

/-!
# What a frame looks like

The renderers place the cursor on a row and send a line for it, some texts of which
come from the user.  On a terminal that wraps automatically a line can run on into the
next rows, where it is overwritten when they get their own lines, or below the last row,
where the terminal scrolls.  `RenderCmdLine` ignores the width, and `RenderArea2` sends
the control bytes of a message.

The texts of a frame are those that `snprintf` makes without the limit of the output
buffer.  The terminal has the size that the `Tick` was given.

Main definitions:

- `Drawn.ops`: what is sent for a line.
- `State.expected`: the lines that a state has to show, on their rows.
- `State.ShowsFrame`: a frame tiles the screen and is shown.

Main result:

- Theorem `showsFrame_iff`: it is if and only if each of these lines fits from its row on.
-/

namespace DtCore
namespace Log
namespace RtTui

open Foundation RtLog

/-! ## The bytes of a line -/

/-- `│`. -/
def vbar : Bytes := [0xe2, 0x94, 0x82]

/-- `┌`. -/
def topLeft : Bytes := [0xe2, 0x94, 0x8c]

/-- `┐`. -/
def topRight : Bytes := [0xe2, 0x94, 0x90]

/-- `└`. -/
def bottomLeft : Bytes := [0xe2, 0x94, 0x94]

/-- `┘`. -/
def bottomRight : Bytes := [0xe2, 0x94, 0x98]

/-- `├`. -/
def teeLeft : Bytes := [0xe2, 0x94, 0x9c]

/-- `┤`. -/
def teeRight : Bytes := [0xe2, 0x94, 0xa4]

/-- `█`. -/
def fullBlock : Bytes := [0xe2, 0x96, 0x88]

/-- `↑` and `↓`. -/
def arrows : Bytes := [0xe2, 0x86, 0x91, 0xe2, 0x86, 0x93]

/-- `AppendData_hbar`. -/
def hbars (n : Int) : Bytes :=
  (List.replicate n.toNat hbar).flatten

/-- `%-ns`. -/
def padRight (n : Nat) (text : Bytes) : Bytes :=
  text ++ List.replicate (n - text.length) 0x20

/-- `%ns`. -/
def padLeft (n : Nat) (text : Bytes) : Bytes :=
  List.replicate (n - text.length) 0x20 ++ text

/-- The title of Area 1, cut to its array of 48 bytes. -/
def titleText (name : Bytes) : Bytes :=
  truncateTo 48 (ascii "[ " ++ name ++ ascii " ]")

/-- The title of the log, of 23 characters. -/
def logTitle (autoScroll : Bool) : Bytes :=
  hbar ++ ascii (if autoScroll then "[ LOG : AUTO SCROLL ]" else "[ LOG : PAUSED      ]") ++ hbar

/-- ` ↑↓:Line  PgUp/PgDn:Page `, of 25 characters. -/
def hint : Bytes :=
  ascii " " ++ arrows ++ ascii ":Line  PgUp/PgDn:Page "

/-- One layout of the command line. -/
def switcherEntry (current : Nat) (layout : Nat × Bytes) : Bytes :=
  Memory.switcherText (layout.1 = current + 1) layout.1 layout.2

/-- The right border of a row. -/
def rightBorder (row width : Int) : List ScreenOp :=
  [.moveTo row width, .style, .text vbar, .style]

/-- A line that is drawn from border to border. -/
def fullLine (row width : Int) (left right : Bytes) : List ScreenOp :=
  [.moveTo row 1, .style, .text left, .text (hbars (width - 2)), .text right, .style]

/-- What is sent for a line; `thumb` tells whether a row has the thumb of the scrollbar. -/
def Drawn.ops (thumb : Int → Bool) (width row : Int) : Drawn → List ScreenOp
  | .area1Top name =>
      [.moveTo row 1, .style, .text topLeft, .text hbar, .style, .text (titleText name), .style,
        .text hbar, .text (hbars (width - 2 - textChars (titleText name))), .text topRight, .style]
  | .separator => fullLine row width teeLeft teeRight
  | .header label cells =>
      [.moveTo row 1, .style, .text vbar, .style, .text (ascii " "), .style,
        .text (padRight 20 label), .style] ++
        cells.map (fun cell => .text (ascii " " ++ padLeft 11 cell)) ++
        [.style, .eraseLine] ++ rightBorder row width
  | .underline => fullLine row width teeLeft teeRight
  | .textRow label text =>
      [.moveTo row 1, .style, .text vbar, .style, .text (ascii " "), .style,
        .text (padRight 20 label), .style, .eraseLine] ++
        (if 0 < width - 24 then
          [.text (ascii " "), .style, .text (padRight (width - 24).toNat text), .style]
        else []) ++ rightBorder row width
  | .dataRow label cells =>
      [.moveTo row 1, .style, .text vbar, .style, .text (ascii " "), .style,
        .text (padRight 20 label), .style, .eraseLine] ++
        -- a column that the row does not have is twelve blanks without colours
        cells.flatMap (fun cell => [.text (ascii " "), .style, .text (padLeft 11 cell), .style]) ++
        rightBorder row width
  | .blank => [.moveTo row 1, .style, .text vbar, .style, .eraseLine] ++ rightBorder row width
  | .area1Bottom => fullLine row width bottomLeft bottomRight
  | .area2Top autoScroll =>
      [.moveTo row 1, .style, .text topLeft, .style, .text (logTitle autoScroll), .style,
        .text (hbars (width - 2 - textChars (logTitle autoScroll))), .moveTo row width,
        .text topRight, .style]
  | .logLine message =>
      [.moveTo row 1, .style, .text vbar, .style, .eraseLine] ++
        (match message with
        | some text => [.text (ascii " " ++ text)]
        | none => []) ++ [.style] ++ rightBorder row width
  | .scrollbar =>
      [.moveTo row (width - 1), .style, .text (if thumb row then fullBlock else ascii " "), .style]
  | .area2Bottom =>
      [.moveTo row 1, .style, .text bottomLeft, .text (hbars (width - 2)),
        .moveTo row (max 2 (width - 1 - textChars hint)), .style, .text hint,
        .moveTo row (width - 1), .style, .text hbar, .text bottomRight, .style]
  | .cmdLine layouts current lastKey =>
      [.moveTo row 1, .style, .text (ascii " LAYOUTS: "), .style,
        .text (layouts.flatMap (switcherEntry current)), .style, .text (ascii "  CMD: "), .style,
        .text (padRight 10 (Memory.keyText lastKey)), .style, .eraseLine]

/-- What is sent for a line on its row. -/
def piece (thumb : Int → Bool) (width : Int) (d : Int × Drawn) : Piece where
  row := d.1
  ops := d.2.ops thumb width d.1

/-- The screen that a `Tick` draws on: the size that the terminal reports. -/
def TickInput.screen (i : TickInput) : ScreenSize where
  rows := (termGetSize i.winsize).1
  cols := (termGetSize i.winsize).2

/-- The lines of Area 1: those of the layout between their borders. -/
def State.area1Rows (t : State) (a : Int) : List Drawn :=
  .area1Top (t.layouts t.currentLayout).name ::
    (fitRows (a - 2).toNat ((t.layouts t.currentLayout).swapArea1.area1Lines t.termCols) ++
      [.area1Bottom])

/-- The lines of Area 2 without the lower border. -/
def State.logRows (t : State) (height : Int) : List Drawn :=
  .area2Top t.autoScroll :: t.logLines height t.termCols

/-- The lines that a state has to show on a screen whose Area 1 has `a` rows. -/
def State.expected (t : State) (a rows : Int) : List (Int × Drawn) :=
  place 1 (t.area1Rows a) ++ place (a + 1) (t.logRows (rows - 1 - a) ++ [.area2Bottom]) ++
    [t.renderCmdLine rows]

/-! ## The pieces of a frame -/

section Pieces

variable {T : Terminal} {thumb : Int → Bool} {size : ScreenSize}

theorem closed_of_getLast {p : Piece} {row col : Int} {ops : List ScreenOp} {op : ScreenOp}
    (hops : p.ops = .moveTo row col :: ops) (hlast : ops.getLast? = some op)
    (hop : ∀ bytes, op ≠ .text bytes) : p.Closed := by
  refine ⟨row, col, ops.dropLast, op, ?_, hop⟩
  rw [hops, List.dropLast_append_getLast? op hlast]

theorem closed_of_border {p : Piece} {row col width : Int} {start ops : List ScreenOp}
    (hops : p.ops = start ++ rightBorder row width) (hstart : start = .moveTo row col :: ops) :
    p.Closed := by
  refine ⟨row, col, ops ++ [.moveTo row width, .style, .text vbar], .style, ?_,
    fun _ => ScreenOp.noConfusion⟩
  rw [hops, hstart, rightBorder, List.cons_append, List.append_assoc]
  rfl

/-- Every line begins with a cursor position and ends in a command. -/
theorem piece_closed (thumb : Int → Bool) (width : Int) (d : Int × Drawn) :
    (piece thumb width d).Closed := by
  have hstyle : ∀ bytes, ScreenOp.style ≠ .text bytes := fun _ => ScreenOp.noConfusion
  have herase : ∀ bytes, ScreenOp.eraseLine ≠ .text bytes := fun _ => ScreenOp.noConfusion
  rcases d with ⟨row, d⟩
  cases d with
  | cmdLine layouts current lastKey => exact closed_of_getLast rfl rfl herase
  | header label cells => exact closed_of_border rfl rfl
  | textRow label text => exact closed_of_border rfl rfl
  | dataRow label cells => exact closed_of_border rfl rfl
  | logLine message => exact closed_of_border rfl rfl
  | area1Top name => exact closed_of_getLast rfl rfl hstyle
  | separator => exact closed_of_getLast rfl rfl hstyle
  | underline => exact closed_of_getLast rfl rfl hstyle
  | blank => exact closed_of_getLast rfl rfl hstyle
  | area1Bottom => exact closed_of_getLast rfl rfl hstyle
  | area2Top autoScroll => exact closed_of_getLast rfl rfl hstyle
  | scrollbar => exact closed_of_getLast rfl rfl hstyle
  | area2Bottom => exact closed_of_getLast rfl rfl hstyle

/-- The thumb and the groove of the scrollbar stay on their row. -/
theorem ink_scrollbar (T : Terminal) (thumb : Int → Bool) {row : Int} (hlow : 1 ≤ row)
    (hhigh : row ≤ size.rows) :
    (T.ink size (piece thumb size.cols (row, .scrollbar))).scrolled = false ∧
      ∀ r ∈ (T.ink size (piece thumb size.cols (row, .scrollbar))).drawn, r = row := by
  have hrow : max 1 (min row size.rows) = row := by omega
  have hsym : isChar (if thumb row then fullBlock else ascii " ") = true := by
    split <;> decide
  have htwo := (T.columns (if thumb row then fullBlock else ascii " ")).isLt
  let c : Cursor := T.op size .home (.moveTo row (size.cols - 1))
  have hc : c.pending = .nothing := rfl
  have hcrow : c.row = row := hrow
  have hcol : c.col ≤ 1 ∨
      c.col + (T.columns (if thumb row then fullBlock else ascii " ")).val - 1 ≤ size.cols := by
    show max 1 (min (size.cols - 1) size.cols) ≤ 1 ∨
      max 1 (min (size.cols - 1) size.cols) + _ - 1 ≤ size.cols
    omega
  rcases @print_stays size _ c rfl hcol with ⟨hscrolled, hpending, hdrawn⟩
  have hink : T.draw size .home (piece thumb size.cols (row, .scrollbar)).ops =
      c.print size (T.columns (if thumb row then fullBlock else ascii " ")) := by
    show T.op size (T.op size (T.op size c .style) (.text _)) .style = _
    have hstyle : T.op size c .style = c := interrupt_eq T size hc
    rw [hstyle]
    show T.interrupt size (List.foldl (T.feed size) c _) = _
    rw [foldl_feed_char hsym hc]
    exact interrupt_eq T size (hpending.trans hc)
  unfold Terminal.ink
  dsimp only
  rw [hink, hscrolled]
  refine ⟨rfl, ?_⟩
  intro r hr
  rcases hdrawn r hr with hnone | heq
  · exact absurd hnone List.not_mem_nil
  · rw [heq, hcrow]

/-- Lines on consecutive rows go down. -/
theorem goesDown_place {top : Int} (items : List Drawn) {rest : List Piece}
    (h : GoesDown T size (top + items.length) rest) :
    GoesDown T size top ((place (top + 1) items).map (piece thumb size.cols) ++ rest) := by
  induction items generalizing top with
  | nil => simpa [place] using h
  | cons d items ih =>
      rw [List.length_cons] at h
      push_cast at h
      constructor
      · exact Or.inl rfl
      · have hmax : max top (piece thumb size.cols (top + 1, d)).row = top + 1 := by
          show max top (top + 1) = top + 1
          omega
        rw [hmax]
        apply ih
        rw [Int.add_assoc, Int.add_comm 1]
        exact h

/-- The scrollbar goes over rows that have their lines. -/
theorem goesDown_bar {top : Int} {bar : List (Int × Drawn)}
    (hbar : ∀ d ∈ bar, d.2 = .scrollbar ∧ 1 ≤ d.1 ∧ d.1 ≤ top) (htop : top ≤ size.rows)
    {rest : List Piece} (h : GoesDown T size top rest) :
    GoesDown T size top (bar.map (piece thumb size.cols) ++ rest) := by
  induction bar with
  | nil => exact h
  | cons d bar ih =>
      rcases hbar d List.mem_cons_self with ⟨hd, hlow, hhigh⟩
      rcases d with ⟨row, d⟩
      dsimp only at hd hlow hhigh
      subst hd
      constructor
      · refine Or.inr ⟨hlow, hhigh, ?_⟩
        exact (ink_scrollbar T thumb hlow (by omega)).2
      · have hmax : max top (piece thumb size.cols (row, .scrollbar)).row = top := by
          show max top row = top
          omega
        rw [hmax]
        exact ih (fun d hd => hbar d (List.mem_cons_of_mem _ hd))

/-! ## The frame -/

/-- The frame has the expected lines, and the scrollbar in front of the lower border. -/
theorem frame_eq {s : State} {i : TickInput} (hrunning : s.running = true)
    (hrows : 10 ≤ (termGetSize i.winsize).1) {t : State} (ht : t = s.beforeRender i) {a rows : Int}
    (ha : a = t.areaHeights.1) (hr : rows = (termGetSize i.winsize).1) :
    ∃ bar, s.frame i = place 1 (t.area1Rows a) ++ (place (a + 1) (t.logRows (rows - 1 - a)) ++
        (bar ++ (place (rows - 1) [.area2Bottom] ++ [t.renderCmdLine rows]))) ∧
      t.expected a rows = place 1 (t.area1Rows a) ++ (place (a + 1) (t.logRows (rows - 1 - a)) ++
        (place (rows - 1) [.area2Bottom] ++ [t.renderCmdLine rows])) ∧
      (∀ d ∈ bar, d.2 = .scrollbar ∧ 1 ≤ d.1 ∧ d.1 ≤ rows - 2) ∧
      ((t.area1Rows a).length : Int) = a ∧
      ((t.logRows (rows - 1 - a)).length : Int) = rows - 2 - a := by
  have htermRows : t.termRows = (termGetSize i.winsize).1 := by rw [ht]; rfl
  rcases areaHeights_fit s i hrows with ⟨hlow, hhigh, harea2⟩
  rw [← ht, ← ha] at hlow
  rw [← ht, ← ha, ← hr] at hhigh harea2
  unfold area2MinRows at hhigh
  have hheight : 3 ≤ rows - 1 - a := by omega
  rcases drawArea2_eq (a + 1) t.termCols hheight t with ⟨bar, hdraw, hplain, hbar⟩
  have hbottom : a + 1 + (rows - 1 - a) - 1 = rows - 1 := by omega
  rw [hbottom] at hdraw hplain
  refine ⟨bar, ?_, ?_, ?_, ?_, ?_⟩
  · have harea1 := renderArea1_eq 1 t.termCols hlow (t.layouts t.currentLayout)
    unfold State.frame
    rw [if_pos hrunning, ← ht]
    dsimp only
    rw [← ha, harea2, htermRows, ← hr, harea1, hdraw]
    simp only [List.append_assoc]
    rfl
  · unfold State.expected
    have hrest : place (a + 1) (t.logRows (rows - 1 - a) ++ [.area2Bottom]) =
        place (a + 1) (t.logRows (rows - 1 - a)) ++ place (rows - 1) [.area2Bottom] :=
      hplain.symm
    rw [hrest]
    simp only [List.append_assoc]
  · intro d hd
    rcases hbar d hd with ⟨hd2, hdlow, hdhigh⟩
    exact ⟨hd2, by omega, by omega⟩
  · rw [State.area1Rows, List.length_cons, List.length_append, length_fitRows,
      List.length_singleton]
    omega
  · rw [State.logRows, List.length_cons, length_logLines t.termCols hheight]
    omega

/-- The lines of a frame go down the screen, and only the scrollbar goes back. -/
theorem goesDown_frame (T : Terminal) (thumb : Int → Bool) {top log : List Drawn} {a : Int}
    {bar : List (Int × Drawn)} {cmd : Drawn} (htop : (top.length : Int) = a)
    (hlog : (log.length : Int) = size.rows - 2 - a)
    (hbar : ∀ d ∈ bar, d.2 = .scrollbar ∧ 1 ≤ d.1 ∧ d.1 ≤ size.rows - 2) :
    GoesDown T size 0 ((place 1 top ++ (place (a + 1) log ++
      (bar ++ (place (size.rows - 1) [Drawn.area2Bottom] ++ [(size.rows, cmd)])))).map
        (piece thumb size.cols)) := by
  have hborder : size.rows - 2 + 1 = size.rows - 1 := by omega
  have hrest : a + (size.rows - 2 - a) = size.rows - 2 := by omega
  simp only [List.map_append]
  apply @goesDown_place T thumb size 0
  rw [htop, Int.zero_add]
  apply goesDown_place
  rw [hlog, hrest]
  apply goesDown_bar hbar (by omega)
  rw [← hborder]
  apply goesDown_place
  refine ⟨Or.inl ?_, trivial⟩
  show size.rows = size.rows - 2 + ([Drawn.area2Bottom].length : Int) + 1
  rw [List.length_singleton]
  omega

end Pieces

/-- The expected lines are in the frame. -/
theorem mem_frame_of_expected {s : State} {i : TickInput} (hrunning : s.running = true)
    (hrows : 10 ≤ (termGetSize i.winsize).1) {d : Int × Drawn}
    (hd : d ∈ (s.beforeRender i).expected (s.beforeRender i).areaHeights.1
      (termGetSize i.winsize).1) : d ∈ s.frame i := by
  rcases frame_eq hrunning hrows rfl rfl rfl with ⟨bar, hframe, hexpected, -⟩
  rw [hexpected] at hd
  rw [hframe]
  simp only [List.mem_append] at hd ⊢
  tauto

/-- The frame of a `Tick` is shown if and only if its expected lines fit; the scrollbar
always does. -/
theorem shown_frame_iff (T : Terminal) (thumb : Int → Bool) {s : State} {i : TickInput}
    (hrunning : s.running = true) (hrows : 10 ≤ i.screen.rows) {c : Cursor}
    (hc : c.pending = .nothing) :
    Shown i.screen (T.inks i.screen c ((s.frame i).map (piece thumb i.screen.cols))) ↔
      ∀ d ∈ (s.beforeRender i).expected (s.beforeRender i).areaHeights.1 i.screen.rows,
        T.Fits i.screen (piece thumb i.screen.cols d) := by
  have hrows' : 10 ≤ (termGetSize i.winsize).1 := Int.ofNat_le.mp hrows
  have hr : i.screen.rows = (termGetSize i.winsize).1 := rfl
  rcases frame_eq hrunning hrows' rfl rfl hr with ⟨bar, hframe, hexpected, hbar, hlen1, hlen2⟩
  have hclosed : ∀ p ∈ (s.frame i).map (piece thumb i.screen.cols), p.Closed := by
    intro p hp
    rcases List.mem_map.mp hp with ⟨d, _, rfl⟩
    exact piece_closed thumb i.screen.cols d
  have hdown : GoesDown T i.screen 0 ((s.frame i).map (piece thumb i.screen.cols)) := by
    rw [hframe]
    exact goesDown_frame T thumb hlen1 hlen2 hbar
  rw [shown_iff_fits hclosed hdown hc]
  constructor
  · intro hfits d hd
    apply hfits
    apply List.mem_map_of_mem
    exact mem_frame_of_expected hrunning hrows' hd
  · intro hfits p hp
    rcases List.mem_map.mp hp with ⟨d, hd, rfl⟩
    have hsplit : d ∈ bar ∨ d ∈ (s.beforeRender i).expected
        (s.beforeRender i).areaHeights.1 i.screen.rows := by
      rw [hframe] at hd
      rw [hexpected]
      simp only [List.mem_append] at hd ⊢
      tauto
    rcases hsplit with hd | hd
    · rcases hbar d hd with ⟨hd2, hlow, hhigh⟩
      rcases d with ⟨row, d⟩
      dsimp only at hd2 hlow hhigh
      subst hd2
      have hon : row ≤ i.screen.rows := by omega
      rcases ink_scrollbar T thumb hlow hon with ⟨hscrolled, hdrawn⟩
      refine ⟨hscrolled, fun r hr => ?_⟩
      rw [hdrawn r hr]
      exact ⟨le_rfl, hon⟩
    · exact hfits d hd

/-- The frame of a `Tick` tiles the screen, and every row shows its own line. -/
def State.ShowsFrame (T : Terminal) (thumb : Int → Bool) (s : State) (i : TickInput)
    (c : Cursor) : Prop :=
  Tiles (s.beforeRender i) (s.beforeRender i).areaHeights.1 i.screen.rows (s.frame i) ∧
    Shown i.screen (T.inks i.screen c ((s.frame i).map (piece thumb i.screen.cols)))

/-- For every terminal with at least ten rows, whatever was on it, and every state: the
frame tiles the screen and is shown if and only if each expected line, printed from its
row on, scrolls nothing and reaches no row above. -/
theorem showsFrame_iff (T : Terminal) (thumb : Int → Bool) (s : State) (i : TickInput)
    (hrunning : s.running = true) (hrows : 10 ≤ i.screen.rows) {c : Cursor}
    (hc : c.pending = .nothing) :
    s.ShowsFrame T thumb i c ↔
      ∀ d ∈ (s.beforeRender i).expected (s.beforeRender i).areaHeights.1 i.screen.rows,
        T.Fits i.screen (piece thumb i.screen.cols d) := by
  have htiles : Tiles (s.beforeRender i) (s.beforeRender i).areaHeights.1 i.screen.rows
      (s.frame i) := tiles_frame s i hrunning (Int.ofNat_le.mp hrows)
  rw [State.ShowsFrame, and_iff_right htiles]
  exact shown_frame_iff T thumb hrunning hrows hc

end RtTui
end Log
end DtCore
