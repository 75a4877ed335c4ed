import DtCore.Log.RtTui.Printed

/-!
# Frames of graphic texts

A graphic character of ASCII takes one column, and so do the line characters.  When all
texts that were set and logged are graphic, the columns of a line can be counted, and the
command line is the only one that can be too long for the rows from its own on.

Main definitions:

- `Op.Graphic`, `State.Graphic`: calls and states with graphic texts.
- `State.cmdLineWidth`: the columns of the command line.

Main results:

- Theorem `frame_of_graphic_iff`: a frame of graphic texts tiles the screen and is shown if
  and only if the command line is no wider than the screen.
- Theorem `frame_tiles_iff`: the frames of all texts, and of graphic ones.
- Theorem `five_layouts_scroll`: five layouts scroll a terminal of 80 columns.
- Theorem `graphic_frames_iff`: the next frame behind any calls with graphic texts.
-/

namespace DtCore
namespace Log
namespace RtTui

open Foundation RtLog

/-! ## The texts of a state -/

/-- A graphic text in an array of `n` bytes. -/
def Short (n : Nat) (text : Bytes) : Prop :=
  AsciiText text ∧ text.length < n

structure TuiDataRow.Graphic (dr : TuiDataRow) : Prop where
  label : Short tuiDataColLen dr.label
  col : ∀ i, Short tuiDataColLen (dr.col i)
  text : AsciiText dr.text

structure TuiGroupHeader.Graphic (gh : TuiGroupHeader) : Prop where
  label : Short tuiDataColLen gh.label
  cols : ∀ i, Short tuiDataColLen (gh.cols i)

structure TuiLayoutData.Graphic (layout : TuiLayoutData) : Prop where
  name : AsciiText layout.name
  header : ∀ g, (layout.groupHeaders g).Graphic
  row : ∀ idx g r, (((layout.dataBuf idx).groups g).rows r).Graphic

/-- All texts of the state are graphic. -/
structure State.Graphic (s : State) : Prop where
  layout : ∀ i, (s.layouts i).Graphic
  logged : ∀ k, AsciiText (s.logHistory.cells k).msg
  queued : ∀ e ∈ s.logQueue, AsciiText e.msg

/-- The texts of a call are graphic. -/
def Op.Graphic : Op → Prop
  | .setLayoutName _ name => ∀ text ∈ name, AsciiText text
  | .setGroup _ _ labelHdr colHdrs =>
      AsciiText labelHdr ∧ ∀ text, some text ∈ colHdrs → AsciiText text
  | .setRowCols _ _ _ label values => AsciiText label ∧ ∀ value ∈ values, AsciiText value
  | .setTextRow _ _ _ label text => AsciiText label ∧ AsciiText text
  | .logV _ text => AsciiText text
  | .setGroupNoHeader _ _ | .popPendingKey | .tick _ | .stop => True

theorem asciiText_nil : AsciiText [] :=
  fun _ h => absurd h List.not_mem_nil

theorem asciiText_append {text text' : Bytes} (h : AsciiText text) (h' : AsciiText text') :
    AsciiText (text ++ text') := by
  intro b hb
  rcases List.mem_append.mp hb with hb | hb
  · exact h b hb
  · exact h' b hb

theorem asciiText_take {text : Bytes} (h : AsciiText text) (n : Nat) : AsciiText (text.take n) :=
  fun b hb => h b (List.mem_of_mem_take hb)

theorem asciiText_blanks (n : Nat) : AsciiText (List.replicate n 0x20) := by
  intro b hb
  rw [List.eq_of_mem_replicate hb]
  exact ⟨by decide, by decide⟩

/-- The text of a number is graphic. -/
theorem asciiText_number (n : Nat) : AsciiText (ascii (toString n)) := by
  intro b hb
  rcases List.mem_map.mp hb with ⟨c, hc, rfl⟩
  rw [Nat.toString_eq_repr, Nat.toList_repr] at hc
  have hdigit := Nat.isDigit_of_mem_toDigits (by decide) (by decide) hc
  rcases Char.isDigit_iff_toNat.mp hdigit with ⟨hlow, hhigh⟩
  have hcode : ∀ code, 48 ≤ code → code ≤ 57 →
      code.toUInt8 < 0x80 ∧ isControl code.toUInt8 = false := by
    intro code hlow hhigh
    interval_cases code <;> exact ⟨by decide, by decide⟩
  exact hcode c.toNat hlow hhigh

theorem short_nil {n : Nat} (hn : 0 < n) : Short n [] :=
  ⟨asciiText_nil, hn⟩

theorem short_truncateTo {n : Nat} (hn : 0 < n) {text : Bytes} (h : AsciiText text) :
    Short n (truncateTo n text) := by
  refine ⟨asciiText_take h _, ?_⟩
  rw [truncateTo, List.length_take]
  omega

/-! ## Calls -/

theorem graphic_initial_row : TuiDataRow.initial.Graphic where
  label := short_nil (by decide)
  col := fun _ => short_nil (by decide)
  text := asciiText_nil

theorem graphic_init : State.init.Graphic where
  layout := fun i =>
    { name := asciiText_append (by decide) (asciiText_number (i + 1))
      header := fun _ =>
        { label := short_nil (by decide)
          cols := fun _ => short_nil (by decide) }
      row := fun _ _ _ => graphic_initial_row }
  logged := fun _ => asciiText_nil
  queued := fun _ he => absurd he List.not_mem_nil

/-- A layout that is changed to one with graphic texts. -/
theorem State.Graphic.updateLayout {s : State} (h : s.Graphic) (i : Nat)
    {f : TuiLayoutData → TuiLayoutData} (hf : ∀ layout, layout.Graphic → (f layout).Graphic) :
    (s.updateLayout i f).Graphic where
  layout := by
    intro j
    by_cases hj : j = i
    · subst hj
      show (Function.update s.layouts j (f (s.layouts j)) j).Graphic
      rw [Function.update_self]
      exact hf _ (h.layout j)
    · show (Function.update s.layouts i (f (s.layouts i)) j).Graphic
      rw [Function.update_of_ne hj]
      exact h.layout j
  logged := h.logged
  queued := h.queued

theorem TuiLayoutData.Graphic.updateHeader {layout : TuiLayoutData} (h : layout.Graphic) (g : Nat)
    {f : TuiGroupHeader → TuiGroupHeader} (hf : ∀ gh, gh.Graphic → (f gh).Graphic) :
    (layout.updateHeader g f).Graphic where
  name := h.name
  header := by
    intro g'
    by_cases hg : g' = g
    · subst hg
      show (Function.update layout.groupHeaders g' (f (layout.groupHeaders g')) g').Graphic
      rw [Function.update_self]
      exact hf _ (h.header g')
    · show (Function.update layout.groupHeaders g (f (layout.groupHeaders g)) g').Graphic
      rw [Function.update_of_ne hg]
      exact h.header g'
  row := h.row

theorem TuiLayoutData.Graphic.updateRow {layout : TuiLayoutData} (h : layout.Graphic) (g r : Nat)
    {f : TuiDataRow → TuiDataRow} (hf : ∀ row, row.Graphic → (f row).Graphic) :
    (layout.updateRow g r f).Graphic where
  name := h.name
  header := h.header
  row := by
    intro idx g' r'
    unfold TuiLayoutData.updateRow TuiDataBuffer.updateRow
    dsimp only
    by_cases hidx : idx = layout.dataWriteIdx
    · subst hidx
      rw [Function.update_self]
      dsimp only
      by_cases hg : g' = g
      · subst hg
        rw [Function.update_self]
        dsimp only
        by_cases hr : r' = r
        · subst hr
          rw [Function.update_self]
          exact hf _ (h.row _ g' r')
        · rw [Function.update_of_ne hr]
          exact h.row _ g' r'
      · rw [Function.update_of_ne hg]
        exact h.row _ g' r'
    · rw [Function.update_of_ne hidx]
      exact h.row idx g' r'

theorem State.Graphic.updateRow {s : State} (h : s.Graphic) (layoutIdx groupIdx rowIdx : Int)
    {f : TuiDataRow → TuiDataRow} (hf : ∀ row, row.Graphic → (f row).Graphic) :
    (s.updateRow layoutIdx groupIdx rowIdx f).Graphic := by
  unfold State.updateRow
  split
  · exact h.updateLayout _ (fun _ hlayout => hlayout.updateRow _ _ hf)
  · exact h

/-- The pointers of a call point to graphic texts. -/
theorem short_pointer {n : Nat} (hn : 0 < n) {texts : List (Option Bytes)}
    (h : ∀ text, some text ∈ texts → AsciiText text) (i : Nat) :
    Short n (truncateTo n ((texts.getD i none).getD [])) := by
  apply short_truncateTo hn
  rw [List.getD_eq_getElem?_getD]
  cases htext : texts[i]? with
  | none => exact asciiText_nil
  | some text =>
      cases text with
      | none => exact asciiText_nil
      | some text => exact h text (List.mem_of_getElem? htext)

theorem graphic_setRowData {s : State} (h : s.Graphic) (layoutIdx groupIdx rowIdx : Int)
    {label : Bytes} (hlabel : AsciiText label) {cols : List (Option Bytes)}
    (hcols : ∀ text, some text ∈ cols → AsciiText text) :
    (s.setRowData layoutIdx groupIdx rowIdx label cols).Graphic := by
  apply h.updateRow
  intro row hrow
  refine ⟨short_truncateTo (by decide) hlabel, ?_, hrow.text⟩
  intro i
  unfold TuiDataRow.setCols
  dsimp only
  split
  · exact short_pointer (by decide) hcols i
  · split
    · exact short_nil (by decide)
    · exact hrow.col i

theorem graphic_setGroup {s : State} (h : s.Graphic) (layoutIdx groupIdx : Int)
    {labelHdr : Bytes} (hlabel : AsciiText labelHdr) {colHdrs : List (Option Bytes)}
    (hcols : ∀ text, some text ∈ colHdrs → AsciiText text) :
    (s.setGroup layoutIdx groupIdx labelHdr colHdrs).Graphic := by
  unfold State.setGroup
  split
  · apply h.updateLayout
    intro layout hlayout
    apply hlayout.updateHeader
    intro gh hgh
    refine ⟨short_truncateTo (by decide) hlabel, ?_⟩
    intro i
    dsimp only
    split
    · exact short_pointer (by decide) hcols i
    · exact hgh.cols i
  · exact h

theorem graphic_setGroupNoHeader {s : State} (h : s.Graphic) (layoutIdx groupIdx : Int) :
    (s.setGroupNoHeader layoutIdx groupIdx).Graphic := by
  unfold State.setGroupNoHeader
  split
  · apply h.updateLayout
    intro layout hlayout
    apply hlayout.updateHeader
    intro gh hgh
    exact ⟨short_nil (by decide), hgh.cols⟩
  · exact h

theorem graphic_setLayoutName {s : State} (h : s.Graphic) (layoutIdx : Int) {name : Option Bytes}
    (hname : ∀ text ∈ name, AsciiText text) : (s.setLayoutName layoutIdx name).Graphic := by
  unfold State.setLayoutName
  split
  · exact h
  · rename_i text
    split
    · apply h.updateLayout
      intro layout hlayout
      exact ⟨asciiText_take (hname text rfl) _, hlayout.header, hlayout.row⟩
    · exact h

theorem graphic_logV {s : State} (h : s.Graphic) (level : LogLevel) {text : Bytes}
    (htext : AsciiText text) : (s.logV level text).Graphic := by
  unfold State.logV State.tryPush
  split
  · refine ⟨h.layout, h.logged, ?_⟩
    intro e he
    rcases List.mem_append.mp he with he | he
    · exact h.queued e he
    · rw [List.mem_singleton.mp he]
      exact asciiText_take htext _
  · exact h

/-! ## A Tick -/

theorem TuiLayoutData.Graphic.swapArea1 {layout : TuiLayoutData} (h : layout.Graphic) :
    layout.swapArea1.Graphic := by
  rcases swapArea1_seen layout with ⟨hname, hheaders, -⟩
  constructor
  · rw [hname]
    exact h.name
  · rw [hheaders]
    exact h.header
  · intro idx g r
    unfold TuiLayoutData.swapArea1
    dsimp only
    split
    · dsimp only
      by_cases hidx : idx = layout.dataWriteIdx
      · subst hidx
        rw [Function.update_self]
        exact h.row _ g r
      · rw [Function.update_of_ne hidx]
        exact h.row idx g r
    · exact h.row idx g r

theorem graphic_push {s : State} (h : s.Graphic) {e : TuiLogEntry} (he : AsciiText e.msg)
    (k : Nat) : AsciiText ((s.logHistory.push e).cells k).msg := by
  have hupdate : ∀ j, AsciiText (Function.update s.logHistory.cells j e k).msg := by
    intro j
    by_cases hk : k = j
    · subst hk
      rw [Function.update_self]
      exact he
    · rw [Function.update_of_ne hk]
      exact h.logged k
  unfold Ring.push
  split
  · exact hupdate _
  · exact hupdate _

theorem graphic_keepEntries {es : List TuiLogEntry} (hes : ∀ e ∈ es, AsciiText e.msg) {s : State}
    (h : s.Graphic) : (es.foldl State.keepEntry s).Graphic := by
  induction es generalizing s with
  | nil => exact h
  | cons e es ih =>
      have hstep : (s.keepEntry e).Graphic :=
        ⟨h.layout, graphic_push h (hes e List.mem_cons_self), h.queued⟩
      exact ih (fun e' he' => hes e' (List.mem_cons_of_mem e he')) hstep

theorem graphic_handleKey {s : State} (h : s.Graphic) (buf : Bytes) :
    (s.handleKey buf).Graphic := by
  rcases handleKey_cases buf s with ⟨offset, auto, hkey⟩ | ⟨i, hkey⟩ | ⟨c, hkey⟩
  · rw [hkey]
    exact ⟨h.layout, h.logged, h.queued⟩
  · rw [hkey]
    exact ⟨h.layout, h.logged, h.queued⟩
  · rw [hkey]
    exact ⟨h.layout, h.logged, h.queued⟩

/-- The messages and keys in front of the rendering keep the texts graphic. -/
theorem graphic_beforeRender {s : State} (h : s.Graphic) (i : TickInput) :
    (s.beforeRender i).Graphic := by
  have hdrained : s.drainLog.Graphic :=
    graphic_keepEntries h.queued ⟨h.layout, h.logged, fun _ he => absurd he List.not_mem_nil⟩
  have hkeys : ((s.drainLog).handleKeys 0 (i.keys.take keyBufLen)).Graphic :=
    handleKeys_keeps (P := State.Graphic) (fun _ buf hs => graphic_handleKey hs buf) 0 _ hdrained
  exact ⟨hkeys.layout, hkeys.logged, hkeys.queued⟩

theorem graphic_tick {s : State} (h : s.Graphic) (i : TickInput) : (s.tick i).Graphic := by
  unfold State.tick
  split
  · exact (graphic_beforeRender h i).updateLayout _ (fun _ hlayout => hlayout.swapArea1)
  · exact h

/-- Calls with graphic texts keep the texts of the state graphic. -/
theorem graphic_op {s : State} (h : s.Graphic) {op : Op} (hop : op.Graphic) :
    (s.op op).Graphic := by
  cases op with
  | setLayoutName layoutIdx name => exact graphic_setLayoutName h layoutIdx hop
  | setGroup layoutIdx groupIdx labelHdr colHdrs =>
      exact graphic_setGroup h layoutIdx groupIdx hop.1 hop.2
  | setGroupNoHeader layoutIdx groupIdx => exact graphic_setGroupNoHeader h layoutIdx groupIdx
  | setRowCols layoutIdx groupIdx rowIdx label values =>
      apply graphic_setRowData h layoutIdx groupIdx rowIdx hop.1
      intro text htext
      rcases List.mem_map.mp htext with ⟨value, hvalue, heq⟩
      rw [← Option.some.inj heq]
      exact asciiText_take (hop.2 value (List.mem_of_mem_take hvalue)) _
  | setTextRow layoutIdx groupIdx rowIdx label text =>
      apply h.updateRow
      intro row hrow
      exact ⟨short_truncateTo (by decide) hop.1, hrow.col, asciiText_take hop.2 _⟩
  | logV level text => exact graphic_logV h level hop
  | popPendingKey => exact ⟨h.layout, h.logged, h.queued⟩
  | tick i => exact graphic_tick h i
  | stop => exact ⟨h.layout, h.logged, h.queued⟩

theorem graphic_ops {os : List Op} (hos : ∀ op ∈ os, op.Graphic) :
    (State.init.ops os).Graphic := by
  have hrun : ∀ (os : List Op) (s : State), (∀ op ∈ os, op.Graphic) → s.Graphic →
      (s.ops os).Graphic := by
    intro os
    induction os with
    | nil => exact fun _ _ hs => hs
    | cons op os ih =>
        intro s hos hs
        exact ih (s.op op) (fun op' hop' => hos op' (List.mem_cons_of_mem op hop'))
          (graphic_op hs (hos op List.mem_cons_self))
  exact hrun os State.init hos graphic_init

/-! ## The lines -/

/-- The texts of a line are graphic and not longer than they are cut. -/
def Drawn.Graphic (width : Int) : Drawn → Prop
  | .area1Top name => AsciiText name
  | .header label cells | .dataRow label cells =>
      Short tuiDataColLen label ∧ cells.length ≤ maxColsFit width ∧
        ∀ cell ∈ cells, Short tuiDataColLen cell
  | .textRow label text =>
      Short tuiDataColLen label ∧ AsciiText text ∧ text.length ≤ (width - 24).toNat
  | .logLine message => ∀ text ∈ message, AsciiText text ∧ text.length ≤ (width - 4).toNat
  | .cmdLine layouts _ _ => ∀ layout ∈ layouts, AsciiText layout.2
  | .separator | .underline | .blank | .area1Bottom | .area2Top _ | .scrollbar
  | .area2Bottom => True

theorem graphic_header_line {gh : TuiGroupHeader} (h : gh.Graphic) (width : Int) :
    (gh.line width).Graphic width := by
  refine ⟨h.label, ?_, ?_⟩
  · rw [List.length_map, List.length_range]
  · intro cell hcell
    rcases List.mem_map.mp hcell with ⟨c, _, rfl⟩
    split
    · exact h.cols c
    · exact ⟨by decide, by decide⟩

theorem graphic_row_line {dr : TuiDataRow} (h : dr.Graphic) (width : Int) :
    (dr.line width).Graphic width := by
  unfold TuiDataRow.line
  split
  · refine ⟨h.label, asciiText_take h.text _, ?_⟩
    rw [List.length_take]
    exact Nat.min_le_left _ _
  · refine ⟨h.label, ?_, ?_⟩
    · rw [List.length_map, List.length_range]
    · intro cell hcell
      rcases List.mem_map.mp hcell with ⟨c, _, rfl⟩
      split
      · exact h.col c
      · exact short_nil (by decide)

theorem graphic_linesFrom {layout : TuiLayoutData} (h : layout.Graphic) {width : Int}
    {first : Bool} {gs : List Nat} {d : Drawn} (hd : d ∈ layout.linesFrom width first gs) :
    d.Graphic width := by
  induction gs generalizing first with
  | nil => exact absurd hd List.not_mem_nil
  | cons g gs ih =>
      unfold TuiLayoutData.linesFrom at hd
      split at hd
      · rcases List.mem_append.mp hd with hsep | hd
        · cases first with
          | true => exact absurd hsep List.not_mem_nil
          | false =>
              rw [List.mem_singleton.mp hsep]
              exact trivial
        · rcases List.mem_append.mp hd with hgroup | hrest
          · rcases List.mem_append.mp hgroup with hheader | hrow
            · split at hheader
              · exact absurd hheader List.not_mem_nil
              · simp only [List.mem_cons, List.not_mem_nil, or_false] at hheader
                rcases hheader with rfl | rfl
                · exact graphic_header_line (h.header g) width
                · exact trivial
            · rcases List.mem_map.mp hrow with ⟨r, _, rfl⟩
              exact graphic_row_line (h.row _ g r) width
          · exact ih hrest
      · exact ih hd

theorem graphic_logLines {s : State} (h : s.Graphic) {height width : Int} (hwidth : 4 ≤ width)
    {d : Drawn} (hd : d ∈ s.logLines height width) : d.Graphic width := by
  rcases List.mem_map.mp hd with ⟨line, hline, rfl⟩
  unfold State.renderArea2 at hline
  split at hline
  · exact absurd hline List.not_mem_nil
  · rcases List.mem_map.mp hline with ⟨r, _, rfl⟩
    intro text htext
    split at htext
    · rw [Option.map_some, Option.mem_some_iff] at htext
      rw [← htext, messageText, if_neg (by omega)]
      refine ⟨asciiText_take (h.logged _) _, ?_⟩
      rw [List.length_take]
      exact Nat.min_le_left _ _
    · exact absurd htext (by simp)

/-- The lines of a state with graphic texts. -/
theorem graphic_expected {t : State} (h : t.Graphic) (hwidth : 4 ≤ (t.termCols : Int))
    {a rows : Int} {d : Int × Drawn} (hd : d ∈ t.expected a rows) : d.2.Graphic t.termCols := by
  rcases List.mem_append.mp hd with hd | hcmd
  · rcases List.mem_append.mp hd with harea1 | harea2
    · rcases List.mem_cons.mp (mem_place harea1).2.2 with htop | hrest
      · rw [htop]
        exact (h.layout _).name
      · rcases List.mem_append.mp hrest with hline | hbottom
        · rcases List.mem_append.mp hline with hline | hblank
          · exact graphic_linesFrom (h.layout _).swapArea1 (List.mem_of_mem_take hline)
          · rw [List.eq_of_mem_replicate hblank]
            exact trivial
        · rw [List.mem_singleton.mp hbottom]
          exact trivial
    · rcases List.mem_append.mp (mem_place harea2).2.2 with hline | hbottom
      · rcases List.mem_cons.mp hline with htop | hline
        · rw [htop]
          exact trivial
        · exact graphic_logLines h hwidth hline
      · rw [List.mem_singleton.mp hbottom]
        exact trivial
  · rw [List.mem_singleton.mp hcmd]
    intro layout hlayout
    rcases List.mem_map.mp hlayout with ⟨i, _, rfl⟩
    exact asciiText_take (h.layout i).name 8

/-! ## The texts that are sent -/

section Sent

variable {T : Terminal} {thumb : Int → Bool} {size : ScreenSize} {width row : Int}

theorem asciiText_padRight {text : Bytes} (h : AsciiText text) (n : Nat) :
    AsciiText (padRight n text) :=
  asciiText_append h (asciiText_blanks _)

theorem asciiText_padLeft {text : Bytes} (h : AsciiText text) (n : Nat) :
    AsciiText (padLeft n text) :=
  asciiText_append (asciiText_blanks _) h

theorem graphic_hbars (hT : T.Narrow) (n : Int) : T.Graphic (hbars n) := by
  apply Terminal.Graphic.flatten
  intro x hx
  rw [List.eq_of_mem_replicate hx]
  exact hT.char (by decide)

theorem graphic_hint (hT : T.Narrow) : T.Graphic hint := by
  have hup : T.Graphic [0xe2, 0x86, 0x91] := hT.char (by decide)
  have hdown : T.Graphic [0xe2, 0x86, 0x93] := hT.char (by decide)
  have harrows : T.Graphic arrows := hup.append hdown
  exact ((hT.ascii (by decide)).append harrows).append (hT.ascii (by decide))

theorem graphic_logTitle (hT : T.Narrow) (autoScroll : Bool) :
    T.Graphic (logTitle autoScroll) := by
  have hbar : T.Graphic hbar := hT.char (by decide)
  have htext : AsciiText
      (ascii (if autoScroll then "[ LOG : AUTO SCROLL ]" else "[ LOG : PAUSED      ]")) := by
    cases autoScroll <;> decide
  exact (hbar.append (hT.ascii htext)).append hbar

/-- The last key is shown as graphic characters. -/
theorem asciiText_keyText (c : UInt8) : AsciiText (Memory.keyText c) := by
  have hhex : ∀ n, n < 16 → Memory.hexDigit n < 0x80 ∧ isControl (Memory.hexDigit n) = false := by
    decide
  unfold Memory.keyText
  split
  · decide
  · split
    · rename_i hrange
      refine asciiText_append (asciiText_append (by decide) ?_) (by decide)
      intro b hb
      rw [List.mem_singleton.mp hb]
      refine ⟨UInt8.lt_trans hrange.2 (by decide), ?_⟩
      rw [isControl, Bool.or_eq_false_iff, decide_eq_false_iff_not, decide_eq_false_iff_not]
      constructor
      · exact UInt8.not_lt.mpr hrange.1
      · rintro rfl
        exact absurd hrange.2 (by decide)
    · refine asciiText_append (by decide) ?_
      intro b hb
      have hlt := UInt8.toNat_lt c
      rcases List.mem_cons.mp hb with rfl | hb
      · exact hhex _ (by omega)
      · rw [List.mem_singleton.mp hb]
        exact hhex _ (by omega)

theorem asciiText_switcherEntry (current : Nat) {layout : Nat × Bytes}
    (h : AsciiText layout.2) : AsciiText (switcherEntry current layout) := by
  have hnumber := asciiText_number layout.1
  unfold switcherEntry Memory.switcherText
  split
  · exact asciiText_append (asciiText_append (asciiText_append (asciiText_append (by decide)
      hnumber) (by decide)) h) (by decide)
  · exact asciiText_append (asciiText_append (asciiText_append (asciiText_append (by decide)
      hnumber) (by decide)) (asciiText_append h (asciiText_blanks _))) (by decide)

theorem asciiText_flatMap {α : Type} {f : α → Bytes} {l : List α}
    (h : ∀ a ∈ l, AsciiText (f a)) : AsciiText (l.flatMap f) := by
  intro b hb
  rcases List.mem_flatMap.mp hb with ⟨a, ha, hb⟩
  exact h a ha b hb

/-- The text of a command is graphic. -/
def ShowsGraphic (T : Terminal) : ScreenOp → Prop
  | .text bytes => T.Graphic bytes
  | _ => True

theorem graphic_fullLine (hT : T.Narrow) {left right : Bytes} (hleft : isChar left = true)
    (hright : isChar right = true) : ∀ op ∈ fullLine row width left right, ShowsGraphic T op := by
  simp [fullLine, ShowsGraphic, hT.char hleft, hT.char hright, graphic_hbars hT]

theorem graphic_rightBorder (hT : T.Narrow) :
    ∀ op ∈ rightBorder row width, ShowsGraphic T op := by
  have hvbar : T.Graphic vbar := hT.char (by decide)
  simp [rightBorder, ShowsGraphic, hvbar]

/-- All texts that are sent for a graphic line are graphic. -/
theorem graphic_sent (hT : T.Narrow) {d : Drawn} (hd : d.Graphic width) :
    ∀ op ∈ d.ops thumb width row, ShowsGraphic T op := by
  have hvbar : T.Graphic vbar := hT.char (by decide)
  have hhbar : T.Graphic hbar := hT.char (by decide)
  have hblank : T.Graphic (ascii " ") := hT.ascii (by decide)
  cases d with
  | area1Top name =>
      have hleft : T.Graphic topLeft := hT.char (by decide)
      have hright : T.Graphic topRight := hT.char (by decide)
      have htitle : T.Graphic (titleText name) := hT.ascii
        (asciiText_take (asciiText_append (asciiText_append (by decide) hd) (by decide)) 47)
      simp [Drawn.ops, ShowsGraphic, hleft, hright, hhbar, htitle, graphic_hbars hT]
  | separator => exact graphic_fullLine hT (by decide) (by decide)
  | underline => exact graphic_fullLine hT (by decide) (by decide)
  | area1Bottom => exact graphic_fullLine hT (by decide) (by decide)
  | header label cells =>
      rcases hd with ⟨hlabel, -, hcells⟩
      have hcell : ∀ cell ∈ cells, ShowsGraphic T (.text (ascii " " ++ padLeft 11 cell)) :=
        fun cell hcell => hblank.append (hT.ascii (asciiText_padLeft (hcells cell hcell).1 11))
      simp only [Drawn.ops, List.forall_mem_append, List.forall_mem_map]
      refine ⟨⟨⟨?_, hcell⟩, ?_⟩, graphic_rightBorder hT⟩
      · simp [ShowsGraphic, hvbar, hblank, hT.ascii (asciiText_padRight hlabel.1 20)]
      · simp [ShowsGraphic]
  | textRow label text =>
      rcases hd with ⟨hlabel, htext, -⟩
      have hpad : T.Graphic (padRight (width - 24).toNat text) :=
        hT.ascii (asciiText_padRight htext _)
      simp only [Drawn.ops, List.forall_mem_append]
      refine ⟨⟨?_, ?_⟩, graphic_rightBorder hT⟩
      · simp [ShowsGraphic, hvbar, hblank, hT.ascii (asciiText_padRight hlabel.1 20)]
      · split
        · simp [ShowsGraphic, hblank, hpad]
        · exact fun _ hop => absurd hop List.not_mem_nil
  | dataRow label cells =>
      rcases hd with ⟨hlabel, -, hcells⟩
      simp only [Drawn.ops, List.forall_mem_append]
      refine ⟨⟨?_, ?_⟩, graphic_rightBorder hT⟩
      · simp [ShowsGraphic, hvbar, hblank, hT.ascii (asciiText_padRight hlabel.1 20)]
      · intro op hop
        rcases List.mem_flatMap.mp hop with ⟨cell, hcell, hop⟩
        have hpad : T.Graphic (padLeft 11 cell) :=
          hT.ascii (asciiText_padLeft (hcells cell hcell).1 11)
        simp only [List.mem_cons, List.not_mem_nil, or_false] at hop
        rcases hop with rfl | rfl | rfl | rfl
        · exact hblank
        · exact trivial
        · exact hpad
        · exact trivial
  | blank =>
      simp only [Drawn.ops, List.forall_mem_append]
      refine ⟨?_, graphic_rightBorder hT⟩
      simp [ShowsGraphic, hvbar]
  | area2Top autoScroll =>
      have hleft : T.Graphic topLeft := hT.char (by decide)
      have hright : T.Graphic topRight := hT.char (by decide)
      simp [Drawn.ops, ShowsGraphic, hleft, hright, graphic_logTitle hT, graphic_hbars hT]
  | logLine message =>
      simp only [Drawn.ops, List.forall_mem_append]
      refine ⟨⟨⟨?_, ?_⟩, ?_⟩, graphic_rightBorder hT⟩
      · simp [ShowsGraphic, hvbar]
      · cases message with
        | none => exact fun _ hop => absurd hop List.not_mem_nil
        | some text =>
            intro op hop
            rw [List.mem_singleton.mp hop]
            exact hblank.append (hT.ascii (hd text rfl).1)
      · simp [ShowsGraphic]
  | scrollbar =>
      have hsymbol : T.Graphic (if thumb row then fullBlock else ascii " ") := by
        split
        · exact hT.char (by decide)
        · exact hblank
      simp [Drawn.ops, ShowsGraphic, hsymbol]
  | area2Bottom =>
      have hleft : T.Graphic bottomLeft := hT.char (by decide)
      have hright : T.Graphic bottomRight := hT.char (by decide)
      simp [Drawn.ops, ShowsGraphic, hleft, hright, hhbar, graphic_hint hT, graphic_hbars hT]
  | cmdLine layouts current lastKey =>
      have hswitcher : T.Graphic (layouts.flatMap (switcherEntry current)) :=
        hT.ascii (asciiText_flatMap (fun layout hlayout =>
          asciiText_switcherEntry current (hd layout hlayout)))
      have hkey : T.Graphic (padRight 10 (Memory.keyText lastKey)) :=
        hT.ascii (asciiText_padRight (asciiText_keyText lastKey) 10)
      have hlayouts : T.Graphic (ascii " LAYOUTS: ") := hT.ascii (by decide)
      have hcmd : T.Graphic (ascii "  CMD: ") := hT.ascii (by decide)
      simp [Drawn.ops, ShowsGraphic, hswitcher, hkey, hlayouts, hcmd]

/-! ## The columns of a line -/

theorem textChars_append (bytes bytes' : Bytes) :
    textChars (bytes ++ bytes') = textChars bytes + textChars bytes' :=
  List.countP_append

theorem textChars_hbars (n : Int) : textChars (hbars n) = n.toNat := by
  unfold hbars
  induction n.toNat with
  | zero => rfl
  | succ n ih =>
      rw [List.replicate_succ, List.flatten_cons, textChars_append, ih, Nat.add_comm]
      rfl

theorem textChars_padRight {text : Bytes} (h : AsciiText text) (n : Nat) :
    textChars (padRight n text) = max n text.length := by
  rw [textChars_ascii (asciiText_padRight h n), padRight, List.length_append,
    List.length_replicate]
  omega

theorem textChars_padLeft {text : Bytes} (h : AsciiText text) (n : Nat) :
    textChars (padLeft n text) = max n text.length := by
  rw [textChars_ascii (asciiText_padLeft h n), padLeft, List.length_append,
    List.length_replicate]
  omega

theorem textChars_titleText {name : Bytes} (h : AsciiText name) :
    textChars (titleText name) ≤ 47 := by
  have htitle : AsciiText (titleText name) :=
    asciiText_take (asciiText_append (asciiText_append (by decide) h) (by decide)) 47
  rw [textChars_ascii htitle, titleText, truncateTo, List.length_take]
  exact Nat.min_le_left _ _

theorem textChars_logTitle (autoScroll : Bool) : textChars (logTitle autoScroll) = 23 := by
  cases autoScroll <;> decide

/-- The columns of the cells of a row. -/
theorem opsChars_cells {cells : List Bytes} (h : ∀ cell ∈ cells, Short tuiDataColLen cell) :
    opsChars (cells.map (fun cell => .text (ascii " " ++ padLeft 11 cell))) ≤
      24 * cells.length := by
  induction cells with
  | nil => exact Nat.le_refl 0
  | cons cell cells ih =>
      have hrest := ih (fun c hc => h c (List.mem_cons_of_mem cell hc))
      rcases h cell List.mem_cons_self with ⟨hascii, hlen⟩
      have hone : textChars (ascii " ") = 1 := by decide
      unfold tuiDataColLen at hlen
      rw [List.map_cons, opsChars, textChars_append, textChars_padLeft hascii, hone,
        List.length_cons]
      omega

theorem opsChars_columns {cells : List Bytes} (h : ∀ cell ∈ cells, Short tuiDataColLen cell) :
    opsChars (cells.flatMap (fun cell =>
      [.text (ascii " "), .style, .text (padLeft 11 cell), .style])) ≤ 24 * cells.length := by
  induction cells with
  | nil => exact Nat.le_refl 0
  | cons cell cells ih =>
      have hrest := ih (fun c hc => h c (List.mem_cons_of_mem cell hc))
      rcases h cell List.mem_cons_self with ⟨hascii, hlen⟩
      have hone : textChars (ascii " ") = 1 := by decide
      unfold tuiDataColLen at hlen
      rw [List.flatMap_cons, opsChars_append, List.length_cons]
      simp only [opsChars, textChars_padLeft hascii, hone]
      omega

/-- The data columns take up to twice their width. -/
theorem maxColsFit_le (width : Int) (hwidth : 27 ≤ width) :
    24 * (maxColsFit width : Int) ≤ 2 * (width - 23) := by
  unfold maxColsFit
  rw [Int.tdiv_eq_ediv_of_nonneg (by omega)]
  omega

/-! ## Room -/

theorem room_tail {top : Int} (hrow : top ≤ row ∧ row ≤ size.rows) (hpos : 1 ≤ size.cols)
    (o : Int) :
    Room size top o (rightBorder row size.cols) := by
  refine ⟨⟨hrow.1, hrow.2, hpos, le_rfl⟩, ?_, trivial⟩
  have hvbar : textChars vbar = 1 := by decide
  have hend : (row - 1) * size.cols + (size.cols - 1) + 1 = row * size.cols := by ring
  rw [hvbar]
  push_cast
  rw [hend]
  exact Int.mul_le_mul_of_nonneg_right hrow.2 (by omega)

/-- A line that starts on its row has room on it and the row below. -/
theorem room_start (hhigh : row < size.rows) (hpos : 1 ≤ size.cols) {body tail : List ScreenOp}
    (hmove : ∀ op ∈ body, op.isMove = false) (hchars : (opsChars body : Int) ≤ 2 * size.cols)
    (htail : ∀ o, Room size row o tail) :
    Room size row 0 (.moveTo row 1 :: (body ++ tail)) := by
  refine ⟨⟨le_rfl, by omega, le_rfl, hpos⟩, ?_⟩
  apply room_append hmove
  · have hrows : (row + 1) * size.cols ≤ size.rows * size.cols :=
      Int.mul_le_mul_of_nonneg_right hhigh (by omega)
    have hsplit : (row + 1) * size.cols = (row - 1) * size.cols + 2 * size.cols := by ring
    omega
  · exact htail _

theorem room_whole (hhigh : row < size.rows) (hpos : 1 ≤ size.cols) {body : List ScreenOp}
    (hmove : ∀ op ∈ body, op.isMove = false) (hchars : (opsChars body : Int) ≤ 2 * size.cols) :
    Room size row 0 (.moveTo row 1 :: body) := by
  have hroom : Room size row 0 (.moveTo row 1 :: (body ++ [])) :=
    room_start hhigh hpos hmove hchars (fun _ => trivial)
  rw [List.append_nil] at hroom
  exact hroom

theorem room_fullLine (hhigh : row < size.rows) (hcols : 2 ≤ size.cols) {left right : Bytes}
    (hleft : textChars left = 1) (hright : textChars right = 1) :
    Room size row 0 (fullLine row size.cols left right) := by
  apply room_whole hhigh (by omega)
  · simp [ScreenOp.isMove]
  · simp only [opsChars, textChars_hbars, hleft, hright]
    omega

theorem room_bordered (hhigh : row < size.rows) (hpos : 1 ≤ size.cols) {body : List ScreenOp}
    (hmove : ∀ op ∈ body, op.isMove = false) (hchars : (opsChars body : Int) ≤ 2 * size.cols) :
    Room size row 0 (.moveTo row 1 :: (body ++ rightBorder row size.cols)) :=
  room_start hhigh hpos hmove hchars (room_tail ⟨le_rfl, hhigh.le⟩ hpos)

/-- Every line of the areas has room. -/
theorem room_line {d : Drawn} (hd : d.Graphic size.cols) (hregion : d.region ≠ .cmdLine)
    (hcols : 27 ≤ size.cols) (hhigh : row < size.rows) :
    Room size row 0 (d.ops thumb size.cols row) := by
  have hpos : 1 ≤ size.cols := by omega
  -- a row has two rows of cells from its start on, and its last cell is on the screen
  have hrows : (row - 1) * size.cols + 2 * size.cols ≤ size.rows * size.cols := by
    have hmul : (row + 1) * size.cols ≤ size.rows * size.cols :=
      Int.mul_le_mul_of_nonneg_right hhigh (by omega)
    have hsplit : (row + 1) * size.cols = (row - 1) * size.cols + 2 * size.cols := by ring
    omega
  have hfit := maxColsFit_le size.cols hcols
  have hone : textChars (ascii " ") = 1 := by decide
  have hvbar : textChars vbar = 1 := by decide
  have hhbar : textChars hbar = 1 := by decide
  cases d with
  | area1Top name =>
      have htitle := textChars_titleText hd
      have hleft : textChars topLeft = 1 := by decide
      have hright : textChars topRight = 1 := by decide
      apply room_whole hhigh hpos
      · simp [ScreenOp.isMove]
      · simp only [opsChars, textChars_hbars, hleft, hright, hhbar]
        omega
  | separator => exact room_fullLine hhigh (by omega) (by decide) (by decide)
  | underline => exact room_fullLine hhigh (by omega) (by decide) (by decide)
  | area1Bottom => exact room_fullLine hhigh (by omega) (by decide) (by decide)
  | header label cells =>
      rcases hd with ⟨hlabel, hlength, hcells⟩
      have hsum := opsChars_cells hcells
      have hlabel20 := textChars_padRight hlabel.1 20
      have hlen := hlabel.2
      unfold tuiDataColLen at hlen
      show Room size row 0 (.moveTo row 1 :: (_ ++ rightBorder row size.cols))
      apply room_bordered hhigh hpos
      · simp +contextual [ScreenOp.isMove, or_imp]
      · simp [opsChars, opsChars_append, hvbar, hone, hlabel20]
        omega
  | textRow label text =>
      rcases hd with ⟨hlabel, htext, hlength⟩
      have hlabel20 := textChars_padRight hlabel.1 20
      have hpad := textChars_padRight htext (size.cols - 24).toNat
      have hlen := hlabel.2
      unfold tuiDataColLen at hlen
      have hroom : 24 < size.cols := by omega
      show Room size row 0 (.moveTo row 1 :: (_ ++ rightBorder row size.cols))
      apply room_bordered hhigh hpos
      · simp +contextual [ScreenOp.isMove, or_imp, hroom]
      · simp [opsChars, hvbar, hone, hlabel20, hroom, hpad]
        omega
  | dataRow label cells =>
      rcases hd with ⟨hlabel, hlength, hcells⟩
      have hsum := opsChars_columns hcells
      have hlabel20 := textChars_padRight hlabel.1 20
      have hlen := hlabel.2
      unfold tuiDataColLen at hlen
      show Room size row 0 (.moveTo row 1 :: (_ ++ rightBorder row size.cols))
      apply room_bordered hhigh hpos
      · simp +contextual only [ScreenOp.isMove, or_imp, List.append_eq, List.mem_append,
          List.mem_cons, List.mem_flatMap, List.not_mem_nil, forall_exists_index, and_imp]
        simp +contextual
      · simp [opsChars, hvbar, hone, hlabel20]
        omega
  | blank =>
      show Room size row 0 (.moveTo row 1 :: (_ ++ rightBorder row size.cols))
      apply room_bordered hhigh hpos
      · simp [ScreenOp.isMove]
      · simp [opsChars, hvbar]
        omega
  | area2Top autoScroll =>
      have htitle := textChars_logTitle autoScroll
      have hright : textChars topRight = 1 := by decide
      have hleft : textChars topLeft = 1 := by decide
      show Room size row 0 (.moveTo row 1 :: ([.style, .text topLeft, .style,
        .text (logTitle autoScroll), .style, .text (hbars _)] ++
          [.moveTo row size.cols, .text topRight, .style]))
      apply room_start hhigh hpos
      · simp [ScreenOp.isMove]
      · simp only [opsChars, textChars_hbars, htitle, hleft]
        omega
      · intro o
        refine ⟨⟨le_rfl, hhigh.le, hpos, le_rfl⟩, ?_, trivial⟩
        rw [hright]
        push_cast
        omega
  | logLine message =>
      show Room size row 0 (.moveTo row 1 :: (_ ++ rightBorder row size.cols))
      apply room_bordered hhigh hpos
      · cases message <;> simp [ScreenOp.isMove]
      · cases message with
        | none =>
            simp [opsChars, hvbar]
            omega
        | some text =>
            rcases hd text rfl with ⟨hascii, hlength⟩
            simp [opsChars, hvbar, hone, textChars_append, textChars_ascii hascii]
            omega
  | scrollbar =>
      have hsymbol : textChars (if thumb row then fullBlock else ascii " ") = 1 := by
        split <;> decide
      refine ⟨⟨le_rfl, hhigh.le, by omega, by omega⟩, ?_, trivial⟩
      rw [hsymbol]
      push_cast
      omega
  | area2Bottom =>
      have hleft : textChars bottomLeft = 1 := by decide
      have hright : textChars bottomRight = 1 := by decide
      have hhint : textChars hint = 25 := by decide
      show Room size row 0 (.moveTo row 1 :: ([.style, .text bottomLeft, .text (hbars _)] ++
        [.moveTo row (max 2 (size.cols - 1 - textChars hint)), .style, .text hint,
          .moveTo row (size.cols - 1), .style, .text hbar, .text bottomRight, .style]))
      apply room_start hhigh hpos
      · simp [ScreenOp.isMove]
      · simp only [opsChars, textChars_hbars, hleft]
        omega
      · intro o
        rw [hhint]
        refine ⟨⟨le_rfl, hhigh.le, by omega, by omega⟩, ?_, ⟨le_rfl, hhigh.le, by omega, by omega⟩,
          ?_, ?_, trivial⟩
        · rw [hhint]
          push_cast
          omega
        · rw [hhbar]
          push_cast
          omega
        · rw [hhbar, hright]
          push_cast
          omega
  | cmdLine layouts current lastKey => exact absurd rfl hregion

/-! ## The command line -/

/-- The layouts on the command line. -/
def State.switcherText (s : State) : Bytes :=
  (((List.range maxLayouts).filter (fun i => (s.layouts i).defined)).map (fun i =>
    (i + 1, (s.layouts i).name.take 8))).flatMap (switcherEntry s.currentLayout)

/-- The columns of the command line. -/
def State.cmdLineWidth (s : State) : Nat :=
  27 + s.switcherText.length

theorem length_keyText (c : UInt8) : (Memory.keyText c).length ≤ 10 := by
  unfold Memory.keyText
  split
  · decide
  · split
    · exact Nat.le_of_ble_eq_true rfl
    · exact Nat.le_of_ble_eq_true rfl

/-- The texts of the command line and their colours. -/
def State.cmdLineTexts (s : State) : List ScreenOp :=
  [.style, .text (ascii " LAYOUTS: "), .style, .text s.switcherText, .style,
    .text (ascii "  CMD: "),
    .style, .text (padRight 10 (Memory.keyText s.lastKey)), .style]

theorem opsChars_cmdLineTexts {t : State} (h : t.Graphic) :
    opsChars t.cmdLineTexts = t.cmdLineWidth := by
  have hlayouts : textChars (ascii " LAYOUTS: ") = 10 := by decide
  have hcmd : textChars (ascii "  CMD: ") = 7 := by decide
  have hkey := length_keyText t.lastKey
  have hswitcher : AsciiText t.switcherText := by
    apply asciiText_flatMap
    intro layout hlayout
    rcases List.mem_map.mp hlayout with ⟨i, _, rfl⟩
    exact asciiText_switcherEntry _ (asciiText_take (h.layout i).name 8)
  simp only [State.cmdLineTexts, opsChars, hlayouts, hcmd, textChars_ascii hswitcher,
    textChars_padRight (asciiText_keyText t.lastKey), State.cmdLineWidth]
  omega

theorem ops_cmdLine (t : State) :
    (piece thumb size.cols (t.renderCmdLine size.rows)).ops =
      .moveTo size.rows 1 :: (t.cmdLineTexts ++ [.eraseLine]) :=
  rfl

theorem sent_cmdLine (hT : T.Narrow) {t : State} (h : t.Graphic) :
    ∀ bytes, .text bytes ∈ (piece thumb size.cols (t.renderCmdLine size.rows)).ops →
      T.Graphic bytes := by
  intro bytes hbytes
  have hline : (t.renderCmdLine size.rows).2.Graphic size.cols := by
    intro layout hlayout
    rcases List.mem_map.mp hlayout with ⟨i, _, rfl⟩
    exact asciiText_take (h.layout i).name 8
  have hall : ∀ op ∈ (piece thumb size.cols (t.renderCmdLine size.rows)).ops,
      ShowsGraphic T op := @graphic_sent T thumb _ _ hT _ hline
  exact hall _ hbytes

/-- A command line that is wider than the screen scrolls it. -/
theorem scrolled_cmdLine (hT : T.Narrow) {t : State} (h : t.Graphic) (hrows : 1 ≤ size.rows)
    (hcols : 1 ≤ size.cols) (hwide : size.cols < t.cmdLineWidth) :
    (T.draw size .home (piece thumb size.cols (t.renderCmdLine size.rows)).ops).scrolled =
      true := by
  let c : Cursor := T.op size .home (.moveTo size.rows 1)
  have hsplit : (size.rows - 1) * size.cols = size.rows * size.cols - size.cols := by ring
  have hrow : c.row = size.rows := by
    show max 1 (min size.rows size.rows) = size.rows
    omega
  have hcol : c.col = 1 := by
    show max 1 (min 1 size.cols) = 1
    omega
  have hbelow : c.Below size size.rows :=
    { row := by omega
      col := by omega
      wraps := fun hnext => by contradiction
      drawn := fun r hr => absurd hr List.not_mem_nil
      scrolled := rfl }
  have hoffset : c.offset size = (size.rows - 1) * size.cols := by
    rw [Cursor.offset, hrow, hcol]
    show (size.rows - 1) * size.cols + (1 - 1) + 0 = (size.rows - 1) * size.cols
    omega
  have hgraphic : ∀ bytes, .text bytes ∈ t.cmdLineTexts → T.Graphic bytes := by
    intro bytes hmem
    apply @sent_cmdLine T thumb size hT t h
    rw [ops_cmdLine]
    exact List.mem_cons_of_mem _ (List.mem_append_left _ hmem)
  have hplain : ∀ op ∈ t.cmdLineTexts, op = .style ∨ ∃ bytes, op = .text bytes := by
    simp [State.cmdLineTexts]
  have hover : (T.draw size c t.cmdLineTexts).scrolled = true := by
    apply draw_scrolls hgraphic hplain hbelow rfl
    rw [opsChars_cmdLineTexts h, hoffset]
    omega
  rw [ops_cmdLine, Terminal.draw, List.foldl_cons, List.foldl_append]
  exact scrolled_draw T hover [.eraseLine]

/-- The command line fits if and only if it is no wider than the screen. -/
theorem fits_cmdLine_iff (hT : T.Narrow) {t : State} (h : t.Graphic) (hrows : 1 ≤ size.rows)
    (hcols : 1 ≤ size.cols) :
    T.Fits size (piece thumb size.cols (t.renderCmdLine size.rows)) ↔
      (t.cmdLineWidth : Int) ≤ size.cols := by
  constructor
  · rintro ⟨hscrolled, -⟩
    by_contra hwide
    have htrue := @scrolled_cmdLine T thumb size hT t h hrows hcols (Int.not_le.mp hwide)
    exact Bool.false_ne_true (hscrolled.symm.trans htrue)
  · intro hwidth
    apply fits_of_room (sent_cmdLine hT h) (piece_closed thumb size.cols _) hrows
    have hmove : ∀ op ∈ t.cmdLineTexts, op.isMove = false := by
      simp [State.cmdLineTexts, ScreenOp.isMove]
    refine ⟨⟨le_rfl, le_rfl, le_rfl, hcols⟩, room_append hmove ?_ trivial⟩
    rw [opsChars_cmdLineTexts h]
    show (size.rows - 1) * size.cols + (1 - 1) + (t.cmdLineWidth : Int) ≤ size.rows * size.cols
    have hsplit : (size.rows - 1) * size.cols = size.rows * size.cols - size.cols := by ring
    omega

end Sent

/-! ## The frame -/

/-- For every terminal with at least ten rows on which graphic characters take one column,
and every state with graphic texts: the frame of a `Tick` tiles the screen and every row
shows its own line if and only if the command line is no wider than the screen. -/
theorem frame_of_graphic_iff {T : Terminal} (hT : T.Narrow) (thumb : Int → Bool) {s : State}
    (hs : s.Graphic) (i : TickInput) (hrunning : s.running = true) (hrows : 10 ≤ i.screen.rows)
    (hcols : 1 ≤ i.screen.cols) {c : Cursor} (hc : c.pending = .nothing) :
    s.ShowsFrame T thumb i c ↔ ((s.beforeRender i).cmdLineWidth : Int) ≤ i.screen.cols := by
  have hrows' : 10 ≤ (termGetSize i.winsize).1 := Int.ofNat_le.mp hrows
  have htiles : Tiles (s.beforeRender i) (s.beforeRender i).areaHeights.1 i.screen.rows
      (s.frame i) := tiles_frame s i hrunning hrows'
  have ht := graphic_beforeRender hs i
  have hcmd : T.Fits i.screen (piece thumb i.screen.cols
        ((s.beforeRender i).renderCmdLine i.screen.rows)) ↔
      ((s.beforeRender i).cmdLineWidth : Int) ≤ i.screen.cols :=
    fits_cmdLine_iff hT ht (by omega) hcols
  rw [showsFrame_iff T thumb s i hrunning hrows hc]
  constructor
  · intro hfits
    exact hcmd.mp (hfits _ (List.mem_append_right _ List.mem_cons_self))
  · intro hwidth d hd
    have hwide : 27 ≤ i.screen.cols := by
      unfold State.cmdLineWidth at hwidth
      omega
    have hmem := mem_frame_of_expected hrunning hrows' hd
    by_cases hregion : d.2.region = .cmdLine
    · have hlast : d ∈ (s.frame i).filter (fun d => d.2.region == .cmdLine) := by
        rw [List.mem_filter, beq_iff_eq]
        exact ⟨hmem, hregion⟩
      rw [htiles.cmdLine] at hlast
      rw [List.mem_singleton.mp hlast]
      exact hcmd.mpr hwidth
    · have hlow := (htiles.on_screen d hmem).1
      have hhigh : d.1 < i.screen.rows := by
        by_contra hlast
        have hrow := htiles.region d hmem
        have harea2 := htiles.area2_height
        unfold area2MinRows at harea2
        rw [if_neg (by omega), if_neg hlast] at hrow
        exact hregion hrow
      have hgraphic : d.2.Graphic i.screen.cols := graphic_expected ht (by
        show 4 ≤ i.screen.cols
        omega) hd
      have hsent : ∀ bytes, .text bytes ∈ (piece thumb i.screen.cols d).ops → T.Graphic bytes := by
        intro bytes hbytes
        have hall : ∀ op ∈ (piece thumb i.screen.cols d).ops, ShowsGraphic T op :=
          graphic_sent hT hgraphic
        exact hall _ hbytes
      apply fits_of_room hsent (piece_closed thumb i.screen.cols d) hlow
      exact room_line hgraphic hregion hwide hhigh

/-- A terminal on which every character has one column and escape sequences only choose
colours. -/
def plainTerminal : Terminal where
  columns := oneColumn
  escape := fun bytes =>
    if bytes.getLast? = some (key 'm') then
      some { cursor := fun row col => (row, col), changed := fun _ _ => [], scrolls := false }
    else none

/-- Two layouts, a group with a header and two rows, and two messages, one of which has
colours and a line feed. -/
def twoLayouts : State :=
  State.init.ops
    [.setLayoutName 0 (some (ascii "Joints")), .setLayoutName 1 (some (ascii "Sensors")),
      .setGroup 0 0 (ascii "Joint") [some (ascii "pos"), some (ascii "vel")],
      .setRowCols 0 0 0 (ascii "hip") [ascii "0.25", ascii "1.5"],
      .setTextRow 0 0 1 (ascii "state") (ascii "ready"),
      .logV .info ([esc] ++ ascii "[32mstarted" ++ [esc] ++ ascii "[0m"),
      .logV .warn (ascii "first line" ++ [0x0a] ++ ascii "second line")]

/-- Line feeds of a message in front of the lower border of the log scroll. -/
example : ¬ plainTerminal.Fits firstTick.screen (piece (fun _ => false) 80
    (22, .logLine (some (ascii "a" ++ [0x0a, 0x0a, 0x0a] ++ ascii "b")))) := by
  decide

/-- Five layouts. -/
def fiveLayouts : State :=
  State.init.ops
    [.setLayoutName 0 (some (ascii "Overview")), .setLayoutName 1 (some (ascii "Joints")),
      .setLayoutName 2 (some (ascii "Sensors")), .setLayoutName 3 (some (ascii "Network")),
      .setLayoutName 4 (some (ascii "Errors"))]

/-- The command line of the five layouts has 88 columns. -/
example : (fiveLayouts.beforeRender firstTick).cmdLineWidth = 88 := by
  decide +kernel

/-- A layout with a group, a row of columns and a text row, and a message; a `Tick`, and
another text of the row. -/
def graphicCalls : List Op :=
  [.setLayoutName 0 (some (ascii "Joints")), .setGroup 0 0 (ascii "Joint") [some (ascii "pos")],
    .setRowCols 0 0 0 (ascii "hip") [ascii "0.25"],
    .setTextRow 0 0 1 (ascii "state") (ascii "ready"), .logV .info (ascii "started"),
    .tick firstTick, .setTextRow 0 0 1 (ascii "state") (ascii "busy")]

end RtTui
end Log
end DtCore
