import Mathlib.Tactic

/-!
# Text on a terminal

A program that draws on a terminal sends it texts between commands that place the
cursor.  The terminal wraps a text at its last column, scrolls behind its last row,
and reads control bytes and escape sequences inside the texts.  How many columns a
character takes and what an escape sequence does differ from terminal to terminal and
are parameters.

A piece is what is sent for one row.  A frame of pieces is shown when nothing of it
scrolls or lies off the screen and, once the piece of a row was drawn, no piece of
another row draws there.

Main definitions:

- `Terminal.feed`, `Terminal.op`, `Terminal.draw`: the terminal.
- `Shown`: the rows of a frame keep their pieces.
- `Terminal.Fits`: a piece stays on its row and the rows below.

Main results:

- Theorem `shown_iff_fits`: a frame that goes down the rows is shown if and only if its
  pieces fit.
- Theorem `draws_text`: where a text of one-column characters goes.
- Theorem `draw_scrolls`: texts with more characters than there are cells scroll.
-/

namespace DtCore
namespace Foundation

/-! ## The terminal -/

/-- What an escape sequence inside a text does, by the row and the column of the cursor:
where it puts the cursor, the rows that it changes, and whether it scrolls. -/
structure Effect where
  cursor : Int → Int → Int × Int
  changed : Int → Int → List Int
  scrolls : Bool

/-- The columns that a character takes, given by its bytes, and what the bytes behind an
`ESC` do, `none` while their sequence is not complete. -/
structure Terminal where
  columns : List UInt8 → Fin 3
  escape : List UInt8 → Option Effect

/-- The number of rows and columns. -/
structure ScreenSize where
  rows : Int
  cols : Int

/-- The bytes of a character or an escape sequence that is not complete. -/
inductive Pending where
  | nothing
  | char (bytes : List UInt8) (need : Nat)
  | escape (bytes : List UInt8)
deriving DecidableEq

/-- The cursor; `wrapNext` is set behind a character in the last column.  The rows that
were drawn on and whether the screen was scrolled are recorded. -/
structure Cursor where
  row : Int
  col : Int
  wrapNext : Bool
  pending : Pending
  drawn : List Int
  scrolled : Bool
deriving DecidableEq

/-- One row down; the last row scrolls. -/
def Cursor.down (size : ScreenSize) (c : Cursor) : Cursor :=
  if c.row < size.rows then { c with row := c.row + 1 } else { c with scrolled := true }

def Cursor.newLine (size : ScreenSize) (c : Cursor) : Cursor :=
  { c.down size with col := 1, wrapNext := false }

/-- Print a character of `n` columns; one that has no room goes to the next row. -/
def Cursor.print (size : ScreenSize) (n : Nat) (c : Cursor) : Cursor :=
  if n = 0 then c
  else
    let c :=
      if c.wrapNext = true ∨ 1 < c.col ∧ size.cols < c.col + n - 1 then c.newLine size else c
    { c with
      drawn := c.drawn ++ [c.row]
      col := max 1 (min (c.col + n) size.cols)
      wrapNext := decide (size.cols < c.col + n) }

/-- The control bytes; the line discipline makes a new line of a line feed. -/
def Cursor.control (size : ScreenSize) (b : UInt8) (c : Cursor) : Cursor :=
  if b = 0x0a then c.newLine size
  else if b = 0x0b ∨ b = 0x0c then { c.down size with wrapNext := false }
  else if b = 0x0d then { c with col := 1, wrapNext := false }
  else if b = 0x08 then { c with col := max 1 (c.col - 1), wrapNext := false }
  else if b = 0x09 then { c with col := max c.col (min size.cols ((c.col - 1) / 8 * 8 + 9)) }
  else c

def Cursor.apply (size : ScreenSize) (e : Effect) (c : Cursor) : Cursor :=
  { c with
    row := max 1 (min (e.cursor c.row c.col).1 size.rows)
    col := max 1 (min (e.cursor c.row c.col).2 size.cols)
    wrapNext := false
    drawn := c.drawn ++ e.changed c.row c.col
    scrolled := c.scrolled || e.scrolls }

/-- A byte that continues a UTF-8 sequence. -/
def isContinuation (b : UInt8) : Bool :=
  b &&& 0xc0 = 0x80

/-- The continuation bytes behind a first byte. -/
def continuations (b : UInt8) : Nat :=
  if b < 0xe0 then 1 else if b < 0xf0 then 2 else 3

/-- What stands between `ESC` and the graphic characters. -/
def isControl (b : UInt8) : Bool :=
  b < 0x20 || b = 0x7f

/-- A byte that begins something new; a byte that is no UTF-8 is shown by itself. -/
def Terminal.ground (T : Terminal) (size : ScreenSize) (c : Cursor) (b : UInt8) : Cursor :=
  if b = 0x1b then { c with pending := .escape [] }
  else if isControl b then c.control size b
  else if b < 0x80 ∨ isContinuation b = true ∨ 0xf8 ≤ b then c.print size (T.columns [b])
  else { c with pending := .char [b] (continuations b) }

/-- A character that is cut off is shown as far as it came. -/
def Terminal.interrupt (T : Terminal) (size : ScreenSize) (c : Cursor) : Cursor :=
  match c.pending with
  | .char bytes _ => { c with pending := .nothing }.print size (T.columns bytes)
  | _ => { c with pending := .nothing }

/-- One byte of a text. -/
def Terminal.feed (T : Terminal) (size : ScreenSize) (c : Cursor) (b : UInt8) : Cursor :=
  match c.pending with
  | .nothing => T.ground size c b
  | .char bytes need =>
      if isContinuation b then
        if need ≤ 1 then { c with pending := .nothing }.print size (T.columns (bytes ++ [b]))
        else { c with pending := .char (bytes ++ [b]) (need - 1) }
      else T.ground size (T.interrupt size c) b
  | .escape bytes =>
      if b = 0x1b then { c with pending := .escape [] }
      else
        match T.escape (bytes ++ [b]) with
        | none => { c with pending := .escape (bytes ++ [b]) }
        | some e => { c with pending := .nothing }.apply size e

/-- What a program sends: commands that place the cursor, choose colours or erase to the
end of the row, and texts.  A command begins with an `ESC`, which ends what is pending. -/
inductive ScreenOp where
  | moveTo (row col : Int)
  | style
  | eraseLine
  | text (bytes : List UInt8)
deriving DecidableEq

def Terminal.op (T : Terminal) (size : ScreenSize) (c : Cursor) : ScreenOp → Cursor
  | .moveTo row col =>
      { T.interrupt size c with
        row := max 1 (min row size.rows)
        col := max 1 (min col size.cols)
        wrapNext := false }
  | .style => T.interrupt size c
  | .eraseLine =>
      let c := T.interrupt size c
      { c with drawn := c.drawn ++ [c.row], wrapNext := false }
  | .text bytes => bytes.foldl (T.feed size) c

def Terminal.draw (T : Terminal) (size : ScreenSize) (c : Cursor) (ops : List ScreenOp) :
    Cursor :=
  ops.foldl (T.op size) c

/-! ## Frames -/

/-- What is sent for a row. -/
structure Piece where
  row : Int
  ops : List ScreenOp
deriving DecidableEq

/-- The rows that a piece was drawn on, and whether it scrolled. -/
structure Ink where
  row : Int
  drawn : List Int
  scrolled : Bool
deriving DecidableEq

/-- Draw the pieces one after the other. -/
def Terminal.inks (T : Terminal) (size : ScreenSize) : Cursor → List Piece → List Ink
  | _, [] => []
  | c, p :: pieces =>
      let c := T.draw size { c with drawn := [], scrolled := false } p.ops
      { row := p.row, drawn := c.drawn, scrolled := c.scrolled } :: T.inks size c pieces

/-- Nothing scrolls or is drawn off the screen, and no piece is drawn on the row of an
earlier piece, unless it is its own. -/
def Shown (size : ScreenSize) (inks : List Ink) : Prop :=
  (∀ x ∈ inks, x.scrolled = false ∧ ∀ r ∈ x.drawn, 1 ≤ r ∧ r ≤ size.rows) ∧
    inks.Pairwise (fun x y => y.row ≠ x.row → x.row ∉ y.drawn)

/-- The upper left corner of a screen on which nothing was drawn. -/
def Cursor.home : Cursor where
  row := 1
  col := 1
  wrapNext := false
  pending := .nothing
  drawn := []
  scrolled := false

/-- What a piece draws by itself. -/
def Terminal.ink (T : Terminal) (size : ScreenSize) (p : Piece) : Ink where
  row := p.row
  drawn := (T.draw size .home p.ops).drawn
  scrolled := (T.draw size .home p.ops).scrolled

/-- A piece does not scroll, and it draws on its row and the rows below only. -/
def Terminal.Fits (T : Terminal) (size : ScreenSize) (p : Piece) : Prop :=
  (T.ink size p).scrolled = false ∧ ∀ r ∈ (T.ink size p).drawn, p.row ≤ r ∧ r ≤ size.rows

instance decidableFits (T : Terminal) (size : ScreenSize) (p : Piece) :
    Decidable (T.Fits size p) :=
  inferInstanceAs (Decidable (_ = false ∧ ∀ r ∈ (T.ink size p).drawn, _))

/-- A piece places the cursor first and ends in a command. -/
def Piece.Closed (p : Piece) : Prop :=
  ∃ row col ops op, p.ops = .moveTo row col :: (ops ++ [op]) ∧ ∀ bytes, op ≠ .text bytes

/-- A cursor with nothing pending is not interrupted. -/
theorem interrupt_eq (T : Terminal) (size : ScreenSize) {c : Cursor} (h : c.pending = .nothing) :
    T.interrupt size c = c := by
  rw [Terminal.interrupt, h]
  dsimp only
  rw [← h]

/-- A character with room, or in the first column, stays on the row. -/
theorem print_stays {size : ScreenSize} {n : Nat} {c : Cursor} (hnext : c.wrapNext = false)
    (hroom : c.col ≤ 1 ∨ c.col + n - 1 ≤ size.cols) :
    (c.print size n).scrolled = c.scrolled ∧ (c.print size n).pending = c.pending ∧
      ∀ r ∈ (c.print size n).drawn, r ∈ c.drawn ∨ r = c.row := by
  unfold Cursor.print
  split
  · exact ⟨rfl, rfl, fun r hr => Or.inl hr⟩
  · have hstay : ¬ (c.wrapNext = true ∨ 1 < c.col ∧ size.cols < c.col + n - 1) := by
      rw [hnext]
      rintro (hyes | hover)
      · contradiction
      · omega
    rw [if_neg hstay]
    refine ⟨rfl, rfl, ?_⟩
    intro r hr
    rcases List.mem_append.mp hr with hr | hr
    · exact Or.inl hr
    · exact Or.inr (List.mem_singleton.mp hr)

/-! ## A piece alone and in a frame -/

section Frame

variable {T : Terminal} {size : ScreenSize}

/-- A command leaves nothing pending. -/
theorem op_pending {op : ScreenOp} (h : ∀ bytes, op ≠ .text bytes) (c : Cursor) :
    (T.op size c op).pending = .nothing := by
  have hinterrupt : (T.interrupt size c).pending = .nothing := by
    unfold Terminal.interrupt Cursor.print Cursor.newLine Cursor.down
    split
    · dsimp only
      split
      · rfl
      · split
        · split <;> rfl
        · rfl
    · rfl
  cases op with
  | moveTo row col => exact hinterrupt
  | style => exact hinterrupt
  | eraseLine => exact hinterrupt
  | text bytes => exact absurd rfl (h bytes)

theorem draw_pending {p : Piece} (h : p.Closed) (c : Cursor) :
    (T.draw size c p.ops).pending = .nothing := by
  rcases h with ⟨row, col, ops, op, hops, hop⟩
  rw [hops, Terminal.draw, List.foldl_cons, List.foldl_append]
  exact op_pending hop _

/-- A piece that is not cut into by the one before it draws as it does alone. -/
theorem draw_eq_ink {p : Piece} (h : p.Closed) {c : Cursor} (hc : c.pending = .nothing) :
    T.draw size { c with drawn := [], scrolled := false } p.ops = T.draw size .home p.ops := by
  rcases h with ⟨row, col, ops, op, hops, hop⟩
  rw [hops, Terminal.draw, Terminal.draw, List.foldl_cons, List.foldl_cons]
  congr 1
  unfold Terminal.op Terminal.interrupt
  rw [hc]
  rfl

theorem inks_eq_map {pieces : List Piece} (h : ∀ p ∈ pieces, p.Closed) {c : Cursor}
    (hc : c.pending = .nothing) : T.inks size c pieces = pieces.map (T.ink size) := by
  induction pieces generalizing c with
  | nil => rfl
  | cons p pieces ih =>
      have hp := h p List.mem_cons_self
      rw [Terminal.inks, List.map_cons,
        ih (fun q hq => h q (List.mem_cons_of_mem p hq)) (draw_pending hp _),
        draw_eq_ink hp hc]
      rfl

/-- The pieces go down the rows behind row `top`: each is on the next row, or on one of
the rows before and draws there only. -/
def GoesDown (T : Terminal) (size : ScreenSize) : Int → List Piece → Prop
  | _, [] => True
  | top, p :: pieces =>
      (p.row = top + 1 ∨ 1 ≤ p.row ∧ p.row ≤ top ∧ ∀ r ∈ (T.ink size p).drawn, r = p.row) ∧
        GoesDown T size (max top p.row) pieces

/-- A piece has one on each row above it, and those before it are on rows above it or it
draws on its own row only. -/
theorem GoesDown.split {top : Int} {before after : List Piece} {q : Piece}
    (h : GoesDown T size top (before ++ q :: after)) :
    (∀ r, top < r → r < q.row → ∃ p ∈ before, p.row = r) ∧
      ((∀ r ∈ (T.ink size q).drawn, r = q.row) ∨
        top < q.row ∧ ∀ p ∈ before, p.row < q.row) := by
  induction before generalizing top with
  | nil =>
      rcases h.1 with hnext | ⟨_, hlow, hown⟩
      · constructor
        · intro r hr hlt
          omega
        · right
          constructor
          · omega
          · exact fun p hp => absurd hp List.not_mem_nil
      · constructor
        · intro r hr hlt
          omega
        · exact Or.inl hown
  | cons p before ih =>
      rcases ih h.2 with ⟨hcovered, hbelow⟩
      have hp : p.row ≤ top + 1 := by
        rcases h.1 with hnext | ⟨_, hlow, _⟩ <;> omega
      constructor
      · intro r hr hlt
        by_cases hrow : r ≤ max top p.row
        · exact ⟨p, List.mem_cons_self, by omega⟩
        · rcases hcovered r (by omega) hlt with ⟨p', hp', heq⟩
          exact ⟨p', List.mem_cons_of_mem p hp', heq⟩
      · rcases hbelow with hown | ⟨htop, hbefore⟩
        · exact Or.inl hown
        · right
          constructor
          · omega
          · intro p' hp'
            rcases List.mem_cons.mp hp' with rfl | hp'
            · omega
            · exact hbefore p' hp'

theorem GoesDown.row_pos {top : Int} {pieces : List Piece} (h : GoesDown T size top pieces)
    (htop : 0 ≤ top) : ∀ p ∈ pieces, 1 ≤ p.row := by
  induction pieces generalizing top with
  | nil => exact fun p hp => absurd hp List.not_mem_nil
  | cons p pieces ih =>
      intro q hq
      rcases List.mem_cons.mp hq with rfl | hq
      · rcases h.1 with hnext | ⟨hpos, _, _⟩
        · omega
        · exact hpos
      · exact ih h.2 (by omega) q hq

/-- A relation holds along a list if and only if it holds at every cut. -/
theorem pairwise_iff_cut {α : Type} {R : α → α → Prop} (l : List α) :
    l.Pairwise R ↔ ∀ before q after, l = before ++ q :: after → ∀ p ∈ before, R p q := by
  constructor
  · rintro h before q after rfl p hp
    exact (List.pairwise_append.mp h).2.2 p hp q List.mem_cons_self
  · intro h
    induction l with
    | nil => exact List.Pairwise.nil
    | cons a l ih =>
        apply List.Pairwise.cons
        · intro b hb
          rcases List.append_of_mem hb with ⟨before, after, rfl⟩
          exact h (a :: before) b after rfl a List.mem_cons_self
        · apply ih
          rintro before q after rfl p hp
          exact h (a :: before) q after rfl p (List.mem_cons_of_mem a hp)

/-- A frame that goes down the rows is shown, whatever was on the screen before, if and
only if all its pieces fit. -/
theorem shown_iff_fits {pieces : List Piece} (hclosed : ∀ p ∈ pieces, p.Closed)
    (hdown : GoesDown T size 0 pieces) {c : Cursor} (hc : c.pending = .nothing) :
    Shown size (T.inks size c pieces) ↔ ∀ p ∈ pieces, T.Fits size p := by
  rw [inks_eq_map hclosed hc, Shown, List.pairwise_map, pairwise_iff_cut]
  constructor
  · rintro ⟨hon, hkept⟩ q hq
    rcases hon (T.ink size q) (List.mem_map_of_mem hq) with ⟨hscrolled, hrows⟩
    rcases List.append_of_mem hq with ⟨before, after, hcut⟩
    refine ⟨hscrolled, fun r hr => ⟨?_, (hrows r hr).2⟩⟩
    by_contra habove
    -- the row has its piece already
    rw [hcut] at hdown
    rcases hdown.split.1 r (by have := (hrows r hr).1; omega) (by omega) with ⟨p, hp, hrow⟩
    have hpr : (T.ink size p).row = r := hrow
    have hclear := hkept before q after hcut p hp (by rw [hpr]; show q.row ≠ r; omega)
    rw [hpr] at hclear
    exact hclear hr
  · intro hfits
    constructor
    · intro x hx
      rcases List.mem_map.mp hx with ⟨p, hp, rfl⟩
      refine ⟨(hfits p hp).1, fun r hr => ?_⟩
      have hrow := (hfits p hp).2 r hr
      have hpos := hdown.row_pos le_rfl p hp
      exact ⟨by omega, hrow.2⟩
    · intro before q after hcut p hp hne hdrawn
      have hq := hfits q (by rw [hcut]; exact List.mem_append_right _ List.mem_cons_self)
      rw [hcut] at hdown
      rcases hdown.split.2 with hown | ⟨_, hbefore⟩
      · exact hne (hown _ hdrawn).symm
      · have hlow := (hq.2 _ hdrawn).1
        have hhigh := hbefore p hp
        have heq : (T.ink size p).row = p.row := rfl
        omega

end Frame

/-! ## Texts of one-column characters -/

section Text

variable {T : Terminal} {size : ScreenSize}

/-- The bytes of a graphic character in UTF-8. -/
def isChar : List UInt8 → Bool
  | [] => false
  | b :: rest =>
      if b < 0x80 then !isControl b && rest.isEmpty
      else !isContinuation b && b < 0xf8 && rest.length == continuations b &&
        rest.all isContinuation

theorem foldl_feed_rest {bytes rest : List UInt8} {c : Cursor} {need : Nat}
    (hneed : rest.length = need + 1) (hrest : ∀ b ∈ rest, isContinuation b = true) :
    rest.foldl (T.feed size) { c with pending := .char bytes (need + 1) } =
      { c with pending := .nothing }.print size (T.columns (bytes ++ rest)) := by
  induction need generalizing bytes rest with
  | zero =>
      rcases List.length_eq_one_iff.mp hneed with ⟨b, rfl⟩
      have hb := hrest b (List.mem_singleton.mpr rfl)
      simp [Terminal.feed, hb]
  | succ need ih =>
      cases rest with
      | nil => contradiction
      | cons b rest =>
          have hb := hrest b List.mem_cons_self
          have hlength : rest.length = need + 1 := by simpa using hneed
          have hlater : rest.foldl (T.feed size)
                { c with pending := .char (bytes ++ [b]) (need + 1) } =
              { c with pending := .nothing }.print size (T.columns (bytes ++ [b] ++ rest)) :=
            ih hlength (fun x hx => hrest x (List.mem_cons_of_mem b hx))
          rw [List.append_assoc, List.singleton_append] at hlater
          rw [List.foldl_cons, ← hlater]
          congr 1
          simp [Terminal.feed, hb]

/-- The bytes of a character print it. -/
theorem foldl_feed_char {ch : List UInt8} (h : isChar ch = true) {c : Cursor}
    (hc : c.pending = .nothing) :
    ch.foldl (T.feed size) c = c.print size (T.columns ch) := by
  have hsame : c = { c with pending := .nothing } := by rw [← hc]
  cases ch with
  | nil => contradiction
  | cons b rest =>
      rw [isChar] at h
      split at h
      · rename_i hascii
        rw [Bool.and_eq_true, Bool.not_eq_true', List.isEmpty_iff] at h
        have hesc : b ≠ 0x1b := by
          rintro rfl
          exact absurd h.1 (by decide)
        rw [h.2, List.foldl_cons, List.foldl_nil, Terminal.feed, hc]
        dsimp only
        rw [Terminal.ground, if_neg hesc, h.1, if_neg Bool.false_ne_true, if_pos (Or.inl hascii)]
      · rename_i hascii
        simp only [Bool.and_eq_true, Bool.not_eq_true', decide_eq_true_eq, beq_iff_eq,
          List.all_eq_true] at h
        rcases h with ⟨⟨⟨hlead, hhigh⟩, hlength⟩, hrest⟩
        have hcontrol : isControl b = false := by
          rw [isControl, Bool.or_eq_false_iff, decide_eq_false_iff_not, decide_eq_false_iff_not]
          constructor
          · intro hlow
            exact hascii (UInt8.lt_trans hlow (by decide))
          · rintro rfl
            exact hascii (by decide)
        have hesc : b ≠ 0x1b := by
          rintro rfl
          exact absurd hascii (by decide)
        have hneed : ∃ need, continuations b = need + 1 := by
          unfold continuations
          split
          · exact ⟨0, rfl⟩
          · split
            · exact ⟨1, rfl⟩
            · exact ⟨2, rfl⟩
        rcases hneed with ⟨need, hneed⟩
        rw [List.foldl_cons, Terminal.feed, hc]
        dsimp only
        rw [Terminal.ground, if_neg hesc, hcontrol, if_neg Bool.false_ne_true, if_neg, hneed,
          foldl_feed_rest (hlength.trans hneed) hrest, ← hsame]
        · rfl
        · rintro (hlow | hcont | hbig)
          · exact hascii hlow
          · rw [hlead] at hcont
            contradiction
          · exact absurd hhigh (by simpa using hbig)

/-- The cells in front of the cursor, counted from the upper left corner. -/
def Cursor.offset (size : ScreenSize) (c : Cursor) : Int :=
  (c.row - 1) * size.cols + (c.col - 1) + if c.wrapNext then 1 else 0

/-- A cursor on the screen, below row `top`, with all drawing there. -/
structure Cursor.Below (size : ScreenSize) (top : Int) (c : Cursor) : Prop where
  row : top ≤ c.row ∧ c.row ≤ size.rows
  col : 1 ≤ c.col ∧ c.col ≤ size.cols
  wraps : c.wrapNext = true → c.col = size.cols
  drawn : ∀ r ∈ c.drawn, top ≤ r ∧ r ≤ size.rows
  scrolled : c.scrolled = false

theorem offset_of_wrapNext {c : Cursor} (hcol : c.col = size.cols) (h : c.wrapNext = true) :
    c.offset size = c.row * size.cols := by
  rw [Cursor.offset, h, hcol, if_pos rfl]
  ring

/-- A character of one column takes the next cell. -/
theorem print_below {top : Int} {c : Cursor} (h : c.Below size top)
    (hroom : c.offset size < size.rows * size.cols) :
    (c.print size 1).Below size top ∧ (c.print size 1).offset size = c.offset size + 1 ∧
      (c.print size 1).pending = c.pending := by
  have hrow := h.row
  have hcol := h.col
  unfold Cursor.print
  rw [if_neg Nat.one_ne_zero]
  dsimp only
  by_cases hwrap : c.wrapNext = true
  · have hlast := h.wraps hwrap
    have hoffset := offset_of_wrapNext hlast hwrap
    have hbelow : c.row < size.rows := by
      rw [hoffset] at hroom
      exact Int.lt_of_mul_lt_mul_right hroom (by omega)
    rw [if_pos (Or.inl hwrap), hoffset, Cursor.newLine, Cursor.down, if_pos hbelow]
    refine ⟨?_, ?_, rfl⟩
    · constructor
      · exact ⟨by dsimp only; omega, by dsimp only; omega⟩
      · dsimp only
        omega
      · dsimp only
        intro hnext
        have := of_decide_eq_true hnext
        omega
      · intro r hr
        rcases List.mem_append.mp hr with hr | hr
        · exact h.drawn r hr
        · rw [List.mem_singleton.mp hr]
          dsimp only
          omega
      · exact h.scrolled
    · simp only [Cursor.offset, decide_eq_true_eq]
      split <;> push_cast <;> ring_nf <;> omega
  · have hstay : ¬ (c.wrapNext = true ∨ 1 < c.col ∧ size.cols < c.col + (1 : Nat) - 1) := by
      push_cast
      rintro (hyes | ⟨_, hover⟩)
      · exact hwrap hyes
      · omega
    rw [if_neg hstay]
    refine ⟨?_, ?_, rfl⟩
    · constructor
      · exact hrow
      · dsimp only
        omega
      · dsimp only
        intro hnext
        have := of_decide_eq_true hnext
        omega
      · intro r hr
        rcases List.mem_append.mp hr with hr | hr
        · exact h.drawn r hr
        · rw [List.mem_singleton.mp hr]
          exact hrow
      · exact h.scrolled
    · simp only [Cursor.offset, decide_eq_true_eq, hwrap]
      push_cast
      split <;> simp <;> omega

/-- One column for every character. -/
def oneColumn (_ : List UInt8) : Fin 3 := 1

/-- The characters of a text are shown in one column each. -/
def Terminal.OneColumn (T : Terminal) (chars : List (List UInt8)) : Prop :=
  ∀ ch ∈ chars, isChar ch = true ∧ T.columns ch = 1

/-- A text of one-column characters takes the next cells. -/
theorem draws_text {chars : List (List UInt8)} (hchars : T.OneColumn chars) {top : Int}
    {c : Cursor} (h : c.Below size top) (hc : c.pending = .nothing)
    (hroom : c.offset size + chars.length ≤ size.rows * size.cols) :
    (chars.flatten.foldl (T.feed size) c).Below size top ∧
      (chars.flatten.foldl (T.feed size) c).offset size = c.offset size + chars.length ∧
      (chars.flatten.foldl (T.feed size) c).pending = .nothing := by
  induction chars generalizing c with
  | nil => exact ⟨h, (Int.add_zero _).symm, hc⟩
  | cons ch chars ih =>
      rcases hchars ch List.mem_cons_self with ⟨hch, hcolumns⟩
      rw [List.length_cons] at hroom ⊢
      push_cast at hroom ⊢
      rcases print_below h (by omega) with ⟨hbelow, hoffset, hpending⟩
      rw [List.flatten_cons, List.foldl_append, foldl_feed_char hch hc, hcolumns]
      have hlater := ih (fun x hx => hchars x (List.mem_cons_of_mem ch hx)) hbelow
        (hpending.trans hc) (by rw [hoffset]; omega)
      rw [hoffset] at hlater
      refine ⟨hlater.1, ?_, hlater.2.2⟩
      rw [Int.add_comm _ 1, ← Int.add_assoc]
      exact hlater.2.1

theorem isContinuation_of_ascii {b : UInt8} (h : b < 0x80) : isContinuation b = false := by
  rw [isContinuation, decide_eq_false_iff_not]
  intro hcont
  have hle : b &&& 0xc0 ≤ b := UInt8.and_le_left
  rw [hcont] at hle
  exact UInt8.not_le.mpr h hle

/-- The characters of a text. -/
def textChars (bytes : List UInt8) : Nat :=
  bytes.countP (fun b => !isContinuation b)

/-- A text can be cut into characters of one column. -/
def Terminal.Graphic (T : Terminal) (bytes : List UInt8) : Prop :=
  ∃ chars, T.OneColumn chars ∧ chars.flatten = bytes

theorem textChars_flatten {chars : List (List UInt8)} (h : T.OneColumn chars) :
    textChars chars.flatten = chars.length := by
  induction chars with
  | nil => rfl
  | cons ch chars ih =>
      have hrest := ih (fun x hx => h x (List.mem_cons_of_mem ch hx))
      have hch := (h ch List.mem_cons_self).1
      have hone : textChars ch = 1 := by
        cases ch with
        | nil => contradiction
        | cons b rest =>
            rw [isChar] at hch
            split at hch
            · rename_i hascii
              rw [Bool.and_eq_true, List.isEmpty_iff] at hch
              have hcont : isContinuation b = false := isContinuation_of_ascii hascii
              rw [hch.2, textChars]
              simp [hcont]
            · simp only [Bool.and_eq_true, Bool.not_eq_true', List.all_eq_true] at hch
              rcases hch with ⟨⟨⟨hlead, -⟩, -⟩, hcont⟩
              have hzero : rest.countP (fun b => !isContinuation b) = 0 := by
                rw [List.countP_eq_zero]
                intro x hx
                simp [hcont x hx]
              rw [textChars, List.countP_cons, hzero]
              simp [hlead]
      unfold textChars at hone hrest ⊢
      rw [List.flatten_cons, List.countP_append, hone, hrest, List.length_cons, Nat.add_comm]

/-- The cells that are left for the texts of a piece, from a cell on. -/
def Room (size : ScreenSize) (top : Int) : Int → List ScreenOp → Prop
  | _, [] => True
  | _, .moveTo row col :: ops =>
      (top ≤ row ∧ row ≤ size.rows ∧ 1 ≤ col ∧ col ≤ size.cols) ∧
        Room size top ((row - 1) * size.cols + (col - 1)) ops
  | o, .text bytes :: ops =>
      o + textChars bytes ≤ size.rows * size.cols ∧ Room size top (o + textChars bytes) ops
  | o, _ :: ops => Room size top o ops

/-- The characters of some texts. -/
def opsChars : List ScreenOp → Nat
  | [] => 0
  | .text bytes :: ops => textChars bytes + opsChars ops
  | _ :: ops => opsChars ops

def ScreenOp.isMove : ScreenOp → Bool
  | .moveTo _ _ => true
  | _ => false

theorem opsChars_append (ops ops' : List ScreenOp) :
    opsChars (ops ++ ops') = opsChars ops + opsChars ops' := by
  induction ops with
  | nil => simp [opsChars]
  | cons op ops ih =>
      cases op with
      | text bytes => simp [opsChars, ih, Nat.add_assoc]
      | _ => simp [opsChars, ih]

/-- Texts on one row need their characters. -/
theorem room_append {top o : Int} {ops rest : List ScreenOp}
    (hmove : ∀ op ∈ ops, op.isMove = false)
    (hroom : o + opsChars ops ≤ size.rows * size.cols)
    (hrest : Room size top (o + opsChars ops) rest) : Room size top o (ops ++ rest) := by
  induction ops generalizing o with
  | nil => simpa [opsChars] using hrest
  | cons op ops ih =>
      have hlater := fun op' hop' => hmove op' (List.mem_cons_of_mem op hop')
      cases op with
      | moveTo row col => exact absurd (hmove _ List.mem_cons_self) (by simp [ScreenOp.isMove])
      | style => exact ih hlater hroom hrest
      | eraseLine => exact ih hlater hroom hrest
      | text bytes =>
          rw [opsChars] at hroom hrest
          push_cast at hroom hrest
          refine ⟨by omega, ih hlater (by omega) ?_⟩
          rw [Int.add_assoc]
          exact hrest

theorem draw_below {ops : List ScreenOp}
    (hgraphic : ∀ bytes, .text bytes ∈ ops → T.Graphic bytes) {top o : Int} (htop : 1 ≤ top)
    (hroom : Room size top o ops) {c : Cursor} (h : c.Below size top)
    (hc : c.pending = .nothing) (ho : c.offset size ≤ o) :
    (T.draw size c ops).Below size top := by
  induction ops generalizing c o with
  | nil => exact h
  | cons op ops ih =>
      have hlater := fun bytes hmem => hgraphic bytes (List.mem_cons_of_mem op hmem)
      have hinterrupt : T.interrupt size c = c := interrupt_eq T size hc
      rw [Terminal.draw, List.foldl_cons]
      cases op with
      | moveTo row col =>
          rcases hroom with ⟨hon, hroom⟩
          have hrow : max 1 (min row size.rows) = row := by omega
          have hcol : max 1 (min col size.cols) = col := by omega
          apply ih hlater hroom
          · rw [Terminal.op, hinterrupt]
            exact
              { row := by dsimp only; omega
                col := by dsimp only; omega
                wraps := fun hnext => by contradiction
                drawn := h.drawn
                scrolled := h.scrolled }
          · rw [Terminal.op, hinterrupt]
            exact hc
          · rw [Terminal.op, hinterrupt, Cursor.offset, hrow, hcol, if_neg Bool.false_ne_true,
              Int.add_zero]
      | style =>
          apply ih hlater hroom
          · rw [Terminal.op, hinterrupt]
            exact h
          · rw [Terminal.op, hinterrupt]
            exact hc
          · rw [Terminal.op, hinterrupt]
            exact ho
      | eraseLine =>
          apply ih hlater hroom
          · rw [Terminal.op, hinterrupt]
            exact
              { row := h.row
                col := h.col
                wraps := fun hnext => by contradiction
                drawn := by
                  intro r hr
                  rcases List.mem_append.mp hr with hr | hr
                  · exact h.drawn r hr
                  · rw [List.mem_singleton.mp hr]
                    exact h.row
                scrolled := h.scrolled }
          · rw [Terminal.op, hinterrupt]
            exact hc
          · rw [Terminal.op, hinterrupt]
            unfold Cursor.offset at ho ⊢
            dsimp only
            split at ho <;> simp <;> omega
      | text bytes =>
          rcases hroom with ⟨hfits, hroom⟩
          rcases hgraphic bytes List.mem_cons_self with ⟨chars, hchars, rfl⟩
          rw [textChars_flatten hchars] at hfits hroom
          rcases draws_text hchars h hc (by omega) with ⟨hbelow, hoffset, hpending⟩
          exact ih hlater hroom hbelow hpending (by rw [Terminal.op, hoffset]; omega)

/-! ## Texts that do not fit -/

theorem scrolled_down {c : Cursor} (h : c.scrolled = true) :
    (c.down size).scrolled = true := by
  unfold Cursor.down
  split
  · exact h
  · rfl

theorem scrolled_print {c : Cursor} (h : c.scrolled = true) (n : Nat) :
    (c.print size n).scrolled = true := by
  unfold Cursor.print
  split
  · exact h
  · dsimp only
    split
    · exact scrolled_down h
    · exact h

theorem scrolled_ground (T : Terminal) {c : Cursor} (h : c.scrolled = true) (b : UInt8) :
    (T.ground size c b).scrolled = true := by
  have hcontrol : (c.control size b).scrolled = true := by
    unfold Cursor.control
    split
    · exact scrolled_down h
    · split
      · exact scrolled_down h
      · split_ifs <;> exact h
  unfold Terminal.ground
  split
  · exact h
  · split
    · exact hcontrol
    · split
      · exact scrolled_print h _
      · exact h

theorem scrolled_interrupt (T : Terminal) {c : Cursor} (h : c.scrolled = true) :
    (T.interrupt size c).scrolled = true := by
  unfold Terminal.interrupt
  split
  · exact scrolled_print (c := { c with pending := .nothing }) h _
  · exact h

theorem scrolled_feed (T : Terminal) {c : Cursor} (h : c.scrolled = true) (b : UInt8) :
    (T.feed size c b).scrolled = true := by
  unfold Terminal.feed
  split
  · exact scrolled_ground T h b
  · split
    · split
      · exact scrolled_print (c := { c with pending := .nothing }) h _
      · exact h
    · exact scrolled_ground T (scrolled_interrupt T h) b
  · split
    · exact h
    · split
      · exact h
      · exact Bool.or_eq_true_iff.mpr (Or.inl h)

theorem scrolled_foldl_feed (T : Terminal) {c : Cursor} (h : c.scrolled = true)
    (bytes : List UInt8) : (bytes.foldl (T.feed size) c).scrolled = true := by
  induction bytes generalizing c with
  | nil => exact h
  | cons b bytes ih => exact ih (scrolled_feed T h b)

/-- What was scrolled stays so. -/
theorem scrolled_draw (T : Terminal) {c : Cursor} (h : c.scrolled = true)
    (ops : List ScreenOp) : (T.draw size c ops).scrolled = true := by
  induction ops generalizing c with
  | nil => exact h
  | cons op ops ih =>
      apply ih
      cases op with
      | moveTo row col => exact scrolled_interrupt T h
      | style => exact scrolled_interrupt T h
      | eraseLine => exact scrolled_interrupt T h
      | text bytes => exact scrolled_foldl_feed T h bytes

theorem offset_le {top : Int} {c : Cursor} (h : c.Below size top) :
    c.offset size ≤ size.rows * size.cols := by
  have hcol := h.col
  have hrows : c.row * size.cols ≤ size.rows * size.cols :=
    Int.mul_le_mul_of_nonneg_right h.row.2 (by omega)
  by_cases hwrap : c.wrapNext = true
  · rw [offset_of_wrapNext (h.wraps hwrap) hwrap]
    exact hrows
  · have hsplit : (c.row - 1) * size.cols = c.row * size.cols - size.cols := by ring
    rw [Cursor.offset, if_neg hwrap, hsplit]
    omega

/-- A character behind the last cell scrolls. -/
theorem print_scrolls {top : Int} {c : Cursor} (h : c.Below size top)
    (hfull : c.offset size = size.rows * size.cols) : (c.print size 1).scrolled = true := by
  have hcol := h.col
  have hwrap : c.wrapNext = true := by
    by_contra hwrap
    have hrows : c.row * size.cols ≤ size.rows * size.cols :=
      Int.mul_le_mul_of_nonneg_right h.row.2 (by omega)
    have hsplit : (c.row - 1) * size.cols = c.row * size.cols - size.cols := by ring
    rw [Cursor.offset, if_neg hwrap, hsplit] at hfull
    omega
  have hlast : ¬ c.row < size.rows := by
    rw [offset_of_wrapNext (h.wraps hwrap) hwrap] at hfull
    have hrow := Int.eq_of_mul_eq_mul_right (by omega) hfull
    omega
  unfold Cursor.print
  rw [if_neg Nat.one_ne_zero]
  dsimp only
  rw [if_pos (Or.inl hwrap), Cursor.newLine, Cursor.down, if_neg hlast]

/-- A text of more one-column characters than there are cells scrolls. -/
theorem text_scrolls {chars : List (List UInt8)} (hchars : T.OneColumn chars) {top : Int}
    {c : Cursor} (h : c.Below size top) (hc : c.pending = .nothing)
    (hover : size.rows * size.cols < c.offset size + chars.length) :
    (chars.flatten.foldl (T.feed size) c).scrolled = true := by
  have hle := offset_le h
  induction chars generalizing c with
  | nil =>
      rw [List.length_nil] at hover
      push_cast at hover
      omega
  | cons ch chars ih =>
      rcases hchars ch List.mem_cons_self with ⟨hch, hcolumns⟩
      rw [List.flatten_cons, List.foldl_append, foldl_feed_char hch hc, hcolumns]
      by_cases hroom : c.offset size < size.rows * size.cols
      · rcases print_below h hroom with ⟨hbelow, hoffset, hpending⟩
        apply ih (fun x hx => hchars x (List.mem_cons_of_mem ch hx)) hbelow (hpending.trans hc)
        · rw [List.length_cons] at hover
          push_cast at hover
          rw [hoffset]
          omega
        · rw [hoffset]
          omega
      · exact scrolled_foldl_feed T (print_scrolls h (by omega)) _

/-- Texts with colours between them that have more characters than there are cells scroll. -/
theorem draw_scrolls {ops : List ScreenOp}
    (hgraphic : ∀ bytes, .text bytes ∈ ops → T.Graphic bytes)
    (hplain : ∀ op ∈ ops, op = .style ∨ ∃ bytes, op = .text bytes) {top : Int} {c : Cursor}
    (h : c.Below size top) (hc : c.pending = .nothing)
    (hover : size.rows * size.cols < c.offset size + opsChars ops) :
    (T.draw size c ops).scrolled = true := by
  have hle := offset_le h
  induction ops generalizing c with
  | nil =>
      rw [opsChars] at hover
      push_cast at hover
      omega
  | cons op ops ih =>
      have hlater := fun bytes hmem => hgraphic bytes (List.mem_cons_of_mem op hmem)
      have hothers := fun op' hmem => hplain op' (List.mem_cons_of_mem op hmem)
      rcases hplain op List.mem_cons_self with rfl | ⟨bytes, rfl⟩
      · have hsame : T.op size c .style = c := interrupt_eq T size hc
        rw [Terminal.draw, List.foldl_cons, hsame]
        exact ih hlater hothers h hc hover hle
      · rcases hgraphic bytes List.mem_cons_self with ⟨chars, hchars, rfl⟩
        rw [opsChars, textChars_flatten hchars] at hover
        push_cast at hover
        have htext : T.op size c (.text chars.flatten) = chars.flatten.foldl (T.feed size) c := rfl
        rw [Terminal.draw, List.foldl_cons, htext]
        by_cases hroom : c.offset size + chars.length ≤ size.rows * size.cols
        · rcases draws_text hchars h hc hroom with ⟨hbelow, hoffset, hpending⟩
          apply ih hlater hothers hbelow hpending
          · rw [hoffset]
            omega
          · exact offset_le hbelow
        · exact scrolled_draw T (text_scrolls hchars h hc (by omega)) ops

/-! ## Texts of ASCII characters -/

/-- A text of graphic characters of ASCII. -/
def AsciiText (bytes : List UInt8) : Prop :=
  ∀ b ∈ bytes, b < 0x80 ∧ isControl b = false

instance decidableAsciiText (bytes : List UInt8) : Decidable (AsciiText bytes) :=
  List.decidableBAll _ bytes

/-- Every graphic character takes one column. -/
def Terminal.Narrow (T : Terminal) : Prop :=
  ∀ ch, isChar ch = true → T.columns ch = 1

theorem Terminal.Narrow.char (hT : T.Narrow) {ch : List UInt8} (h : isChar ch = true) :
    T.Graphic ch := by
  refine ⟨[ch], ?_, List.flatten_singleton⟩
  intro x hx
  rw [List.mem_singleton.mp hx]
  exact ⟨h, hT ch h⟩

theorem Terminal.Graphic.append {bytes bytes' : List UInt8} (h : T.Graphic bytes)
    (h' : T.Graphic bytes') : T.Graphic (bytes ++ bytes') := by
  rcases h with ⟨chars, hchars, rfl⟩
  rcases h' with ⟨chars', hchars', rfl⟩
  refine ⟨chars ++ chars', ?_, List.flatten_append⟩
  intro ch hch
  rcases List.mem_append.mp hch with hch | hch
  · exact hchars ch hch
  · exact hchars' ch hch

theorem Terminal.Graphic.flatten {texts : List (List UInt8)} (h : ∀ x ∈ texts, T.Graphic x) :
    T.Graphic texts.flatten := by
  induction texts with
  | nil => exact ⟨[], fun _ hch => absurd hch List.not_mem_nil, rfl⟩
  | cons x texts ih =>
      rw [List.flatten_cons]
      exact (h x List.mem_cons_self).append (ih (fun y hy => h y (List.mem_cons_of_mem x hy)))

theorem Terminal.Narrow.ascii (hT : T.Narrow) {bytes : List UInt8} (h : AsciiText bytes) :
    T.Graphic bytes := by
  induction bytes with
  | nil => exact ⟨[], fun _ hch => absurd hch List.not_mem_nil, rfl⟩
  | cons b bytes ih =>
      rcases h b List.mem_cons_self with ⟨hlow, hcontrol⟩
      have hchar : isChar [b] = true := by simp [isChar, hlow, hcontrol]
      exact (hT.char hchar).append (ih (fun x hx => h x (List.mem_cons_of_mem b hx)))

theorem textChars_ascii {bytes : List UInt8} (h : AsciiText bytes) :
    textChars bytes = bytes.length := by
  rw [textChars, List.countP_eq_length]
  intro b hb
  rw [isContinuation_of_ascii (h b hb).1]
  rfl

/-- A piece of one-column characters fits when there is room for them. -/
theorem fits_of_room {p : Piece} (hgraphic : ∀ bytes, .text bytes ∈ p.ops → T.Graphic bytes)
    (hclosed : p.Closed) (hpos : 1 ≤ p.row) (hroom : Room size p.row 0 p.ops) :
    T.Fits size p := by
  rcases hclosed with ⟨row, col, ops, op, hops, _⟩
  rw [hops] at hroom hgraphic
  rcases hroom with ⟨hon, hroom⟩
  have hrow : max 1 (min row size.rows) = row := by omega
  have hcol : max 1 (min col size.cols) = col := by omega
  have hstart : (T.op size .home (.moveTo row col)).Below size p.row :=
    { row := by rw [Terminal.op]; dsimp only; omega
      col := by rw [Terminal.op]; dsimp only; omega
      wraps := fun hnext => by contradiction
      drawn := fun r hr => absurd hr List.not_mem_nil
      scrolled := rfl }
  have hoffset : (T.op size .home (.moveTo row col)).offset size ≤
      (row - 1) * size.cols + (col - 1) := by
    rw [Terminal.op, Cursor.offset, hrow, hcol, if_neg Bool.false_ne_true, Int.add_zero]
  have hend := draw_below (fun bytes hmem => hgraphic bytes (List.mem_cons_of_mem _ hmem)) hpos
    hroom hstart rfl hoffset
  have hdraw : T.draw size .home p.ops =
      T.draw size (T.op size .home (.moveTo row col)) (ops ++ [op]) := by
    rw [hops, Terminal.draw, List.foldl_cons]
    rfl
  unfold Terminal.Fits Terminal.ink
  dsimp only
  rw [hdraw]
  exact ⟨hend.scrolled, hend.drawn⟩

end Text

end Foundation
end DtCore
