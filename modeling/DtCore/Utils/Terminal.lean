import DtCore.Foundation.Formatting
import DtCore.Foundation.Results

/-!
# Asking for the cursor position

`Term::GetCurPos` asks the terminal for the position of the cursor and stores what it reads
up to an `R`, which ends the reply, in a buffer of 128 bytes.

What `getchar` returns is an infinite sequence, in which `none` is `EOF`.  The bytes of the
buffer that are not written hold anything, and the run of the loop records the indices that
it writes to.  For `sscanf` a number that an `int` does not hold is undefined behaviour;
here it is the number itself.

Main definitions:

- `Loop.pass`: one pass of the loop.
- `getCurPos`: the loop and `sscanf`, when the loop is left on the given results.
- `SafeOn`: the loop ends, writes into the buffer only and reads the reply.

Main results:

- Theorem `loop_notMem`, `loop_mem`: what the loop writes.
- Theorem `safeOn_iff`: the streams on which the function is safe.
-/

namespace DtCore
namespace Utils
namespace Terminal

open Foundation

/-! ## The loop -/

/-- What `getchar` returns; the end of the stream stays. -/
structure Stdin where
  next : Nat → Option UInt8
  ended : ∀ n, next n = none → next (n + 1) = none

/-- `sizeof(buff)`. -/
def buffLen : Nat := 128

/-- The local variables, and the indices of `buff` that have been written. -/
structure Loop where
  buff : Nat → UInt8
  indx : Nat
  writes : List Nat

def Loop.start (buff : Nat → UInt8) : Loop where
  buff := buff
  indx := 0
  writes := []

/-- An assignment to an element of `buff`. -/
def Loop.write (i : Nat) (b : UInt8) (s : Loop) : Loop :=
  { s with buff := Function.update s.buff i b, writes := s.writes ++ [i] }

/-- `(char)cc`. -/
def charOf (cc : Option UInt8) : UInt8 :=
  cc.getD 0xFF

/-- `buff[indx] = (char)cc; indx++;`. -/
def Loop.store (cc : Option UInt8) (s : Loop) : Loop :=
  { s.write s.indx (charOf cc) with indx := s.indx + 1 }

/-- The loop on the first results of `getchar`, and whether it is left on them. -/
def Loop.run : List (Option UInt8) → Loop → Loop × Bool
  | [], s => (s, false)
  | cc :: ccs, s =>
      let s := s.store cc
      if cc = some 'R'.toUInt8 then (s.write (s.indx + 1) 0, true) else Loop.run ccs s

/-! ## Reading the reply -/

/-- `'\x1b'`. -/
def esc : UInt8 := 0x1b

/-- The blanks of `isspace`. -/
def isSpace (b : UInt8) : Bool :=
  b = 32 || (9 ≤ b && b ≤ 13)

/-- `%d` of `sscanf`. -/
def scanInt (text : List UInt8) : Option (Int × List UInt8) :=
  let text := text.dropWhile isSpace
  let unsigned := if text.head? = some '-'.toUInt8 ∨ text.head? = some '+'.toUInt8 then text.tail
    else text
  let digits := unsigned.takeWhile isDigit
  if digits = [] then none
  else
    some (if text.head? = some '-'.toUInt8 then -(numeralValue 10 digits : Int)
      else numeralValue 10 digits, unsigned.dropWhile isDigit)

/-- A literal byte of the format. -/
def scanByte (b : UInt8) : List UInt8 → Option (List UInt8)
  | c :: rest => if c = b then some rest else none
  | [] => none

/-- `sscanf(buff, "\x1b[%d;%dR", row, col)`: the values behind the pointers afterwards. -/
def scanCurPos (text : List UInt8) (row col : Int) : Int × Int :=
  match ((scanByte esc text).bind (scanByte '['.toUInt8)).bind scanInt with
  | none => (row, col)
  | some (row', rest) =>
      match (scanByte ';'.toUInt8 rest).bind scanInt with
      | none => (row', col)
      | some (col', _) => (row', col')

/-- The string in `buff`. -/
def buffText (buff : Nat → UInt8) : List UInt8 :=
  ((List.range buffLen).map buff).takeWhile (fun b => b ≠ 0)

/-- `GetCurPos`, unless the loop is not left on the given results. -/
def getCurPos (ccs : List (Option UInt8)) (buff : Nat → UInt8) (row col : Int) :
    Option (Int × Int) :=
  if ((Loop.start buff).run ccs).2 then
    some (scanCurPos (buffText ((Loop.start buff).run ccs).1.buff) row col)
  else none

/-- The reply of a terminal with some digits for row and column. -/
def reply (row col : List UInt8) : List UInt8 :=
  esc :: '['.toUInt8 :: (row ++ ';'.toUInt8 :: (col ++ ['R'.toUInt8]))

/-- A numeral for an `int`. -/
def Numeral (ds : List UInt8) : Prop :=
  ds ≠ [] ∧ (∀ b ∈ ds, isDigit b = true) ∧ numeralValue 10 ds < 2 ^ 31

/-- The function ends when there is an `R` or the stream ends, it writes into `buff` only,
and from a reply it reads row and column. -/
structure SafeOn (stdin : Stdin) : Prop where
  ends : (∃ n, stdin.next n = some 'R'.toUInt8 ∨ stdin.next n = none) →
    ∀ buff row col, ∃ n, (getCurPos (firstResults stdin.next n) buff row col).isSome
  inBounds : ∀ buff n, ∀ i ∈ ((Loop.start buff).run (firstResults stdin.next n)).1.writes,
    i < buffLen
  reads : ∀ rowText colText, Numeral rowText → Numeral colText →
    firstResults stdin.next (reply rowText colText).length =
      (reply rowText colText).map some →
    ∀ buff row col, ∃ n, getCurPos (firstResults stdin.next n) buff row col =
      some ((numeralValue 10 rowText : Int), (numeralValue 10 colText : Int))

/-! ## What the loop writes -/

/-- Some bytes from an index on. -/
def stored (buff : Nat → UInt8) : Nat → List UInt8 → Nat → UInt8
  | _, [] => buff
  | i, b :: bs => stored (Function.update buff i b) (i + 1) bs

theorem stored_of_lt {buff : Nat → UInt8} {i j : Nat} (h : j < i) (bs : List UInt8) :
    stored buff i bs j = buff j := by
  induction bs generalizing buff i with
  | nil => rfl
  | cons b bs ih =>
      unfold stored
      rw [ih (Nat.lt_succ_of_lt h), Function.update_of_ne (Nat.ne_of_lt h)]

theorem map_stored (buff : Nat → UInt8) (i : Nat) (bs : List UInt8) :
    (List.range' i bs.length).map (stored buff i bs) = bs := by
  induction bs generalizing buff i with
  | nil => rfl
  | cons b bs ih =>
      rw [List.length_cons, List.range'_succ, List.map_cons]
      unfold stored
      rw [stored_of_lt (Nat.lt_succ_self i), Function.update_self, ih]

/-- Without an `R` the loop stores everything it reads. -/
theorem loop_notMem {ccs : List (Option UInt8)} (h : some 'R'.toUInt8 ∉ ccs) (s : Loop) :
    s.run ccs =
      ({ buff := stored s.buff s.indx (ccs.map charOf)
         indx := s.indx + ccs.length
         writes := s.writes ++ List.range' s.indx ccs.length }, false) := by
  induction ccs generalizing s with
  | nil => simp [Loop.run, stored]
  | cons cc ccs ih =>
      rw [List.mem_cons, not_or] at h
      unfold Loop.run
      dsimp only
      rw [if_neg (fun heq => h.1 heq.symm), ih h.2]
      have hindx : s.indx + 1 + ccs.length = s.indx + (cc :: ccs).length := by
        rw [List.length_cons]
        omega
      have hwrites : s.writes ++ [s.indx] ++ List.range' (s.indx + 1) ccs.length =
          s.writes ++ List.range' s.indx (cc :: ccs).length := by
        rw [List.length_cons, List.range'_succ, List.append_assoc]
        rfl
      show (Loop.mk _ (s.indx + 1 + ccs.length)
        (s.writes ++ [s.indx] ++ List.range' (s.indx + 1) ccs.length), false) = _
      rw [hindx, hwrites]
      rfl

/-- The loop is left behind the first `R`, with a null one byte further on. -/
theorem loop_mem {front : List (Option UInt8)} (h : some 'R'.toUInt8 ∉ front)
    (rest : List (Option UInt8)) (s : Loop) :
    s.run (front ++ some 'R'.toUInt8 :: rest) =
      ({ buff := Function.update
          (stored s.buff s.indx (front.map charOf ++ ['R'.toUInt8])) (s.indx + front.length + 2) 0
         indx := s.indx + front.length + 1
         writes := s.writes ++ List.range' s.indx (front.length + 1) ++
          [s.indx + front.length + 2] }, true) := by
  induction front generalizing s with
  | nil =>
      unfold Loop.run
      dsimp only [List.nil_append]
      rw [if_pos rfl]
      rfl
  | cons cc front ih =>
      rw [List.mem_cons, not_or] at h
      rw [List.cons_append]
      unfold Loop.run
      dsimp only
      rw [if_neg (fun heq => h.1 heq.symm), ih h.2]
      have hindx : s.indx + 1 + front.length = s.indx + (cc :: front).length := by
        rw [List.length_cons]
        omega
      have hwrites : s.writes ++ [s.indx] ++ List.range' (s.indx + 1) (front.length + 1) =
          s.writes ++ List.range' s.indx ((cc :: front).length + 1) := by
        rw [List.length_cons, List.range'_succ (s := s.indx), List.append_assoc]
        rfl
      show (Loop.mk (Function.update (stored _ _ _) (s.indx + 1 + front.length + 2) 0)
        (s.indx + 1 + front.length + 1)
        (s.writes ++ [s.indx] ++ List.range' (s.indx + 1) (front.length + 1) ++
          [s.indx + 1 + front.length + 2]), true) = _
      rw [hindx, hwrites]
      rfl

/-! ## Streams -/

variable {stdin : Stdin}

/-- The first `R` of a stream. -/
theorem exists_first {k : Nat} (h : stdin.next k = some 'R'.toUInt8) :
    ∃ j ≤ k, stdin.next j = some 'R'.toUInt8 ∧
      some 'R'.toUInt8 ∉ firstResults stdin.next j := by
  induction k using Nat.strongRecOn with
  | ind k ih =>
      by_cases hmem : some 'R'.toUInt8 ∈ firstResults stdin.next k
      · rcases mem_firstResults.mp hmem with ⟨i, hi, hr⟩
        rcases ih i hi hr with ⟨j, hj, hfirst⟩
        exact ⟨j, Nat.le_trans hj (Nat.le_of_lt hi), hfirst⟩
      · exact ⟨k, Nat.le_refl k, h, hmem⟩

/-- Up to the first `R` and beyond. -/
theorem firstResults_of_first {j n : Nat} (h : stdin.next j = some 'R'.toUInt8) (hn : j < n) :
    ∃ rest, firstResults stdin.next n =
      firstResults stdin.next j ++ some 'R'.toUInt8 :: rest := by
  rcases Nat.exists_eq_add_of_lt hn with ⟨i, rfl⟩
  refine ⟨firstResults (fun k => stdin.next (j + 1 + k)) i, ?_⟩
  have hsum : j + i + 1 = j + 1 + i := by omega
  rw [hsum, firstResults_add, firstResults_succ, h, List.append_assoc]
  rfl

/-- The indices that the loop writes to on the first results. -/
theorem writes_of_notMem {n : Nat} (h : some 'R'.toUInt8 ∉ firstResults stdin.next n)
    (buff : Nat → UInt8) :
    ((Loop.start buff).run (firstResults stdin.next n)).1.writes = List.range n := by
  rw [loop_notMem h, length_firstResults, List.range_eq_range']
  rfl

/-- The loop stays inside the buffer when an `R` comes early enough for the null byte. -/
theorem inBounds_iff (stdin : Stdin) (buff : Nat → UInt8) :
    (∀ n, ∀ i ∈ ((Loop.start buff).run (firstResults stdin.next n)).1.writes, i < buffLen) ↔
      ∃ k ≤ 125, stdin.next k = some 'R'.toUInt8 := by
  constructor
  · intro hbounds
    by_contra hno
    -- the results up to the end of the buffer, or up to the first `R`
    by_cases hmem : some 'R'.toUInt8 ∈ firstResults stdin.next 129
    · rcases mem_firstResults.mp hmem with ⟨k, hk, hr⟩
      rcases exists_first hr with ⟨j, hj, hfirst, hfront⟩
      have hlate : 125 < j := by
        by_contra hle
        exact hno ⟨j, Nat.le_of_not_lt hle, hfirst⟩
      have hout := hbounds (j + 1) (j + 2)
      rw [firstResults_succ, hfirst, loop_mem hfront, length_firstResults] at hout
      have hlt := hout (by
        show j + 2 ∈ _ ++ [0 + j + 2]
        simp)
      unfold buffLen at hlt
      omega
    · have hout := hbounds 129 128
      rw [writes_of_notMem hmem] at hout
      exact absurd (hout (by simp)) (Nat.lt_irrefl _)
  · rintro ⟨k, hk, hr⟩ n i hi
    rcases exists_first hr with ⟨j, hj, hfirst, hfront⟩
    by_cases hn : n ≤ j
    · have hnot : some 'R'.toUInt8 ∉ firstResults stdin.next n := by
        intro hmem
        rcases mem_firstResults.mp hmem with ⟨m, hm, hrm⟩
        exact hfront (mem_firstResults.mpr ⟨m, Nat.lt_of_lt_of_le hm hn, hrm⟩)
      rw [writes_of_notMem hnot, List.mem_range] at hi
      unfold buffLen
      omega
    · rcases firstResults_of_first hfirst (Nat.lt_of_not_le hn) with ⟨rest, hrest⟩
      rw [hrest, loop_mem hfront, length_firstResults] at hi
      have hcases : i ∈ List.range' 0 (j + 1) ∨ i = 0 + j + 2 := by
        simpa [Loop.start] using hi
      unfold buffLen
      rcases hcases with hmem | heq
      · rw [← List.range_eq_range', List.mem_range] at hmem
        omega
      · omega

/-! ## Reading the reply back -/

/-- A byte of a numeral is no blank, no sign, no null and no `R`. -/
theorem isDigit_facts {b : UInt8} (h : isDigit b = true) :
    isSpace b = false ∧ b ≠ '-'.toUInt8 ∧ b ≠ '+'.toUInt8 ∧ b ≠ 0 ∧ b ≠ 'R'.toUInt8 := by
  unfold isDigit at h
  rw [Bool.and_eq_true, decide_eq_true_eq, decide_eq_true_eq] at h
  have hlow : 48 ≤ b.toNat := UInt8.le_iff_toNat_le.mp h.1
  have hhigh : b.toNat ≤ 57 := UInt8.le_iff_toNat_le.mp h.2
  have hne : ∀ c : UInt8, (c.toNat < 48 ∨ 57 < c.toNat) → b ≠ c := by
    rintro c hc rfl
    omega
  refine ⟨?_, hne _ (by decide), hne _ (by decide), hne _ (by decide), hne _ (by decide)⟩
  have hbig : ¬ b ≤ 13 := by
    intro hle
    have hnat : b.toNat ≤ 13 := UInt8.le_iff_toNat_le.mp hle
    omega
  unfold isSpace
  simp [hne 32 (by decide), hbig]

/-- `%d` reads a numeral up to the byte behind it. -/
theorem scanInt_append {ds : List UInt8} (hne : ds ≠ [])
    (hdigits : ∀ b ∈ ds, isDigit b = true) {stop : UInt8} (hstop : isDigit stop = false)
    (rest : List UInt8) :
    scanInt (ds ++ stop :: rest) = some ((numeralValue 10 ds : Int), stop :: rest) := by
  have hwhile : (ds ++ stop :: rest).takeWhile isDigit = ds := by
    rw [List.takeWhile_append_of_pos hdigits]
    simp [hstop]
  have hrest : (ds ++ stop :: rest).dropWhile isDigit = stop :: rest := by
    rw [List.dropWhile_append_of_pos hdigits]
    simp [hstop]
  cases ds with
  | nil => exact absurd rfl hne
  | cons d ds =>
      rcases isDigit_facts (hdigits d List.mem_cons_self) with ⟨hspace, hminus, hplus, -, -⟩
      have hblanks : (d :: ds ++ stop :: rest).dropWhile isSpace = d :: ds ++ stop :: rest := by
        rw [List.cons_append, List.dropWhile_cons_of_neg]
        rw [hspace]
        exact Bool.false_ne_true
      have hhead : (d :: ds ++ stop :: rest).head? = some d := rfl
      have hm : some d ≠ some '-'.toUInt8 := fun heq => hminus (Option.some.inj heq)
      have hp : some d ≠ some '+'.toUInt8 := fun heq => hplus (Option.some.inj heq)
      unfold scanInt
      dsimp only
      rw [hblanks, hhead, if_neg (not_or.mpr ⟨hm, hp⟩), hwhile, hrest, if_neg hne, if_neg hm]

/-- The values behind the pointers after a reply. -/
theorem scanCurPos_reply {rowText colText : List UInt8} (hrow : Numeral rowText)
    (hcol : Numeral colText) (rest : List UInt8) (row col : Int) :
    scanCurPos (reply rowText colText ++ rest) row col =
      ((numeralValue 10 rowText : Int), (numeralValue 10 colText : Int)) := by
  have htext : reply rowText colText ++ rest =
      esc :: '['.toUInt8 :: (rowText ++ ';'.toUInt8 :: (colText ++ 'R'.toUInt8 :: rest)) := by
    simp [reply]
  have hfirst : ((scanByte esc (reply rowText colText ++ rest)).bind
        (scanByte '['.toUInt8)).bind scanInt =
      some ((numeralValue 10 rowText : Int),
        ';'.toUInt8 :: (colText ++ 'R'.toUInt8 :: rest)) := by
    rw [htext]
    exact @scanInt_append _ hrow.1 hrow.2.1 ';'.toUInt8 rfl _
  have hsecond : (scanByte ';'.toUInt8 (';'.toUInt8 :: (colText ++ 'R'.toUInt8 :: rest))).bind
        scanInt =
      some ((numeralValue 10 colText : Int), 'R'.toUInt8 :: rest) :=
    @scanInt_append _ hcol.1 hcol.2.1 'R'.toUInt8 rfl _
  unfold scanCurPos
  rw [hfirst]
  dsimp only
  rw [hsecond]

/-- The reply up to the `R` that ends it. -/
def replyFront (row col : List UInt8) : List UInt8 :=
  esc :: '['.toUInt8 :: (row ++ ';'.toUInt8 :: col)

theorem reply_eq (row col : List UInt8) :
    reply row col = replyFront row col ++ ['R'.toUInt8] := by
  simp [reply, replyFront]

/-- The reply holds no null, and before its end no `R`. -/
theorem replyFront_facts {rowText colText : List UInt8} (hrow : Numeral rowText)
    (hcol : Numeral colText) {b : UInt8} (h : b ∈ replyFront rowText colText) :
    b ≠ 0 ∧ b ≠ 'R'.toUInt8 := by
  unfold replyFront at h
  rw [List.mem_cons, List.mem_cons, List.mem_append, List.mem_cons] at h
  rcases h with rfl | rfl | hmem | rfl | hmem
  · exact ⟨by decide, by decide⟩
  · exact ⟨by decide, by decide⟩
  · exact (isDigit_facts (hrow.2.1 b hmem)).2.2.2
  · exact ⟨by decide, by decide⟩
  · exact (isDigit_facts (hcol.2.1 b hmem)).2.2.2

/-- The string in the buffer begins with the bytes stored at its front. -/
theorem buffText_stored (buff : Nat → UInt8) {bs : List UInt8} (hzero : ∀ b ∈ bs, b ≠ 0)
    {i : Nat} (hi : bs.length ≤ i) (hlen : bs.length ≤ buffLen) :
    ∃ rest, buffText (Function.update (stored buff 0 bs) i 0) = bs ++ rest := by
  have hfront : (List.range bs.length).map (Function.update (stored buff 0 bs) i 0) = bs := by
    have hsame : (List.range bs.length).map (Function.update (stored buff 0 bs) i 0) =
        (List.range bs.length).map (stored buff 0 bs) := by
      refine List.map_congr_left ?_
      intro j hj
      exact Function.update_of_ne
        (Nat.ne_of_lt (Nat.lt_of_lt_of_le (List.mem_range.mp hj) hi)) _ _
    rw [hsame, List.range_eq_range']
    exact map_stored buff 0 bs
  rcases Nat.exists_eq_add_of_le hlen with ⟨more, hmore⟩
  refine ⟨?_, ?_⟩
  · exact (((List.range more).map (fun j => bs.length + j)).map
      (Function.update (stored buff 0 bs) i 0)).takeWhile (fun b => b ≠ 0)
  · unfold buffText
    rw [hmore, List.range_add, List.map_append, hfront, List.takeWhile_append_of_pos]
    intro b hb
    exact decide_eq_true (hzero b hb)

/-- From a reply that leaves room for the null byte, row and column are read. -/
theorem getCurPos_reply {rowText colText : List UInt8} (hrow : Numeral rowText)
    (hcol : Numeral colText) (hlen : (reply rowText colText).length ≤ 126)
    (buff : Nat → UInt8) (row col : Int) :
    getCurPos ((reply rowText colText).map some) buff row col =
      some ((numeralValue 10 rowText : Int), (numeralValue 10 colText : Int)) := by
  have hsplit : (reply rowText colText).map some =
      (replyFront rowText colText).map some ++ some 'R'.toUInt8 :: [] := by
    rw [reply_eq, List.map_append]
    rfl
  have hfront : some 'R'.toUInt8 ∉ (replyFront rowText colText).map some := by
    rw [List.mem_map]
    rintro ⟨b, hb, heq⟩
    exact (replyFront_facts hrow hcol hb).2 (Option.some.inj heq)
  have hchars : ((replyFront rowText colText).map some).map charOf ++ ['R'.toUInt8] =
      reply rowText colText := by
    rw [List.map_map, reply_eq]
    congr 1
    exact List.map_id _
  have hzero : ∀ b ∈ reply rowText colText, b ≠ 0 := by
    intro b hb
    rw [reply_eq, List.mem_append, List.mem_singleton] at hb
    rcases hb with hmem | rfl
    · exact (replyFront_facts hrow hcol hmem).1
    · decide
  have hlength : (reply rowText colText).length = (replyFront rowText colText).length + 1 := by
    rw [reply_eq, List.length_append, List.length_singleton]
  have hrun : ((Loop.start buff).run ((reply rowText colText).map some)).2 = true := by
    rw [hsplit, loop_mem hfront]
  have hbuff : ((Loop.start buff).run ((reply rowText colText).map some)).1.buff =
      Function.update (stored buff 0 (reply rowText colText))
        (0 + ((replyFront rowText colText).map some).length + 2) 0 := by
    rw [hsplit, loop_mem hfront, hchars]
    rfl
  have hnull : (reply rowText colText).length ≤
      0 + ((replyFront rowText colText).map some).length + 2 := by
    rw [List.length_map]
    omega
  rcases buffText_stored buff hzero hnull (by unfold buffLen; omega) with ⟨rest, htext⟩
  unfold getCurPos
  rw [if_pos hrun, hbuff, htext, scanCurPos_reply hrow hcol]

/-! ## Safety -/

/-- Once there is an `R` the loop is left. -/
theorem isSome_of_mem {k : Nat} (h : stdin.next k = some 'R'.toUInt8) (buff : Nat → UInt8)
    (row col : Int) : ∃ n, (getCurPos (firstResults stdin.next n) buff row col).isSome := by
  rcases exists_first h with ⟨j, -, hfirst, hfront⟩
  refine ⟨j + 1, ?_⟩
  unfold getCurPos
  rw [firstResults_succ, hfirst, if_pos (by rw [loop_mem hfront])]
  rfl

/-- A reply ends at the first `R` of the stream. -/
theorem length_le_of_reply {rowText colText : List UInt8} (hrow : Numeral rowText)
    (hcol : Numeral colText)
    (hstream : firstResults stdin.next (reply rowText colText).length =
      (reply rowText colText).map some)
    {k : Nat} (hk : stdin.next k = some 'R'.toUInt8) :
    (reply rowText colText).length ≤ k + 1 := by
  by_contra hlong
  have hlength : (reply rowText colText).length = (replyFront rowText colText).length + 1 := by
    rw [reply_eq, List.length_append, List.length_singleton]
  have hmem : some 'R'.toUInt8 ∈
      firstResults stdin.next (replyFront rowText colText).length :=
    mem_firstResults.mpr ⟨k, by omega, hk⟩
  have hfront : firstResults stdin.next (replyFront rowText colText).length =
      (replyFront rowText colText).map some := by
    rw [hlength, firstResults_succ, reply_eq, List.map_append, List.map_singleton] at hstream
    exact (List.append_inj' hstream rfl).1
  rw [hfront, List.mem_map] at hmem
  rcases hmem with ⟨b, hb, heq⟩
  exact (replyFront_facts hrow hcol hb).2 (Option.some.inj heq)

/-- The function is safe on the streams with an `R` among the first 126 bytes. -/
theorem safeOn_iff (stdin : Stdin) :
    SafeOn stdin ↔ ∃ k ≤ 125, stdin.next k = some 'R'.toUInt8 := by
  constructor
  · intro hsafe
    exact (inBounds_iff stdin (fun _ => 0)).mp (hsafe.inBounds (fun _ => 0))
  · rintro ⟨k, hk, hr⟩
    refine ⟨?_, ?_, ?_⟩
    · intro _ buff row col
      exact isSome_of_mem hr buff row col
    · intro buff
      exact (inBounds_iff stdin buff).mpr ⟨k, hk, hr⟩
    · intro rowText colText hrow hcol hstream buff row col
      have hlen := length_le_of_reply hrow hcol hstream hr
      refine ⟨(reply rowText colText).length, ?_⟩
      rw [hstream]
      exact getCurPos_reply hrow hcol (by omega) buff row col

/-- A stream that is at its end. -/
def atEnd : Stdin where
  next _ := none
  ended _ _ := rfl

/-- At the end of the stream the loop goes on, and out of the buffer. -/
theorem safeOn_atEnd_false :
    ¬ SafeOn atEnd ∧
      (∀ n buff row col, getCurPos (firstResults atEnd.next n) buff row col = none) ∧
      128 ∈ ((Loop.start (fun _ => 0)).run (firstResults atEnd.next 129)).1.writes := by
  have hnone : ∀ n, some 'R'.toUInt8 ∉ firstResults atEnd.next n := by
    intro n hmem
    rcases mem_firstResults.mp hmem with ⟨k, -, hk⟩
    cases hk
  have hnever : ∀ n buff row col,
      getCurPos (firstResults atEnd.next n) buff row col = none := by
    intro n buff row col
    unfold getCurPos
    rw [loop_notMem (hnone n)]
    rfl
  refine ⟨?_, hnever, ?_⟩
  · intro hsafe
    rcases hsafe.ends ⟨0, .inr rfl⟩ (fun _ => 0) 0 0 with ⟨n, hn⟩
    rw [hnever] at hn
    cases hn
  · rw [writes_of_notMem (hnone 129), List.mem_range]
    omega

end Terminal
end Utils
end DtCore
