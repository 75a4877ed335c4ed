import DtCore.Log.RtLog.Stream

/-!
# Stream manipulators

`LogRtStream` keeps the base, the width and the fill of its integers and hands them to
`snprintf`.  An output stream pads whatever is inserted next, strings and characters as
well, and its width holds for that one insertion; in `LogRtStream` only integers look at
the width and use it up.

Main definitions:

- `StreamItem`: an insertion of both streams.
- `Flags`: the manipulators that are in force in the two streams.
- `Agree`: after every insertion both streams hold the same text.
- `Alike`: the items that both streams insert in the same way.

Main results:

- Theorem `snprintf_stateFormat`: what `FormatIntState` writes.
- Theorem `insert_integer`: what an integer adds to the buffer.
- Theorem `agree_iff`: the texts are the same as long as the items are alike.
-/

namespace DtCore
namespace Log
namespace RtLog

open Foundation

/-! ## The format of an integer -/

theorem digitByte_eq {d : Nat} (h : d < 10) : digitByte d = d.digitChar.toUInt8 := by
  interval_cases d <;> rfl

/-- Up to three digits the width is written as a numeral. -/
theorem widthDigits_eq {w : Nat} (h : w ≤ 999) :
    widthDigits w = if w = 0 then [] else numeral 10 w := by
  by_cases hhundred : 100 ≤ w
  · have hge : (w : Int) ≥ 100 := by omega
    have hfirst : w / 10 / 10 < 10 := by omega
    have hdiv : (w : Int) / 100 = ((w / 10 / 10 : Nat) : Int) := by omega
    have hmid : (w : Int) % 100 / 10 = ((w / 10 % 10 : Nat) : Int) := by omega
    have hlast : (w : Int) % 10 = ((w % 10 : Nat) : Int) := by omega
    unfold widthDigits
    rw [if_pos hge, if_neg (by omega), numeral_eq (by decide), if_neg (by omega),
      numeral_eq (by decide), if_neg (by omega), numeral_eq (by decide), if_pos hfirst, hdiv, hmid,
      hlast, digitByte_eq hfirst, digitByte_eq (Nat.mod_lt _ (by decide)),
      digitByte_eq (Nat.mod_lt _ (by decide))]
    rfl
  · by_cases hten : 10 ≤ w
    · have hge : (w : Int) ≥ 10 := by omega
      have hfirst : w / 10 < 10 := by omega
      have hdiv : (w : Int) / 10 = ((w / 10 : Nat) : Int) := by omega
      have hlast : (w : Int) % 10 = ((w % 10 : Nat) : Int) := by omega
      unfold widthDigits
      rw [if_neg (by omega), if_pos hge, if_neg (by omega), numeral_eq (by decide),
        if_neg (by omega), numeral_eq (by decide), if_pos hfirst, hdiv, hlast,
        digitByte_eq hfirst, digitByte_eq (Nat.mod_lt _ (by decide))]
      rfl
    · by_cases hzero : w = 0
      · rw [hzero]
        rfl
      · unfold widthDigits
        rw [if_neg (by omega), if_neg (by omega), if_pos (by omega), if_neg hzero,
          numeral_eq (by decide), if_pos (by omega), digitByte_eq (by omega)]

theorem numeralValue_widthDigits {w : Nat} (h : w ≤ 999) :
    numeralValue 10 (widthDigits w) = w := by
  rw [widthDigits_eq h]
  split
  · rename_i hzero
    rw [hzero]
    rfl
  · exact numeralValue_numeral (by decide) (by decide) w

theorem isDigit_of_mem_widthDigits {w : Nat} (h : w ≤ 999) {b : UInt8}
    (hb : b ∈ widthDigits w) : isDigit b = true := by
  rw [widthDigits_eq h] at hb
  split at hb
  · contradiction
  · exact isDigit_of_mem_numeral hb

theorem head_widthDigits {w : Nat} (h : w ≤ 999) :
    (widthDigits w).head? ≠ some '0'.toUInt8 := by
  rw [widthDigits_eq h]
  split
  · intro hhead
    contradiction
  · rename_i hzero
    exact head_numeral (by decide) (by decide) (Nat.pos_of_ne_zero hzero)

/-- The parts of the format. -/
theorem stateFormat_eq (w : Nat) (zeros hex signed : Bool) :
    stateFormat hex w (fillByte zeros) signed =
      '%'.toUInt8 :: ((if (decide (0 < w) && zeros) = true then ['0'.toUInt8] else []) ++
        (widthDigits w ++ ['l'.toUInt8, 'l'.toUInt8, (convOf hex signed).letter])) := by
  have hletter : (if hex then 'X'.toUInt8 else if signed then 'd'.toUInt8 else 'u'.toUInt8) =
      (convOf hex signed).letter := by
    cases hex with
    | true => rfl
    | false => cases signed <;> rfl
  have hflag : ((w : Int) > 0 ∧ fillByte zeros = '0'.toUInt8) ↔
      (decide (0 < w) && zeros) = true := by
    cases zeros with
    | true => simp [fillByte]
    | false =>
        have hspace : ¬ ' '.toUInt8 = '0'.toUInt8 := by decide
        simp [fillByte, hspace]
  unfold stateFormat
  rw [hletter]
  simp only [hflag]

/-- What `snprintf` makes of the format that `FormatIntState` builds. -/
theorem snprintf_stateFormat {w : Nat} (h : w ≤ 999) (zeros hex signed : Bool)
    (val : BitVec 64) :
    snprintf (stateFormat hex w (fillByte zeros) signed) val =
      some (printed zeros w hex signed val) := by
  unfold snprintf
  rw [stateFormat_eq, parseFormat_append _ (fun b hb => isDigit_of_mem_widthDigits h hb)
    (head_widthDigits h), numeralValue_widthDigits h]
  rfl

/-! ## Insertions into both streams -/

/-- The values and the manipulators of both streams; a width has at most three digits. -/
inductive StreamItem where
  | int (val : BitVec 32)
  | longLong (val : BitVec 64)
  | unsignedLongLong (val : BitVec 64)
  | cString (str : List UInt8)
  | string (str : List UInt8)
  | char (c : UInt8)
  | hex
  | dec
  | setw (n : Nat) (hn : n ≤ 999)
  | setfill (zeros : Bool)

/-- The overload of `LogRtStream` that takes an item; up to three digits of width the
format of an integer is known. -/
def StreamItem.insertion : StreamItem → Insertion
  | .int val => .value (.signed (val.signExtend 64) .error)
  | .longLong val => .value (.signed val .error)
  | .unsignedLongLong val => .value (.unsigned val .error)
  | .cString str => .cString (some str)
  | .string str => .string str
  | .char c => .char c
  | .hex => .hex
  | .dec => .dec
  | .setw n _ => .setw n
  | .setfill zeros => .setfill (fillByte zeros)

/-- The insertion of an item into an output stream. -/
def StreamItem.put (o : OStream) : StreamItem → OStream
  | .int val => o.insert (OStream.integer o.hex true val)
  | .longLong val => o.insert (OStream.integer o.hex true val)
  | .unsignedLongLong val => o.insert (OStream.integer o.hex false val)
  | .cString str => o.insert (RtLog.cString str)
  | .string str => o.insert str
  | .char c => o.insert [c]
  | .hex => { o with hex := true }
  | .dec => { o with hex := false }
  | .setw n _ => { o with width := n }
  | .setfill zeros => { o with fill := fillByte zeros }

/-- Items inserted one after the other. -/
def RtStream.insertAll (s : RtStream) (items : List StreamItem) : RtStream :=
  items.foldl (fun s item => s.insert item.insertion) s

def putAll (o : OStream) (items : List StreamItem) : OStream :=
  items.foldl StreamItem.put o

/-- Both streams hold the same text, up to the case of hexadecimal digits. -/
def SameText (s : RtStream) (o : OStream) : Prop :=
  s.buf.map foldCase = o.text.map foldCase

/-- They hold the same text after every insertion. -/
def Agree (s : RtStream) (o : OStream) (items : List StreamItem) : Prop :=
  ∀ front, front <+: items → SameText (s.insertAll front) (putAll o front)

/-! ## Flags -/

/-- The manipulators in force: the base, the fill, the width that `LogRtStream` keeps for
the next integer, and the width that an output stream has left. -/
structure Flags where
  hex : Bool
  zeros : Bool
  width : Nat
  pending : Nat

def Flags.init : Flags where
  hex := false
  zeros := false
  width := 0
  pending := 0

/-- An integer uses up both widths, and any other value that of the output stream. -/
def Flags.step (f : Flags) : StreamItem → Flags
  | .int _ => { f with width := 0, pending := 0 }
  | .longLong _ => { f with width := 0, pending := 0 }
  | .unsignedLongLong _ => { f with width := 0, pending := 0 }
  | .cString _ => { f with pending := 0 }
  | .string _ => { f with pending := 0 }
  | .char _ => { f with pending := 0 }
  | .hex => { f with hex := true }
  | .dec => { f with hex := false }
  | .setw n _ => { f with width := n, pending := n }
  | .setfill zeros => { f with zeros := zeros }

/-- An integer fills the width, or both streams have the same width and no sign goes in
front of zeros. -/
def Flags.AlikeInteger (f : Flags) (signed : Bool) {w : Nat} (val : BitVec w) : Prop :=
  f.width ≤ (OStream.integer f.hex signed val).length ∨
    f.pending = f.width ∧ ¬ (f.zeros = true ∧ f.hex = false ∧ signed = true ∧ val.msb = true)

/-- Both streams insert an item in the same way. -/
def Flags.AlikeItem (f : Flags) : StreamItem → Prop
  | .int val => ¬ (f.hex = true ∧ val.msb = true) ∧ f.AlikeInteger true val
  | .longLong val => f.AlikeInteger true val
  | .unsignedLongLong val => f.AlikeInteger false val
  | .cString str => f.pending ≤ (RtLog.cString str).length
  | .string str => f.pending ≤ str.length
  | .char _ => f.pending ≤ 1
  | .hex => True
  | .dec => True
  | .setw _ _ => True
  | .setfill _ => True

/-- They insert all items in the same way. -/
def Alike : Flags → List StreamItem → Prop
  | _, [] => True
  | f, item :: items => f.AlikeItem item ∧ Alike (f.step item) items

/-- The members of both streams that hold the flags. -/
structure InForce (f : Flags) (s : RtStream) (o : OStream) : Prop where
  active : s.active = true
  hexMode : s.hexMode = f.hex
  fillChar : s.fillChar = fillByte f.zeros
  width : s.width = f.width
  hex : o.hex = f.hex
  fill : o.fill = fillByte f.zeros
  pending : o.width = f.pending
  digits : f.width ≤ 999
  used : f.pending = f.width ∨ f.pending = 0

/-! ## Integers -/

/-- What `AddTruncation` adds. -/
def dots : List UInt8 :=
  ['.'.toUInt8, '.'.toUInt8, '.'.toUInt8]

/-- What `FormatElement` adds for an integer. -/
def integerText (f : Flags) (signed : Bool) (val : BitVec 64) (room : Nat) : List UInt8 :=
  let text := printed f.zeros f.width f.hex signed val
  if text.length < room then text else dots

/-- The limit of the texts that are compared; behind it integers become dots. -/
def textLimit : Nat := 1013

/-- Below the limit `FormatElement` does not refuse an integer. -/
theorem room_of_limit {n : Nat} (h : n < textLimit) : n + 10 < rtMsgLen := by
  unfold textLimit at h
  unfold rtMsgLen
  omega

theorem printElement_integer {f : Flags} {s : RtStream} {o : OStream} (h : InForce f s o)
    (signed : Bool) (val : BitVec 64) :
    s.printElement (if signed then .signed val .error else .unsigned val .error) =
      (some (printed f.zeros f.width f.hex signed val), { s with width := 0 }) := by
  have hformat : s.formatIntState .error val signed =
      (some (printed f.zeros f.width f.hex signed val), { s with width := 0 }) := by
    unfold RtStream.formatIntState
    rw [h.hexMode, h.fillChar, h.width, snprintf_stateFormat h.digits]
    rfl
  cases signed with
  | true => exact hformat
  | false => exact hformat

/-- Elements are written when `snprintf` writes less than there is room for. -/
theorem formatElement_of_print {e : Element} {s t : RtStream} {text : List UInt8}
    (hroom : s.buf.length + 10 < rtMsgLen) (h : s.printElement e = (some text, t)) :
    s.formatElement e =
      if text.length < rtMsgLen - s.buf.length then (true, t.push text) else (false, t) := by
  unfold RtStream.formatElement
  rw [if_neg (Nat.not_le_of_lt hroom), h]
  dsimp only
  by_cases hfits : text.length < rtMsgLen - s.buf.length
  · rw [if_pos hfits, if_neg (Nat.not_le_of_lt hfits)]
  · rw [if_neg hfits, if_pos (Nat.le_of_not_lt hfits)]

/-- An integer below the limit is written or becomes dots. -/
theorem insert_integer {f : Flags} {s : RtStream} {o : OStream} (h : InForce f s o)
    (hlen : s.buf.length < textLimit) (signed : Bool) (val : BitVec 64) :
    s.insert (.value (if signed then .signed val .error else .unsigned val .error)) =
      { s with
        width := 0
        buf := s.buf ++ integerText f signed val (rtMsgLen - s.buf.length) } := by
  have hroom := room_of_limit hlen
  have hformat := formatElement_of_print hroom (printElement_integer h signed val)
  unfold RtStream.insert RtStream.inserted integerText
  dsimp only
  rw [if_pos h.active, hformat]
  split
  · rfl
  · have hdots : s.buf.length + 3 < rtMsgLen := by omega
    show RtStream.addTruncation { s with width := 0 } = _
    unfold RtStream.addTruncation
    exact if_pos hdots

theorem length_of_sameText {s : RtStream} {o : OStream} (h : SameText s o) :
    s.buf.length = o.text.length := by
  have hlen := congrArg List.length h
  rw [List.length_map, List.length_map] at hlen
  exact hlen

/-- Texts behind the same text. -/
theorem sameText_append {s : RtStream} {o : OStream} (h : SameText s o) {s' : RtStream}
    {o' : OStream} {text item : List UInt8} (hs : s'.buf = s.buf ++ text)
    (ho : o'.text = o.text ++ item) :
    SameText s' o' ↔ text.map foldCase = item.map foldCase := by
  unfold SameText
  rw [hs, ho, List.map_append, List.map_append, show s.buf.map foldCase = _ from h,
    List.append_cancel_left_eq]

/-- No integer of a stream holds a dot. -/
theorem dot_notMem_integer {w : Nat} (hex signed zeros : Bool) (pending : Nat) (val : BitVec w) :
    '.'.toUInt8 ∉ ((OStream.integer hex signed val).leftpad pending (fillByte zeros)).map
      foldCase := by
  have hdigits : ∀ {base : Nat}, 1 < base → base ≤ 16 → ∀ n, ∀ b ∈ numeral base n,
      foldCase b ≠ '.'.toUInt8 := by
    intro base hbase hle n b hb
    have hdot : ∀ d < 16, foldCase d.digitChar.toUInt8 ≠ '.'.toUInt8 := by decide
    rcases digit_of_mem_numeral hbase hle hb with ⟨d, hd, hbd⟩
    rw [hbd]
    exact hdot d (Nat.lt_of_lt_of_le hd hle)
  have hinteger : ∀ b ∈ OStream.integer hex signed val, foldCase b ≠ '.'.toUInt8 := by
    intro b hb
    unfold OStream.integer at hb
    split at hb
    · exact hdigits (by decide) (by decide) _ b hb
    · split at hb
      · rcases List.mem_append.mp hb with hsign | hdigit
        · unfold signOf at hsign
          split at hsign
          · rw [List.mem_singleton.mp hsign]
            decide
          · contradiction
        · exact hdigits (by decide) (by decide) _ b hdigit
      · exact hdigits (by decide) (by decide) _ b hb
  have hfill : foldCase (fillByte zeros) ≠ '.'.toUInt8 := by
    cases zeros with
    | false => decide
    | true => decide
  intro hmem
  rcases List.mem_map.mp hmem with ⟨b, hb, hdot⟩
  unfold List.leftpad at hb
  rcases List.mem_append.mp hb with hpad | hb
  · rw [List.eq_of_mem_replicate hpad] at hdot
    exact hfill hdot
  · exact hinteger b hb hdot

theorem dots_ne_integer {w : Nat} (hex signed zeros : Bool) (pending : Nat) (val : BitVec w) :
    dots.map foldCase ≠
      ((OStream.integer hex signed val).leftpad pending (fillByte zeros)).map foldCase := by
  intro heq
  have hdot : '.'.toUInt8 ∈ dots.map foldCase := by decide
  rw [heq] at hdot
  exact dot_notMem_integer hex signed zeros pending val hdot

theorem map_foldCase_padded {w : Nat} (hex signed zeros : Bool) (pending : Nat)
    (val : BitVec w) :
    ((OStream.integer hex signed val).leftpad pending (fillByte zeros)).map foldCase =
      (OStream.integer hex signed val).leftpad pending (fillByte zeros) := by
  rw [map_foldCase_leftpad (foldCase_fillByte zeros), map_foldCase_integer]

/-- An integer of 64 bits, when the text of the output stream stays below the limit. -/
theorem integerText_eq_iff {f : Flags} (hused : f.pending = f.width ∨ f.pending = 0)
    (signed : Bool) (val : BitVec 64) {n : Nat}
    (hlen : n + max f.pending (OStream.integer f.hex signed val).length < textLimit) :
    (integerText f signed val (rtMsgLen - n)).map foldCase =
        ((OStream.integer f.hex signed val).leftpad f.pending (fillByte f.zeros)).map foldCase ↔
      f.AlikeInteger signed val := by
  have hlimit := room_of_limit hlen
  unfold integerText Flags.AlikeInteger
  dsimp only
  split
  · rw [map_foldCase_padded]
    exact printed_eq_iff hused
  · rename_i hroom
    apply iff_of_false (dots_ne_integer _ _ _ _ _)
    -- The width alone is too large, and the output stream does not have it any more.
    have hprinted : (printed f.zeros f.width f.hex signed val).length =
        max f.width (OStream.integer f.hex signed val).length := by
      unfold printed
      rw [length_print, length_plain]
    rw [hprinted] at hroom
    rintro (hfills | ⟨hpending, _⟩)
    · omega
    · omega

/-- An `int` is handed on as a `long long`. -/
theorem alike_int_iff {f : Flags} (hused : f.pending = f.width ∨ f.pending = 0)
    (val : BitVec 32) {n : Nat}
    (hlen : n + max f.pending (OStream.integer f.hex true val).length < textLimit) :
    (integerText f true (val.signExtend 64) (rtMsgLen - n)).map foldCase =
        ((OStream.integer f.hex true val).leftpad f.pending (fillByte f.zeros)).map foldCase ↔
      f.AlikeItem (.int val) := by
  by_cases hnegative : f.hex = true ∧ val.msb = true
  · apply iff_of_false _ (fun h => h.1 hnegative)
    unfold integerText
    dsimp only
    split
    · rw [map_foldCase_padded, hnegative.1]
      exact printed_signExtend hnegative.2
    · exact dots_ne_integer _ _ _ _ _
  · have hsame := integer_signExtend hnegative
    have hmsb : (val.signExtend 64).msb = val.msb := by
      rw [BitVec.msb_signExtend]
      rfl
    have halike : f.AlikeInteger true (val.signExtend 64) ↔ f.AlikeInteger true val := by
      unfold Flags.AlikeInteger
      rw [hsame, hmsb]
    rw [← hsame] at hlen ⊢
    rw [integerText_eq_iff hused true _ hlen, halike]
    exact (and_iff_right hnegative).symm

/-! ## One item -/

/-- A string is alike when it fills the width of the output stream. -/
theorem text_eq_iff {text : List UInt8} {pending room : Nat} {fill : UInt8}
    (hlen : text.length ≤ room) :
    (text.take room).map foldCase = (text.leftpad pending fill).map foldCase ↔
      pending ≤ text.length := by
  rw [List.take_of_length_le hlen]
  constructor
  · intro heq
    have hlength := congrArg List.length heq
    rw [List.length_map, List.length_map, List.length_leftpad] at hlength
    omega
  · intro hfills
    rw [leftpad_of_length_le hfills]

theorem insert_active {s : RtStream} (h : s.active = true) (v : Insertion) :
    s.insert v = s.inserted v :=
  if_pos h

theorem text_insert {f : Flags} {s : RtStream} {o : OStream} (h : InForce f s o)
    (item : List UInt8) :
    (o.insert item).text = o.text ++ item.leftpad f.pending (fillByte f.zeros) := by
  rw [← h.pending, ← h.fill]
  rfl

/-- A text below the limit is added as it is. -/
theorem sameText_string {f : Flags} {s s' : RtStream} {o : OStream} (h : InForce f s o)
    (hsame : SameText s o) {str : List UInt8}
    (hs : s'.buf = s.buf ++ str.take (rtMsgLen - 1 - s.buf.length))
    (hlen : (o.insert str).text.length < textLimit) :
    SameText s' (o.insert str) ↔ f.pending ≤ str.length := by
  have hbuf := length_of_sameText hsame
  rw [text_insert h, List.length_append, List.length_leftpad] at hlen
  rw [sameText_append hsame hs (text_insert h str)]
  apply text_eq_iff
  have hroom := room_of_limit hlen
  omega

/-- An integer below the limit is written or becomes dots. -/
theorem sameText_integer {f : Flags} {s : RtStream} {o : OStream} (h : InForce f s o)
    (hsame : SameText s o) (hlen : o.text.length < textLimit) (signed : Bool) (val : BitVec 64)
    (item : List UInt8) :
    SameText (s.insert (.value (if signed then .signed val .error else .unsigned val .error)))
        (o.insert item) ↔
      (integerText f signed val (rtMsgLen - o.text.length)).map foldCase =
        (item.leftpad f.pending (fillByte f.zeros)).map foldCase := by
  have hbuf := length_of_sameText hsame
  have hinsert := insert_integer h (by rw [hbuf]; exact hlen) signed val
  rw [hinsert, ← hbuf]
  exact sameText_append hsame rfl (text_insert h item)

/-- One item keeps the texts the same exactly when both streams insert it alike. -/
theorem sameText_item {f : Flags} {s : RtStream} {o : OStream} (h : InForce f s o)
    (hsame : SameText s o) (item : StreamItem) (hlen : (item.put o).text.length < textLimit) :
    SameText (s.insert item.insertion) (item.put o) ↔ f.AlikeItem item := by
  have hinteger : ∀ (text : List UInt8), (o.insert text).text.length < textLimit →
      o.text.length + max f.pending text.length < textLimit := by
    intro text hlen
    rw [text_insert h, List.length_append, List.length_leftpad] at hlen
    exact hlen
  cases item with
  | int val =>
      have hbound := hinteger _ hlen
      rw [h.hex] at hbound
      show SameText _ (o.insert (OStream.integer o.hex true val)) ↔ _
      rw [h.hex]
      exact (sameText_integer h hsame (by omega) true (val.signExtend 64) _).trans
        (alike_int_iff h.used val hbound)
  | longLong val =>
      have hbound := hinteger _ hlen
      rw [h.hex] at hbound
      show SameText _ (o.insert (OStream.integer o.hex true val)) ↔ _
      rw [h.hex]
      exact (sameText_integer h hsame (by omega) true val _).trans
        (integerText_eq_iff h.used true val hbound)
  | unsignedLongLong val =>
      have hbound := hinteger _ hlen
      rw [h.hex] at hbound
      show SameText _ (o.insert (OStream.integer o.hex false val)) ↔ _
      rw [h.hex]
      exact (sameText_integer h hsame (by omega) false val _).trans
        (integerText_eq_iff h.used false val hbound)
  | cString str =>
      have hbound := hinteger _ hlen
      have hroom := room_of_limit hbound
      have hcut : (RtLog.cString str).take rtMsgLen = RtLog.cString str :=
        List.take_of_length_le (by omega)
      apply sameText_string h hsame _ hlen
      show (s.insert (.cString (some str))).buf = _
      rw [insert_active h.active]
      show s.buf ++ ((RtLog.cString str).take rtMsgLen).take _ = _
      rw [hcut]
  | string str =>
      apply sameText_string h hsame _ hlen
      show (s.insert (.string str)).buf = _
      rw [insert_active h.active]
      rfl
  | char c =>
      have hbound := hinteger _ hlen
      have hbuf := length_of_sameText hsame
      have hlimit := room_of_limit hbound
      have hroom : s.buf.length + 1 < rtMsgLen := by omega
      have hone : [c].take (rtMsgLen - 1 - s.buf.length) = [c] :=
        List.take_of_length_le (show 1 ≤ _ by omega)
      apply sameText_string h hsame _ hlen
      show (s.insert (.char c)).buf = _
      rw [insert_active h.active, hone]
      show (if s.buf.length + 1 < rtMsgLen then s.push [c] else s).buf = _
      rw [if_pos hroom]
      rfl
  | hex =>
      show SameText (s.insert .hex) _ ↔ True
      rw [insert_active h.active]
      exact iff_of_true hsame trivial
  | dec =>
      show SameText (s.insert .dec) _ ↔ True
      rw [insert_active h.active]
      exact iff_of_true hsame trivial
  | setw n hn =>
      show SameText (s.insert (.setw n)) _ ↔ True
      rw [insert_active h.active]
      exact iff_of_true hsame trivial
  | setfill zeros =>
      show SameText (s.insert (.setfill (fillByte zeros))) _ ↔ True
      rw [insert_active h.active]
      exact iff_of_true hsame trivial

/-- An insertion that only adds to the buffer, and any insertion into the output stream. -/
theorem InForce.of_text {f : Flags} {s s' : RtStream} {o : OStream} (h : InForce f s o)
    (item : List UInt8) (hactive : s'.active = s.active) (hhex : s'.hexMode = s.hexMode)
    (hfill : s'.fillChar = s.fillChar) (hwidth : s'.width = s.width) :
    InForce { f with pending := 0 } s' (o.insert item) where
  active := hactive.trans h.active
  hexMode := hhex.trans h.hexMode
  fillChar := hfill.trans h.fillChar
  width := hwidth.trans h.width
  hex := h.hex
  fill := h.fill
  pending := rfl
  digits := h.digits
  used := Or.inr rfl

theorem InForce.of_integer {f : Flags} {s : RtStream} {o : OStream} (h : InForce f s o)
    (hlen : s.buf.length < textLimit) (signed : Bool) (val : BitVec 64) (item : List UInt8) :
    InForce { f with width := 0, pending := 0 }
      (s.insert (.value (if signed then .signed val .error else .unsigned val .error))) (o.insert item) := by
  rw [insert_integer h hlen]
  exact {
    active := h.active
    hexMode := h.hexMode
    fillChar := h.fillChar
    width := rfl
    hex := h.hex
    fill := h.fill
    pending := rfl
    digits := Nat.zero_le _
    used := Or.inl rfl }

/-- The flags after an item. -/
theorem InForce.step {f : Flags} {s : RtStream} {o : OStream} (h : InForce f s o)
    (hlen : s.buf.length < textLimit) (item : StreamItem) :
    InForce (f.step item) (s.insert item.insertion) (item.put o) := by
  cases item with
  | int val => exact h.of_integer hlen true (val.signExtend 64) _
  | longLong val => exact h.of_integer hlen true val _
  | unsignedLongLong val => exact h.of_integer hlen false val _
  | cString str =>
      show InForce _ (s.insert (.cString (some str))) _
      rw [insert_active h.active]
      exact h.of_text _ rfl rfl rfl rfl
  | string str =>
      show InForce _ (s.insert (.string str)) _
      rw [insert_active h.active]
      exact h.of_text _ rfl rfl rfl rfl
  | char c =>
      have hchar : s.insert (.char c) = s ∨ s.insert (.char c) = s.push [c] := by
        rw [insert_active h.active]
        unfold RtStream.inserted
        dsimp only
        split
        · exact Or.inr rfl
        · exact Or.inl rfl
      show InForce _ (s.insert (.char c)) _
      rcases hchar with hchar | hchar
      · rw [hchar]
        exact h.of_text _ rfl rfl rfl rfl
      · rw [hchar]
        exact h.of_text _ rfl rfl rfl rfl
  | hex =>
      show InForce _ (s.insert .hex) _
      rw [insert_active h.active]
      exact { h with hexMode := rfl, hex := rfl }
  | dec =>
      show InForce _ (s.insert .dec) _
      rw [insert_active h.active]
      exact { h with hexMode := rfl, hex := rfl }
  | setw n hn =>
      show InForce _ (s.insert (.setw n)) _
      rw [insert_active h.active]
      exact { h with width := rfl, pending := rfl, digits := hn, used := Or.inl rfl }
  | setfill zeros =>
      show InForce _ (s.insert (.setfill (fillByte zeros))) _
      rw [insert_active h.active]
      exact { h with fillChar := rfl, fill := rfl }

/-! ## All items -/

/-- An output stream never loses text. -/
theorem length_put (o : OStream) (item : StreamItem) :
    o.text.length ≤ (item.put o).text.length := by
  have hinsert : ∀ text, o.text.length ≤ (o.insert text).text.length := by
    intro text
    show o.text.length ≤ (o.text ++ _).length
    rw [List.length_append]
    exact Nat.le_add_right _ _
  cases item with
  | int val => exact hinsert _
  | longLong val => exact hinsert _
  | unsignedLongLong val => exact hinsert _
  | cString str => exact hinsert _
  | string str => exact hinsert _
  | char c => exact hinsert _
  | hex => exact le_refl _
  | dec => exact le_refl _
  | setw n hn => exact le_refl _
  | setfill zeros => exact le_refl _

theorem length_putAll (o : OStream) (items : List StreamItem) :
    o.text.length ≤ (putAll o items).text.length := by
  induction items generalizing o with
  | nil => exact le_refl _
  | cons item items ih => exact Nat.le_trans (length_put o item) (ih (item.put o))

theorem agree_cons {s : RtStream} {o : OStream} (item : StreamItem) (items : List StreamItem) :
    Agree s o (item :: items) ↔
      SameText s o ∧ Agree (s.insert item.insertion) (item.put o) items := by
  constructor
  · intro h
    constructor
    · exact h [] List.nil_prefix
    · intro front hfront
      exact h (item :: front) (List.cons_prefix_cons.mpr ⟨rfl, hfront⟩)
  · rintro ⟨hsame, h⟩ front hfront
    cases front with
    | nil => exact hsame
    | cons item' front =>
        rcases List.cons_prefix_cons.mp hfront with ⟨hitem, hfront⟩
        rw [hitem]
        exact h front hfront

theorem agree_iff_alike {f : Flags} {s : RtStream} {o : OStream} (h : InForce f s o)
    (hsame : SameText s o) {items : List StreamItem}
    (hlen : (putAll o items).text.length < textLimit) :
    Agree s o items ↔ Alike f items := by
  induction items generalizing f s o with
  | nil =>
      apply iff_of_true _ trivial
      intro front hfront
      rw [List.prefix_nil.mp hfront]
      exact hsame
  | cons item items ih =>
      have hput : (item.put o).text.length < textLimit :=
        Nat.lt_of_le_of_lt (length_putAll (item.put o) items) hlen
      have hbuf : s.buf.length < textLimit := by
        rw [length_of_sameText hsame]
        exact Nat.lt_of_le_of_lt (length_put o item) hput
      have hstep := sameText_item h hsame item hput
      have hnext : ∀ _ : SameText (s.insert item.insertion) (item.put o),
          Agree (s.insert item.insertion) (item.put o) items ↔ Alike (f.step item) items :=
        fun hsame' => ih (h.step hbuf item) hsame' hlen
      rw [agree_cons, and_iff_right hsame]
      constructor
      · intro hagree
        have hsame' := hagree [] List.nil_prefix
        exact ⟨hstep.mp hsame', (hnext hsame').mp hagree⟩
      · rintro ⟨halike, hrest⟩
        exact (hnext (hstep.mpr halike)).mpr hrest

/-- The manipulators work as in an output stream exactly when strings and characters fill
the width that is pending, no negative `int` is written in hexadecimal, and each integer
fills the width that `LogRtStream` keeps, or has the same width pending in the output
stream and no sign in front of zeros. -/
theorem agree_iff {g : Gate} {lvl : LogLevel} (hactive : g.passes lvl = true)
    (items : List StreamItem) (hlen : (putAll OStream.init items).text.length < textLimit) :
    Agree (g.logRtStream lvl) OStream.init items ↔ Alike Flags.init items := by
  have hforce : InForce Flags.init (g.logRtStream lvl) OStream.init := {
    active := hactive
    hexMode := rfl
    fillChar := rfl
    width := rfl
    hex := rfl
    fill := rfl
    pending := rfl
    digits := Nat.zero_le _
    used := Or.inl rfl }
  exact agree_iff_alike hforce rfl hlen

/-- An error code in four hexadecimal digits. -/
def errorCode : List StreamItem :=
  [.string [48, 120], .hex, .setw 4 (by decide), .setfill true, .unsignedLongLong 18, .dec,
    .char 33]

/-- A logger that is initialized and logs everything from `info` on. -/
def infoGate : Gate where
  initialized := true
  level := LogLevel.info.toInt

theorem error_code_alike :
    Agree (infoGate.logRtStream .info) OStream.init errorCode := by
  apply (agree_iff (by decide) errorCode (by decide)).mpr
  have hcode : (Flags.mk true true 4 4).AlikeInteger false (18 : BitVec 64) :=
    Or.inr ⟨rfl, by decide⟩
  exact ⟨Nat.zero_le _, trivial, trivial, trivial, hcode, trivial, Nat.zero_le _, trivial⟩

/-- The zeros of a negative number go behind its sign, in an output stream in front of it. -/
theorem zeros_behind_sign :
    ¬ ∀ (g : Gate) (lvl : LogLevel) (items : List StreamItem), g.passes lvl = true →
      (putAll OStream.init items).text.length < textLimit →
      Agree (g.logRtStream lvl) OStream.init items := by
  intro h
  have hagree := h infoGate .info
    [.setw 5 (by decide), .setfill true, .int (BitVec.ofInt 32 (-42))] (by decide) (by decide)
  have hsame := hagree _ (List.prefix_refl _)
  unfold SameText at hsame
  exact absurd hsame (by decide)

end RtLog
end Log
end DtCore
