import DtCore.Log.RtLog.Manipulators

/-!
# Integers in a log stream

`FormatElement` widens every integer to 64 bits and prints it with a format that
`FormatIntState` puts together.  The width gets at most three digits there, and what is
printed in hexadecimal is the widened number.

Main definitions:

- `RtStream.formatInteger`: `FormatElement` for an integer.
- `Shows`: a text is a number with fill characters around its sign.
- `PrintsFaithfully`: the text of an integer fills the width and shows the number.

Main results:

- Theorem `length_snprintf_le`: a width of more than three digits is not kept.
- Theorem `prints_faithfully_iff`: which integers are printed faithfully.
-/

namespace DtCore
namespace Log
namespace RtLog

open Foundation

/-! ## `FormatElement` -/

/-- The conversion of an integer to `long long`. -/
def widen {w : Nat} (isSigned : Bool) (v : BitVec w) : BitVec 64 :=
  if isSigned then v.signExtend 64 else v.setWidth 64

/-- `FormatElement` for an integer.  The C library does not say what `snprintf` makes of a
format with an unknown conversion: it may be anything. -/
def RtStream.formatInteger (unknown : List UInt8 → BitVec 64 → Option (List UInt8))
    (val : BitVec 64) (isSigned : Bool) (s : RtStream) : Bool × RtStream :=
  if s.buf.length + 10 ≥ rtMsgLen then (false, s)
  else
    let format := stateFormat s.hexMode s.width s.fillChar isSigned
    let printed := { s with width := 0 }
    match (snprintf format val).or (unknown format val) with
    | none => (false, printed)
    | some text =>
        if text.length ≥ rtMsgLen - s.buf.length then (false, printed)
        else (true, printed.push text)

/-- It is the `FormatElement` of the other values, with what is printed for an unknown
format. -/
theorem formatInteger_eq (unknown : List UInt8 → BitVec 64 → Option (List UInt8))
    (val : BitVec 64) (isSigned : Bool) (s : RtStream) (other : OtherFormat)
    (h : other.text = unknown (stateFormat s.hexMode s.width s.fillChar isSigned) val) :
    s.formatInteger unknown val isSigned =
      s.formatElement (if isSigned then .signed val other else .unsigned val other) := by
  have hprint : s.printElement (if isSigned then .signed val other else .unsigned val other) =
      s.formatIntState other val isSigned := by
    cases isSigned with
    | true => rfl
    | false => rfl
  unfold RtStream.formatInteger RtStream.formatElement
  rw [hprint]
  cases hprinted : (snprintf (stateFormat s.hexMode s.width s.fillChar isSigned) val).or
      (unknown (stateFormat s.hexMode s.width s.fillChar isSigned) val) with
  | none => simp only [RtStream.formatIntState, h, hprinted]
  | some text => simp only [RtStream.formatIntState, h, hprinted]

/-! ## Numbers and fill characters -/

/-- The sign of the numeral of an integer. -/
def signText {w : Nat} (hex isSigned : Bool) (v : BitVec w) : List UInt8 :=
  if hex then [] else if isSigned then signOf v else []

/-- The digits of its numeral: the hexadecimal one is that of the number modulo `2 ^ w`. -/
def digitsText {w : Nat} (hex isSigned : Bool) (v : BitVec w) : List UInt8 :=
  if hex then (numeral 16 v.toNat).map upperDigit
  else if isSigned then numeral 10 v.toInt.natAbs
  else numeral 10 v.toNat

/-- Without the fill characters in front of the sign and behind it the text is the
numeral. -/
def Shows {w : Nat} (fill : UInt8) (hex isSigned : Bool) (v : BitVec w) (text : List UInt8) :
    Prop :=
  ∃ i j, text = List.replicate i fill ++
    (signText hex isSigned v ++ (List.replicate j fill ++ digitsText hex isSigned v))

/-- Whenever `FormatElement` succeeds, the text is as long as the width and shows the
number. -/
def PrintsFaithfully {w : Nat} (hex zeros : Bool) (n : Nat) (isSigned : Bool) (v : BitVec w) :
    Prop :=
  ∀ (unknown : List UInt8 → BitVec 64 → Option (List UInt8)) (s t : RtStream),
    s.hexMode = hex → s.fillChar = fillByte zeros → s.width = n →
      s.formatInteger unknown (widen isSigned v) isSigned = (true, t) →
        ∃ text, t.buf = s.buf ++ text ∧ n ≤ text.length ∧
          Shows (fillByte zeros) hex isSigned v text

theorem sign_widen {w : Nat} (hw : w ≤ 64) (hex isSigned : Bool) (v : BitVec w) :
    (convOf hex isSigned).sign (widen isSigned v) = signText hex isSigned v := by
  cases hex with
  | true => rfl
  | false =>
      cases isSigned with
      | false => rfl
      | true =>
          have hmsb : (v.signExtend 64).msb = v.msb := by
            rw [BitVec.msb_eq_toInt, BitVec.msb_eq_toInt, BitVec.toInt_signExtend_of_le hw]
          show signOf (v.signExtend 64) = signOf v
          unfold signOf
          rw [hmsb]

/-- Only a negative number that is shorter has other digits when it is widened. -/
theorem digits_widen {w : Nat} (hw : w ≤ 64) {hex isSigned : Bool} {v : BitVec w}
    (h : ¬ (hex = true ∧ isSigned = true ∧ w < 64 ∧ v.msb = true)) :
    (convOf hex isSigned).digits (widen isSigned v) = digitsText hex isSigned v := by
  have hlt : v.toNat < 2 ^ 64 :=
    Nat.lt_of_lt_of_le v.isLt (Nat.pow_le_pow_right (by decide) hw)
  have hunsigned : (v.setWidth 64).toNat = v.toNat := by
    rw [BitVec.toNat_setWidth, Nat.mod_eq_of_lt hlt]
  cases isSigned with
  | false =>
      cases hex with
      | true =>
          show (numeral 16 (v.setWidth 64).toNat).map upperDigit = _
          rw [hunsigned]
          rfl
      | false =>
          show numeral 10 (v.setWidth 64).toNat = _
          rw [hunsigned]
          rfl
  | true =>
      cases hex with
      | true =>
          have hsame : (v.signExtend 64).toNat = v.toNat := by
            rw [BitVec.toNat_signExtend, hunsigned]
            split
            · rename_i hmsb
              have hwide : w = 64 := by
                by_contra hne
                exact h ⟨rfl, rfl, by omega, hmsb⟩
              subst hwide
              rfl
            · rfl
          show (numeral 16 (v.signExtend 64).toNat).map upperDigit = _
          rw [hsame]
          rfl
      | false =>
          show numeral 10 (v.signExtend 64).toInt.natAbs = _
          rw [BitVec.toInt_signExtend_of_le hw]
          rfl

/-- What is printed is the number with fill characters. -/
theorem shows_printed {w : Nat} (hw : w ≤ 64) {hex isSigned : Bool} {v : BitVec w}
    (h : ¬ (hex = true ∧ isSigned = true ∧ w < 64 ∧ v.msb = true)) (zeros : Bool) (n : Nat) :
    Shows (fillByte zeros) hex isSigned v (printed zeros n hex isSigned (widen isSigned v)) := by
  have hsign := sign_widen hw hex isSigned v
  have hdigits := digits_widen hw h
  unfold Shows printed IntFormat.print
  dsimp only
  rw [hsign, hdigits]
  unfold List.leftpad
  cases zeros with
  | false =>
      rw [Bool.and_false, if_neg Bool.false_ne_true]
      exact ⟨_, 0, rfl⟩
  | true =>
      by_cases hn : 0 < n
      · rw [decide_eq_true hn, Bool.and_self, if_pos rfl]
        exact ⟨0, _, rfl⟩
      · have hzero : n = 0 := Nat.eq_zero_of_not_pos hn
        subst hzero
        rw [Bool.and_true, if_neg (by decide), Nat.zero_sub]
        exact ⟨0, 0, rfl⟩

/-! ## Lengths -/

/-- The width of a format ends at the length modifier. -/
theorem parseWidth_le (front rest : List UInt8) :
    (parseWidth (front ++ 'l'.toUInt8 :: rest)).1 < 10 ^ front.length := by
  have hstop : ('l'.toUInt8 :: rest).takeWhile isDigit = [] := rfl
  have hfront : (front ++ 'l'.toUInt8 :: rest).takeWhile isDigit = front.takeWhile isDigit := by
    rw [List.takeWhile_append, hstop, List.append_nil]
    split
    · rename_i hall
      exact ((List.takeWhile_prefix isDigit).eq_of_length hall).symm
    · rfl
  have hdigits : ∀ b ∈ front.takeWhile isDigit, isDigit b = true :=
    List.all_eq_true.mp List.all_takeWhile
  show numeralValue 10 ((front ++ 'l'.toUInt8 :: rest).takeWhile isDigit) < _
  rw [hfront]
  apply Nat.lt_of_lt_of_le (numeralValue_lt hdigits)
  exact Nat.pow_le_pow_right (by decide) (List.takeWhile_prefix isDigit).length_le

/-- The width that is read has no more digits than were put into the format. -/
theorem width_lt {zeroFlag : Bool} {digits rest : List UInt8} (hdigits : digits ≠ [])
    {f : IntFormat}
    (h : parseFormat ('%'.toUInt8 :: ((if zeroFlag then ['0'.toUInt8] else []) ++
      (digits ++ 'l'.toUInt8 :: rest))) = some f) :
    f.width < 10 ^ digits.length := by
  unfold parseFormat at h
  dsimp only at h
  rw [if_pos rfl, Option.map_eq_some_iff] at h
  rcases h with ⟨conv, _, rfl⟩
  dsimp only
  cases zeroFlag with
  | true => exact parseWidth_le digits rest
  | false =>
      rw [if_neg Bool.false_ne_true, List.nil_append]
      cases digits with
      | nil => exact absurd rfl hdigits
      | cons b digits =>
          split
          · -- the first digit was taken for the zero flag
            have htail : ((b :: digits) ++ 'l'.toUInt8 :: rest).tail =
                digits ++ 'l'.toUInt8 :: rest := rfl
            rw [htail]
            apply Nat.lt_of_lt_of_le (parseWidth_le digits rest)
            exact Nat.pow_le_pow_right (by decide) (Nat.le_succ _)
          · exact parseWidth_le (b :: digits) rest

/-- The format has room for three digits: more are not printed. -/
theorem length_snprintf_le {hex zeros isSigned : Bool} {n : Nat} (hn : 100 ≤ n)
    {val : BitVec 64} {text : List UInt8}
    (h : snprintf (stateFormat hex n (fillByte zeros) isSigned) val = some text) :
    text.length ≤ 999 := by
  have hdigits : (widthDigits n).length = 3 := by
    unfold widthDigits
    rw [if_pos (by omega)]
    rfl
  have hne : widthDigits n ≠ [] := by
    intro hnil
    rw [hnil] at hdigits
    contradiction
  rw [stateFormat_eq] at h
  rcases Option.map_eq_some_iff.mp h with ⟨f, hparse, rfl⟩
  have hwidth := width_lt hne hparse
  rw [hdigits] at hwidth
  have hplain := length_plain_le val f.conv
  rw [length_print]
  omega

/-! ## Which integers are printed faithfully -/

/-- An object with an empty buffer. -/
def emptyStream (hex zeros : Bool) (n : Nat) : RtStream where
  logName := none
  logLevel := .info
  active := true
  submitted := false
  buf := []
  hexMode := hex
  width := n
  fillChar := fillByte zeros

/-- In an empty buffer every text of less than 1024 bytes is written. -/
theorem formatInteger_empty (unknown : List UInt8 → BitVec 64 → Option (List UInt8))
    {hex zeros isSigned : Bool} {n : Nat} {val : BitVec 64} {text : List UInt8}
    (h : (snprintf (stateFormat hex n (fillByte zeros) isSigned) val).or
      (unknown (stateFormat hex n (fillByte zeros) isSigned) val) = some text)
    (hlen : text.length < rtMsgLen) :
    ∃ t, (emptyStream hex zeros n).formatInteger unknown val isSigned = (true, t) ∧
      t.buf = text := by
  apply Exists.intro ({ emptyStream hex zeros n with width := 0 }.push text)
  constructor
  · have hroom : ¬ (emptyStream hex zeros n).buf.length + 10 ≥ rtMsgLen :=
      Nat.not_le_of_lt (show 10 < 1024 by decide)
    unfold RtStream.formatInteger
    rw [if_neg hroom]
    show (match (snprintf (stateFormat hex n (fillByte zeros) isSigned) val).or
      (unknown (stateFormat hex n (fillByte zeros) isSigned) val) with
      | none => _
      | some text => _) = _
    rw [h]
    exact if_neg (Nat.not_le_of_lt hlen)
  · rfl

/-- A width of four digits is not kept. -/
theorem not_faithful_of_width {w : Nat} {hex zeros isSigned : Bool} {n : Nat} {v : BitVec w}
    (hn : 999 < n) : ¬ PrintsFaithfully hex zeros n isSigned v := by
  intro hfaithful
  have hshort : ∃ text, (snprintf (stateFormat hex n (fillByte zeros) isSigned)
      (widen isSigned v)).or (some []) = some text ∧ text.length ≤ 999 := by
    cases hprint : snprintf (stateFormat hex n (fillByte zeros) isSigned) (widen isSigned v) with
    | none => exact ⟨[], rfl, Nat.zero_le _⟩
    | some text => exact ⟨text, rfl, length_snprintf_le (by omega) hprint⟩
  rcases hshort with ⟨text, htext, hlen⟩
  have hroom : text.length < rtMsgLen := by
    unfold rtMsgLen
    omega
  rcases formatInteger_empty (fun _ _ => some []) htext hroom with ⟨t, ht, hbuf⟩
  rcases hfaithful _ (emptyStream hex zeros n) t rfl rfl rfl ht with ⟨text', htext', hlong, _⟩
  have hsame : text' = text := by
    rw [← hbuf, htext']
    rfl
  rw [hsame] at hlong
  omega

/-- The value of the digits that a text shows. -/
theorem value_of_shows {w : Nat} {zeros : Bool} {v : BitVec w} {text : List UInt8}
    (h : Shows (fillByte zeros) true true v text) :
    numeralValue 16 (text.map foldCase) = v.toNat := by
  have hfill : ∀ (k : Nat) (rest : List UInt8),
      numeralValue 16 (List.replicate k (fillByte zeros) ++ rest) = numeralValue 16 rest := by
    intro k rest
    have hpad : List.replicate k (fillByte zeros) ++ rest =
        rest.leftpad (k + rest.length) (fillByte zeros) := by
      unfold List.leftpad
      rw [Nat.add_sub_cancel]
    rw [hpad, numeralValue_leftpad 16 _ (digitValue_fillByte zeros)]
  rcases h with ⟨i, j, rfl⟩
  show numeralValue 16 ((List.replicate i (fillByte zeros) ++
    ([] ++ (List.replicate j (fillByte zeros) ++
      (numeral 16 v.toNat).map upperDigit))).map foldCase) = _
  rw [List.nil_append, List.map_append, List.map_append, List.map_replicate, List.map_replicate,
    foldCase_fillByte, map_foldCase_upper, hfill, hfill,
    numeralValue_numeral (by decide) (by decide)]

theorem value_of_printed {zeros : Bool} {n : Nat} (val : BitVec 64) :
    numeralValue 16 ((printed zeros n true true val).map foldCase) = val.toNat := by
  have hunsigned : ¬ (zeros = true ∧ true = false ∧ true = true ∧ val.msb = true) :=
    fun h => Bool.noConfusion h.2.1
  rw [map_foldCase_printed hunsigned]
  show numeralValue 16 ((numeral 16 val.toNat).leftpad n (fillByte zeros)) = _
  rw [numeralValue_leftpad 16 n (digitValue_fillByte zeros),
    numeralValue_numeral (by decide) (by decide)]

theorem length_printed (zeros : Bool) (n : Nat) (hex isSigned : Bool) (val : BitVec 64) :
    (printed zeros n hex isSigned val).length =
      max n ((convOf hex isSigned).plain val).length := by
  unfold printed
  rw [length_print]

/-- A negative number of a narrow type has too many digits in hexadecimal. -/
theorem not_faithful_of_narrow {w : Nat} {zeros : Bool} {n : Nat} {v : BitVec w} (hn : n ≤ 999)
    (hw : w < 64) (hmsb : v.msb = true) : ¬ PrintsFaithfully true zeros n true v := by
  intro hfaithful
  have hprint := snprintf_stateFormat hn zeros true true (widen true v)
  have hroom : (printed zeros n true true (widen true v)).length < rtMsgLen := by
    have hplain := length_plain_le (widen true v) (convOf true true)
    rw [length_printed]
    unfold rtMsgLen
    omega
  rcases formatInteger_empty (fun _ _ => none) (by rw [hprint]; rfl) hroom with
    ⟨t, ht, hbuf⟩
  rcases hfaithful _ (emptyStream true zeros n) t rfl rfl rfl ht with ⟨text, htext, _, hshows⟩
  have hsame : text = printed zeros n true true (widen true v) := by
    rw [← hbuf, htext]
    rfl
  rw [hsame] at hshows
  have hvalue := value_of_shows hshows
  have hlt : v.toNat < 2 ^ 64 :=
    Nat.lt_trans v.isLt (Nat.pow_lt_pow_right (by decide) hw)
  have hpow : 2 ^ w < 2 ^ 64 := Nat.pow_lt_pow_right (by decide) hw
  have hwide : (v.signExtend 64).toNat = v.toNat + (2 ^ 64 - 2 ^ w) := by
    rw [BitVec.toNat_signExtend, if_pos hmsb, BitVec.toNat_setWidth, Nat.mod_eq_of_lt hlt]
  rw [value_of_printed] at hvalue
  have hvalue' : (v.signExtend 64).toNat = v.toNat := hvalue
  omega

/-- An integer is printed faithfully exactly when the width has at most three digits and
the integer is not a negative number of a narrow type in hexadecimal. -/
theorem prints_faithfully_iff {w : Nat} (hw : w ≤ 64) (hex zeros : Bool) (n : Nat)
    (isSigned : Bool) (v : BitVec w) :
    PrintsFaithfully hex zeros n isSigned v ↔
      n ≤ 999 ∧ ¬ (hex = true ∧ isSigned = true ∧ w < 64 ∧ v.msb = true) := by
  constructor
  · intro hfaithful
    have hn : n ≤ 999 := by
      by_contra hn
      exact not_faithful_of_width (by omega) hfaithful
    apply And.intro hn
    rintro ⟨rfl, rfl, hnarrow, hmsb⟩
    exact not_faithful_of_narrow hn hnarrow hmsb hfaithful
  · rintro ⟨hn, hnarrow⟩ unknown s t hhex hfill hwidth hrun
    have hprint := snprintf_stateFormat hn zeros hex isSigned (widen isSigned v)
    unfold RtStream.formatInteger at hrun
    dsimp only at hrun
    rw [hhex, hfill, hwidth, hprint] at hrun
    dsimp only [Option.some_or] at hrun
    split at hrun
    · simp at hrun
    · split at hrun
      · simp at hrun
      · simp only [Prod.mk.injEq, true_and] at hrun
        apply Exists.intro (printed zeros n hex isSigned (widen isSigned v))
        constructor
        · rw [← hrun]
          rfl
        · constructor
          · rw [length_printed]
            exact Nat.le_max_left _ _
          · exact shows_printed hw hnarrow zeros n

/-- Decimal and with five columns, but not in hexadecimal. -/
theorem prints_faithfully_iff_int :
    PrintsFaithfully false true 5 true (-42 : BitVec 32) ∧
      ¬ PrintsFaithfully true true 5 true (-42 : BitVec 32) :=
  ⟨(prints_faithfully_iff (by decide) false true 5 true (-42 : BitVec 32)).mpr (by decide),
    fun hprints => absurd
      ((prints_faithfully_iff (by decide) true true 5 true (-42 : BitVec 32)).mp hprints)
      (by decide)⟩

/-- Minus one in eight bits has sixteen hexadecimal digits. -/
theorem narrow_hex_widened :
    (∃ t, (emptyStream true false 0).formatInteger (fun _ _ => none) (widen true (-1 : BitVec 8))
        true = (true, t) ∧ t.buf = List.replicate 16 'F'.toUInt8) ∧
      ¬ PrintsFaithfully true false 0 true (-1 : BitVec 8) := by
  constructor
  · exact formatInteger_empty (fun _ _ => none) (by decide) (by decide)
  · exact not_faithful_of_narrow (by decide) (by decide) (by decide)

end RtLog
end Log
end DtCore
