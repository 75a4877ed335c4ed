import Mathlib.Data.List.Basic
import Mathlib.Tactic

/-!
# Formatted integers

The numerals of the C and C++ libraries: what `snprintf` makes of a format with one
integer conversion, and what an output stream inserts for an integer.  Both pad on the
left, but `snprintf` puts zeros behind the sign and a stream puts its fill character in
front of it.

Main definitions:

- `numeral`, `numeralValue`: the digits of a number, and the number of some digits.
- `snprintf`: an integer conversion, parsed from the bytes of its format.
- `OStream`: an output stream with the flags of its integers, its width and its fill.

Main results:

- Theorem `numeralValue_numeral`: a numeral has the value of its number.
- Theorem `parseFormat_append`: a format is parsed as it was put together.
- Theorem `printed_eq_iff`: when both libraries make the same of a number.
-/

namespace DtCore
namespace Foundation

/-! ## Numerals -/

/-- The digits of a number, in lower case. -/
def numeral (base n : Nat) : List UInt8 :=
  (Nat.toDigits base n).map Char.toUInt8

/-- The digits of `%X`. -/
def upperDigit (b : UInt8) : UInt8 :=
  if 'a'.toUInt8 ≤ b ∧ b ≤ 'f'.toUInt8 then b - 32 else b

/-- Forget the case of the hexadecimal digits. -/
def foldCase (b : UInt8) : UInt8 :=
  if 'A'.toUInt8 ≤ b ∧ b ≤ 'F'.toUInt8 then b + 32 else b

/-- The value of a digit; other bytes count for nothing. -/
def digitValue (b : UInt8) : Nat :=
  if '0'.toUInt8 ≤ b ∧ b ≤ '9'.toUInt8 then b.toNat - 48
  else if 'a'.toUInt8 ≤ b ∧ b ≤ 'f'.toUInt8 then b.toNat - 87
  else 0

/-- The number that some digits stand for. -/
def numeralValue (base : Nat) (text : List UInt8) : Nat :=
  text.foldl (fun n b => base * n + digitValue b) 0

/-- The digit of a number below sixteen. -/
theorem digitValue_digitChar {d : Nat} (h : d < 16) : digitValue d.digitChar.toUInt8 = d := by
  interval_cases d <;> rfl

theorem numeralValue_concat (base : Nat) (text : List UInt8) (b : UInt8) :
    numeralValue base (text ++ [b]) = base * numeralValue base text + digitValue b := by
  unfold numeralValue
  rw [List.foldl_concat]

/-- The last digit comes off the end. -/
theorem numeral_eq {base : Nat} (hbase : 1 < base) (n : Nat) :
    numeral base n =
      if n < base then [n.digitChar.toUInt8]
      else numeral base (n / base) ++ [(n % base).digitChar.toUInt8] := by
  unfold numeral
  rw [Nat.toDigits_eq_if hbase]
  split
  · rfl
  · rw [List.map_append]
    rfl

theorem numeral_ne_nil (base n : Nat) : numeral base n ≠ [] := by
  unfold numeral
  simp

theorem numeralValue_numeral {base : Nat} (hbase : 1 < base) (hle : base ≤ 16) (n : Nat) :
    numeralValue base (numeral base n) = n := by
  induction n using Nat.strongRecOn with
  | ind n ih =>
      rw [numeral_eq hbase]
      split
      · rename_i hn
        have hvalue : digitValue n.digitChar.toUInt8 = n :=
          digitValue_digitChar (Nat.lt_of_lt_of_le hn hle)
        show base * 0 + digitValue n.digitChar.toUInt8 = n
        rw [hvalue, Nat.mul_zero, Nat.zero_add]
      · rename_i hn
        have hlast : n % base < 16 :=
          Nat.lt_of_lt_of_le (Nat.mod_lt n (Nat.lt_trans Nat.zero_lt_one hbase)) hle
        have hless : n / base < n :=
          Nat.div_lt_self (by omega) hbase
        rw [numeralValue_concat, ih _ hless, digitValue_digitChar hlast, Nat.div_add_mod]

/-- Padding does not change the value. -/
theorem numeralValue_leftpad (base w : Nat) {fill : UInt8} (hfill : digitValue fill = 0)
    (text : List UInt8) :
    numeralValue base (text.leftpad w fill) = numeralValue base text := by
  have hpad : ∀ k, (List.replicate k fill).foldl (fun n b => base * n + digitValue b) 0 = 0 := by
    intro k
    induction k with
    | zero => rfl
    | succ k ih =>
        rw [List.replicate_succ, List.foldl_cons, hfill, Nat.mul_zero]
        exact ih
  unfold numeralValue List.leftpad
  rw [List.foldl_append, hpad]

/-- The bytes of numerals are digits in lower case. -/
theorem digit_of_mem_numeral {base : Nat} (hbase : 1 < base) (hle : base ≤ 16) {n : Nat}
    {b : UInt8} (h : b ∈ numeral base n) : ∃ d < base, b = d.digitChar.toUInt8 := by
  induction n using Nat.strongRecOn with
  | ind n ih =>
      rw [numeral_eq hbase] at h
      split at h
      · rename_i hn
        exact ⟨n, hn, List.mem_singleton.mp h⟩
      · rename_i hn
        rcases List.mem_append.mp h with hfront | hlast
        · exact ih (n / base) (Nat.div_lt_self (by omega) hbase) hfront
        · exact ⟨n % base, Nat.mod_lt n (by omega), List.mem_singleton.mp hlast⟩

/-- A numeral begins with a zero only when the number is zero. -/
theorem head_numeral {base : Nat} (hbase : 1 < base) (hle : base ≤ 16) {n : Nat} (hn : 0 < n) :
    (numeral base n).head? ≠ some '0'.toUInt8 := by
  induction n using Nat.strongRecOn with
  | ind n ih =>
      rw [numeral_eq hbase]
      split
      · rename_i hless
        intro hhead
        have hdigit : n.digitChar.toUInt8 = '0'.toUInt8 := Option.some.inj hhead
        have hvalue := digitValue_digitChar (Nat.lt_of_lt_of_le hless hle)
        rw [hdigit] at hvalue
        have hzero : n = 0 := hvalue.symm
        omega
      · rename_i hless
        rw [List.head?_append_of_ne_nil _ (numeral_ne_nil _ _)]
        exact ih (n / base) (Nat.div_lt_self hn hbase) (Nat.div_pos (by omega) (by omega))

/-- A number below a power of the base has no more digits than the exponent. -/
theorem length_numeral_le {base : Nat} (hbase : 1 < base) {n k : Nat} (hk : 0 < k)
    (h : n < base ^ k) : (numeral base n).length ≤ k := by
  unfold numeral
  rw [List.length_map]
  exact (Nat.length_toDigits_le_iff hbase hk).mpr h

theorem foldCase_upperDigit {d : Nat} (h : d < 16) :
    foldCase (upperDigit d.digitChar.toUInt8) = d.digitChar.toUInt8 := by
  interval_cases d <;> rfl

theorem foldCase_digit {d : Nat} (h : d < 16) :
    foldCase d.digitChar.toUInt8 = d.digitChar.toUInt8 := by
  interval_cases d <;> rfl

theorem map_foldCase_numeral {base : Nat} (hbase : 1 < base) (hle : base ≤ 16) (n : Nat) :
    (numeral base n).map foldCase = numeral base n := by
  have hfold : ∀ b ∈ numeral base n, foldCase b = id b := by
    intro b hb
    rcases digit_of_mem_numeral hbase hle hb with ⟨d, hd, hbd⟩
    rw [hbd]
    exact foldCase_digit (Nat.lt_of_lt_of_le hd hle)
  rw [List.map_congr_left hfold, List.map_id]

/-- Up to case `%X` gives the numeral. -/
theorem map_foldCase_upper (n : Nat) :
    ((numeral 16 n).map upperDigit).map foldCase = numeral 16 n := by
  have hfold : ∀ b ∈ numeral 16 n, (foldCase ∘ upperDigit) b = id b := by
    intro b hb
    rcases digit_of_mem_numeral (by decide) (le_refl 16) hb with ⟨d, hd, hbd⟩
    rw [hbd]
    exact foldCase_upperDigit hd
  rw [List.map_map, List.map_congr_left hfold, List.map_id]

/-! ## Integer conversions -/

/-- The conversions `%lld`, `%llu` and `%llX`. -/
inductive IntConv where
  | signed
  | unsigned
  | upperHex

def IntConv.letter : IntConv → UInt8
  | .signed => 'd'.toUInt8
  | .unsigned => 'u'.toUInt8
  | .upperHex => 'X'.toUInt8

/-- A format with one integer conversion. -/
structure IntFormat where
  zeroPad : Bool
  width : Nat
  conv : IntConv

/-- The sign of a signed number. -/
def signOf {w : Nat} (val : BitVec w) : List UInt8 :=
  if val.msb then ['-'.toUInt8] else []

def IntConv.sign (val : BitVec 64) : IntConv → List UInt8
  | .signed => signOf val
  | .unsigned => []
  | .upperHex => []

def IntConv.digits (val : BitVec 64) : IntConv → List UInt8
  | .signed => numeral 10 val.toInt.natAbs
  | .unsigned => numeral 10 val.toNat
  | .upperHex => (numeral 16 val.toNat).map upperDigit

/-- The number without padding. -/
def IntConv.plain (val : BitVec 64) (c : IntConv) : List UInt8 :=
  c.sign val ++ c.digits val

/-- What a conversion prints: zeros go between the sign and the digits. -/
def IntFormat.print (f : IntFormat) (val : BitVec 64) : List UInt8 :=
  let sign := f.conv.sign val
  let digits := f.conv.digits val
  if f.zeroPad then sign ++ digits.leftpad (f.width - sign.length) '0'.toUInt8
  else (sign ++ digits).leftpad f.width ' '.toUInt8

/-- A decimal digit. -/
def isDigit (b : UInt8) : Bool :=
  '0'.toUInt8 ≤ b && b ≤ '9'.toUInt8

/-- The conversion behind the length modifier. -/
def parseConv : List UInt8 → Option IntConv
  | [l, l', c] =>
      if l = 'l'.toUInt8 ∧ l' = 'l'.toUInt8 then
        if c = 'd'.toUInt8 then some .signed
        else if c = 'u'.toUInt8 then some .unsigned
        else if c = 'X'.toUInt8 then some .upperHex
        else none
      else none
  | _ => none

/-- The width, which is zero when it is not given. -/
def parseWidth (text : List UInt8) : Nat × List UInt8 :=
  (numeralValue 10 (text.takeWhile isDigit), text.dropWhile isDigit)

/-- A percent sign, the zero flag, the width, the length modifier and the conversion. -/
def parseFormat : List UInt8 → Option IntFormat
  | [] => none
  | c :: rest =>
      if c = '%'.toUInt8 then
        let zeroPad := rest.head? == some '0'.toUInt8
        let width := parseWidth (if zeroPad then rest.tail else rest)
        (parseConv width.2).map (fun conv => { zeroPad := zeroPad, width := width.1, conv := conv })
      else none

/-- `snprintf` with one argument of type `long long` and a format of this kind; nothing is
said of other formats. -/
def snprintf (format : List UInt8) (val : BitVec 64) : Option (List UInt8) :=
  (parseFormat format).map (fun f => f.print val)

theorem isDigit_of_mem_numeral {n : Nat} {b : UInt8} (h : b ∈ numeral 10 n) :
    isDigit b = true := by
  have hdigit : ∀ d < 10, isDigit d.digitChar.toUInt8 = true := by decide
  rcases digit_of_mem_numeral (by decide) (by decide) h with ⟨d, hd, hb⟩
  rw [hb]
  exact hdigit d hd

/-- The value of some decimal digits. -/
theorem numeralValue_lt {text : List UInt8} (h : ∀ b ∈ text, isDigit b = true) :
    numeralValue 10 text < 10 ^ text.length := by
  have hdigit : ∀ b, isDigit b = true → digitValue b ≤ 9 := by
    intro b hb
    unfold isDigit at hb
    rw [Bool.and_eq_true, decide_eq_true_eq, decide_eq_true_eq] at hb
    have hle : b.toNat ≤ 57 := UInt8.le_iff_toNat_le.mp hb.2
    unfold digitValue
    rw [if_pos hb]
    omega
  induction text using List.reverseRecOn with
  | nil => exact Nat.one_pos
  | append_singleton text b ih =>
      have hfront := ih (fun c hc => h c (List.mem_append_left _ hc))
      have hlast := hdigit b (h b (List.mem_append_right _ List.mem_cons_self))
      rw [numeralValue_concat, List.length_append, List.length_singleton, Nat.pow_succ]
      omega

theorem parseConv_letter (conv : IntConv) :
    parseConv ['l'.toUInt8, 'l'.toUInt8, conv.letter] = some conv := by
  cases conv with
  | signed => rfl
  | unsigned => rfl
  | upperHex => rfl

/-- The width ends at the length modifier. -/
theorem parseWidth_append {digits : List UInt8} (hdigits : ∀ b ∈ digits, isDigit b = true)
    (rest : List UInt8) :
    parseWidth (digits ++ 'l'.toUInt8 :: rest) =
      (numeralValue 10 digits, 'l'.toUInt8 :: rest) := by
  have hstop : isDigit 'l'.toUInt8 = false := rfl
  unfold parseWidth
  rw [List.takeWhile_append_of_pos hdigits, List.dropWhile_append_of_pos hdigits]
  simp [hstop]

/-- A format is parsed as it was put together. -/
theorem parseFormat_append (zeroPad : Bool) {digits : List UInt8}
    (hdigits : ∀ b ∈ digits, isDigit b = true) (hhead : digits.head? ≠ some '0'.toUInt8)
    (conv : IntConv) :
    parseFormat ('%'.toUInt8 :: ((if zeroPad then ['0'.toUInt8] else []) ++
      (digits ++ ['l'.toUInt8, 'l'.toUInt8, conv.letter]))) =
      some { zeroPad := zeroPad, width := numeralValue 10 digits, conv := conv } := by
  have hwidth := parseWidth_append hdigits ['l'.toUInt8, conv.letter]
  unfold parseFormat
  dsimp only
  rw [if_pos rfl]
  cases zeroPad with
  | true =>
      have htail : ((if true = true then ['0'.toUInt8] else []) ++
          (digits ++ ['l'.toUInt8, 'l'.toUInt8, conv.letter])).tail =
          digits ++ ['l'.toUInt8, 'l'.toUInt8, conv.letter] :=
        rfl
      have hflag : (((if true = true then ['0'.toUInt8] else []) ++
          (digits ++ ['l'.toUInt8, 'l'.toUInt8, conv.letter])).head? ==
          some '0'.toUInt8) = true :=
        rfl
      rw [hflag, if_pos rfl, htail, hwidth, parseConv_letter, Option.map_some]
  | false =>
      have hflag : ((digits ++ ['l'.toUInt8, 'l'.toUInt8, conv.letter]).head? ==
          some '0'.toUInt8) = false := by
        cases digits with
        | nil => rfl
        | cons b digits => simpa using hhead
      simp only [Bool.false_eq_true, if_false, List.nil_append, hflag, hwidth, parseConv_letter,
        Option.map_some]

/-! ## Padding -/

theorem leftpad_of_length_le {w : Nat} {fill : UInt8} {text : List UInt8}
    (h : w ≤ text.length) : text.leftpad w fill = text := by
  unfold List.leftpad
  rw [Nat.sub_eq_zero_of_le h]
  rfl

theorem plain_ne_nil (val : BitVec 64) (c : IntConv) : c.plain val ≠ [] := by
  have hdigits : c.digits val ≠ [] := by
    cases c with
    | signed => exact numeral_ne_nil _ _
    | unsigned => exact numeral_ne_nil _ _
    | upperHex => exact fun h => numeral_ne_nil _ _ (List.map_eq_nil_iff.mp h)
  exact List.append_ne_nil_of_right_ne_nil _ hdigits

/-- A number of 64 bits has at most twenty digits and a sign. -/
theorem length_plain_le (val : BitVec 64) (conv : IntConv) : (conv.plain val).length ≤ 21 := by
  have hnat : val.toNat < 2 ^ 64 := val.isLt
  have hint : val.toInt.natAbs ≤ 2 ^ 64 := by
    have hle := BitVec.toInt_le (x := val)
    have hge := BitVec.le_toInt (x := val)
    omega
  have hsign : (signOf val).length ≤ 1 := by
    unfold signOf
    split
    · exact Nat.le_refl 1
    · exact Nat.zero_le 1
  unfold IntConv.plain
  rw [List.length_append]
  cases conv with
  | signed =>
      have hdigits : (numeral 10 val.toInt.natAbs).length ≤ 20 :=
        length_numeral_le (by decide) (by decide) (by omega)
      exact Nat.add_le_add hsign hdigits
  | unsigned =>
      have hdigits : (numeral 10 val.toNat).length ≤ 20 :=
        length_numeral_le (by decide) (by decide) (by omega)
      show 0 + (numeral 10 val.toNat).length ≤ 21
      omega
  | upperHex =>
      have hdigits : (numeral 16 val.toNat).length ≤ 16 :=
        length_numeral_le (by decide) (by decide) (by omega)
      show 0 + ((numeral 16 val.toNat).map upperDigit).length ≤ 21
      rw [List.length_map]
      omega

theorem length_print (f : IntFormat) (val : BitVec 64) :
    (f.print val).length = max f.width (f.conv.plain val).length := by
  unfold IntFormat.print IntConv.plain
  dsimp only
  split
  · rw [List.length_append, List.length_leftpad, List.length_append]
    omega
  · rw [List.length_leftpad]

theorem snprintf_ne_nil {format : List UInt8} {val : BitVec 64} {text : List UInt8}
    (h : snprintf format val = some text) : text ≠ [] := by
  rcases Option.map_eq_some_iff.mp h with ⟨f, _, hprint⟩
  have hlen := length_print f val
  have hplain := List.length_pos_iff.mpr (plain_ne_nil val f.conv)
  rw [hprint] at hlen
  apply List.ne_nil_of_length_pos
  omega

/-- Integers are printed with digits, signs and blanks. -/
theorem mem_print {f : IntFormat} {val : BitVec 64} {b : UInt8} (h : b ∈ f.print val) :
    b = '-'.toUInt8 ∨ b = ' '.toUInt8 ∨
      ∃ d < 16, b = d.digitChar.toUInt8 ∨ b = upperDigit d.digitChar.toUInt8 := by
  have hsign : ∀ c ∈ f.conv.sign val, c = '-'.toUInt8 := by
    intro c hc
    cases hconv : f.conv with
    | signed =>
        rw [hconv] at hc
        have hc' : c ∈ signOf val := hc
        unfold signOf at hc'
        split at hc'
        · exact List.mem_singleton.mp hc'
        · contradiction
    | unsigned =>
        rw [hconv] at hc
        contradiction
    | upperHex =>
        rw [hconv] at hc
        contradiction
  have hdigits : ∀ c ∈ f.conv.digits val,
      ∃ d < 16, c = d.digitChar.toUInt8 ∨ c = upperDigit d.digitChar.toUInt8 := by
    intro c hc
    have hdecimal : ∀ n, c ∈ numeral 10 n →
        ∃ d < 16, c = d.digitChar.toUInt8 ∨ c = upperDigit d.digitChar.toUInt8 := by
      intro n hn
      rcases digit_of_mem_numeral (by decide) (by decide) hn with ⟨d, hd, hcd⟩
      exact ⟨d, by omega, Or.inl hcd⟩
    cases hconv : f.conv with
    | signed =>
        rw [hconv] at hc
        exact hdecimal _ hc
    | unsigned =>
        rw [hconv] at hc
        exact hdecimal _ hc
    | upperHex =>
        rw [hconv] at hc
        rcases List.mem_map.mp hc with ⟨c', hc', rfl⟩
        rcases digit_of_mem_numeral (by decide) (by decide) hc' with ⟨d, hd, rfl⟩
        exact ⟨d, hd, Or.inr rfl⟩
  unfold IntFormat.print List.leftpad at h
  dsimp only at h
  split at h
  · rcases List.mem_append.mp h with hb | hb
    · exact Or.inl (hsign b hb)
    · rcases List.mem_append.mp hb with hb | hb
      · rw [List.eq_of_mem_replicate hb]
        exact Or.inr (Or.inr ⟨0, by decide, Or.inl rfl⟩)
      · exact Or.inr (Or.inr (hdigits b hb))
  · rcases List.mem_append.mp h with hb | hb
    · exact Or.inr (Or.inl (List.eq_of_mem_replicate hb))
    · rcases List.mem_append.mp hb with hb | hb
      · exact Or.inl (hsign b hb)
      · exact Or.inr (Or.inr (hdigits b hb))

/-- Without a sign behind zeros the number is padded as a whole. -/
theorem print_eq_leftpad (f : IntFormat) (val : BitVec 64)
    (h : f.zeroPad = true → f.conv.sign val = []) :
    f.print val = (f.conv.plain val).leftpad f.width
      (if f.zeroPad then '0'.toUInt8 else ' '.toUInt8) := by
  unfold IntFormat.print IntConv.plain
  dsimp only
  split
  · rename_i hzero
    rw [h hzero]
    rfl
  · rfl

/-- A number that is not shorter than the width is not padded. -/
theorem print_of_width_le {f : IntFormat} {val : BitVec 64}
    (h : f.width ≤ (f.conv.plain val).length) : f.print val = f.conv.plain val := by
  unfold IntConv.plain at h
  rw [List.length_append] at h
  unfold IntFormat.print IntConv.plain
  dsimp only
  split
  · rw [leftpad_of_length_le (by omega)]
  · rw [leftpad_of_length_le (by rw [List.length_append]; omega)]

/-! ## Output streams -/

/-- `std::ostringstream`: its text, the base of its integers, and the width and the fill
of what is inserted next. -/
structure OStream where
  text : List UInt8
  hex : Bool
  width : Nat
  fill : UInt8

def OStream.init : OStream where
  text := []
  hex := false
  width := 0
  fill := ' '.toUInt8

/-- What the stream makes of an integer, before it is padded. -/
def OStream.integer {w : Nat} (hex signed : Bool) (val : BitVec w) : List UInt8 :=
  if hex then numeral 16 val.toNat
  else if signed then signOf val ++ numeral 10 val.toInt.natAbs
  else numeral 10 val.toNat

/-- A formatted insertion pads to the width, which holds for one insertion. -/
def OStream.insert (item : List UInt8) (s : OStream) : OStream :=
  { s with text := s.text ++ item.leftpad s.width s.fill, width := 0 }

/-- The conversion for an integer of a stream. -/
def convOf (hex signed : Bool) : IntConv :=
  if hex then .upperHex else if signed then .signed else .unsigned

theorem map_foldCase_leftpad {w : Nat} {fill : UInt8} (hfill : foldCase fill = fill)
    (text : List UInt8) :
    (text.leftpad w fill).map foldCase = (text.map foldCase).leftpad w fill := by
  unfold List.leftpad
  rw [List.map_append, List.map_replicate, hfill, List.length_map]

theorem map_foldCase_signOf {w : Nat} (val : BitVec w) :
    (signOf val).map foldCase = signOf val := by
  unfold signOf
  split
  · rfl
  · rfl

/-- What a stream inserts is in lower case. -/
theorem map_foldCase_integer {w : Nat} (hex signed : Bool) (val : BitVec w) :
    (OStream.integer hex signed val).map foldCase = OStream.integer hex signed val := by
  unfold OStream.integer
  split
  · exact map_foldCase_numeral (by decide) (by decide) _
  · split
    · rw [List.map_append, map_foldCase_signOf, map_foldCase_numeral (by decide) (by decide)]
    · exact map_foldCase_numeral (by decide) (by decide) _

/-- Up to case a conversion gives what a stream inserts. -/
theorem map_foldCase_plain (hex signed : Bool) (val : BitVec 64) :
    ((convOf hex signed).plain val).map foldCase = OStream.integer hex signed val := by
  cases hex with
  | true =>
      show (([] : List UInt8) ++ (numeral 16 val.toNat).map upperDigit).map foldCase = _
      rw [List.nil_append, map_foldCase_upper]
      rfl
  | false =>
      cases signed with
      | true => exact map_foldCase_integer false true val
      | false => exact map_foldCase_integer false false val

/-! ## Both libraries -/

/-- The two fill characters that `snprintf` knows. -/
def fillByte (zeros : Bool) : UInt8 :=
  if zeros then '0'.toUInt8 else ' '.toUInt8

theorem foldCase_fillByte (zeros : Bool) : foldCase (fillByte zeros) = fillByte zeros := by
  cases zeros with
  | false => rfl
  | true => rfl

theorem digitValue_fillByte (zeros : Bool) : digitValue (fillByte zeros) = 0 := by
  cases zeros with
  | false => rfl
  | true => rfl

theorem length_plain (hex signed : Bool) (val : BitVec 64) :
    ((convOf hex signed).plain val).length = (OStream.integer hex signed val).length := by
  rw [← map_foldCase_plain, List.length_map]

theorem sign_convOf {hex signed : Bool} {val : BitVec 64}
    (h : ¬ (hex = false ∧ signed = true ∧ val.msb = true)) :
    (convOf hex signed).sign val = [] := by
  cases hex with
  | true => rfl
  | false =>
      cases signed with
      | false => rfl
      | true =>
          have hmsb : ¬ val.msb = true := fun hmsb => h ⟨rfl, rfl, hmsb⟩
          show signOf val = []
          unfold signOf
          rw [if_neg hmsb]

/-- A width of zero is not a width: the fill does not matter then. -/
theorem leftpad_flag (zeros : Bool) (w : Nat) (text : List UInt8) :
    text.leftpad w (if (decide (0 < w) && zeros) = true then '0'.toUInt8 else ' '.toUInt8) =
      text.leftpad w (fillByte zeros) := by
  cases w with
  | zero => rw [leftpad_of_length_le (Nat.zero_le _), leftpad_of_length_le (Nat.zero_le _)]
  | succ w =>
      cases zeros with
      | false => rfl
      | true => rfl

/-- What `snprintf` prints with the width and the fill of a stream. -/
def printed (zeros : Bool) (w : Nat) (hex signed : Bool) (val : BitVec 64) : List UInt8 :=
  IntFormat.print { zeroPad := decide (0 < w) && zeros, width := w, conv := convOf hex signed } val

theorem map_foldCase_printed {zeros : Bool} {w : Nat} {hex signed : Bool} {val : BitVec 64}
    (h : ¬ (zeros = true ∧ hex = false ∧ signed = true ∧ val.msb = true)) :
    (printed zeros w hex signed val).map foldCase =
      (OStream.integer hex signed val).leftpad w (fillByte zeros) := by
  have hsign : (decide (0 < w) && zeros) = true → (convOf hex signed).sign val = [] := by
    intro hzero
    apply sign_convOf
    exact fun hminus => h ⟨(Bool.and_eq_true _ _ ▸ hzero).2, hminus⟩
  unfold printed
  rw [print_eq_leftpad _ val hsign, leftpad_flag, map_foldCase_leftpad (foldCase_fillByte zeros),
    map_foldCase_plain]

/-- A negative number with zeros begins with its sign, and in a stream with a zero. -/
theorem printed_sign {w : Nat} {val : BitVec 64} (hmsb : val.msb = true)
    (hw : (OStream.integer false true val).length < w) :
    (printed true w false true val).map foldCase ≠
      (OStream.integer false true val).leftpad w (fillByte true) := by
  have hsign : signOf val = ['-'.toUInt8] := if_pos hmsb
  have hflag : (decide (0 < w) && true) = true := by
    rw [Bool.and_true, decide_eq_true_eq]
    omega
  have hleft : (printed true w false true val).map foldCase =
      '-'.toUInt8 :: ((numeral 10 val.toInt.natAbs).leftpad (w - 1) '0'.toUInt8).map foldCase := by
    unfold printed IntFormat.print
    dsimp only
    rw [hflag, if_pos rfl]
    show (signOf val ++ (numeral 10 val.toInt.natAbs).leftpad (w - (signOf val).length) _).map
      foldCase = _
    rw [hsign]
    rfl
  rcases Nat.exists_eq_succ_of_ne_zero (Nat.sub_ne_zero_of_lt hw) with ⟨k, hk⟩
  have hright : (OStream.integer false true val).leftpad w (fillByte true) =
      '0'.toUInt8 :: (List.replicate k '0'.toUInt8 ++ OStream.integer false true val) := by
    unfold List.leftpad
    rw [hk]
    rfl
  rw [hleft, hright]
  intro heq
  have hhead := (List.cons.inj heq).1
  contradiction

/-- When a number is printed as it is inserted into a stream: it fills the width, or the
stream has the same width and no sign goes in front of zeros. -/
theorem printed_eq_iff {zeros : Bool} {w pending : Nat} {hex signed : Bool} {val : BitVec 64}
    (hwidth : pending = w ∨ pending = 0) :
    (printed zeros w hex signed val).map foldCase =
        (OStream.integer hex signed val).leftpad pending (fillByte zeros) ↔
      w ≤ (OStream.integer hex signed val).length ∨
        pending = w ∧ ¬ (zeros = true ∧ hex = false ∧ signed = true ∧ val.msb = true) := by
  constructor
  · intro heq
    by_cases hfills : w ≤ (OStream.integer hex signed val).length
    · exact Or.inl hfills
    · have hlen := congrArg List.length heq
      unfold printed at hlen
      rw [List.length_map, length_print, length_plain, List.length_leftpad] at hlen
      dsimp only at hlen
      have hpending : pending = w := by omega
      rw [hpending] at heq
      refine Or.inr ⟨hpending, ?_⟩
      rintro ⟨hzeros, hhex, hsigned, hmsb⟩
      subst hzeros hhex hsigned
      exact printed_sign hmsb (Nat.lt_of_not_le hfills) heq
  · rintro (hfills | ⟨hpending, hsign⟩)
    · have hprint : printed zeros w hex signed val = (convOf hex signed).plain val :=
        print_of_width_le (by rw [length_plain]; exact hfills)
      have hpending : pending ≤ (OStream.integer hex signed val).length := by omega
      rw [hprint, map_foldCase_plain, leftpad_of_length_le hpending]
    · rw [hpending]
      exact map_foldCase_printed hsign

theorem toNat_extended (val : BitVec 32) :
    (val.signExtend 64).toNat = val.toNat + if val.msb then 2 ^ 64 - 2 ^ 32 else 0 := by
  have hlt : val.toNat < 2 ^ 64 := Nat.lt_trans val.isLt (by decide)
  rw [BitVec.toNat_signExtend, BitVec.toNat_setWidth, Nat.mod_eq_of_lt hlt]

/-- The sign extension of a number is inserted like the number, but for the negative
numbers in hexadecimal. -/
theorem integer_signExtend {hex : Bool} {val : BitVec 32}
    (h : ¬ (hex = true ∧ val.msb = true)) :
    OStream.integer hex true (val.signExtend 64) = OStream.integer hex true val := by
  cases hex with
  | true =>
      have hmsb : val.msb = false := Bool.eq_false_iff.mpr (fun hmsb => h ⟨rfl, hmsb⟩)
      show numeral 16 (val.signExtend 64).toNat = numeral 16 val.toNat
      rw [toNat_extended, hmsb]
      rfl
  | false =>
      have hsign : signOf (val.signExtend 64) = signOf val := by
        have hmsb : (val.signExtend 64).msb = val.msb := by
          rw [BitVec.msb_signExtend]
          rfl
        unfold signOf
        rw [hmsb]
      show signOf (val.signExtend 64) ++ numeral 10 (val.signExtend 64).toInt.natAbs = _
      rw [hsign, BitVec.toInt_signExtend_of_le (by decide)]
      rfl

/-- A negative number in hexadecimal has another value when it is extended. -/
theorem printed_signExtend {zeros : Bool} {w pending : Nat} {val : BitVec 32}
    (hmsb : val.msb = true) :
    (printed zeros w true true (val.signExtend 64)).map foldCase ≠
      (OStream.integer true true val).leftpad pending (fillByte zeros) := by
  have hvalue : ∀ (n v : Nat),
      numeralValue 16 ((numeral 16 n).leftpad v (fillByte zeros)) = n := by
    intro n v
    rw [numeralValue_leftpad 16 v (digitValue_fillByte zeros),
      numeralValue_numeral (by decide) (by decide)]
  have hunsigned : ¬ (zeros = true ∧ true = false ∧ true = true ∧
      (val.signExtend 64).msb = true) :=
    fun h => Bool.noConfusion h.2.1
  rw [map_foldCase_printed hunsigned]
  intro heq
  have hnumbers := congrArg (numeralValue 16) heq
  have hleft := hvalue (val.signExtend 64).toNat w
  have hright := hvalue val.toNat pending
  have hsame : (val.signExtend 64).toNat = val.toNat :=
    hleft.symm.trans (hnumbers.trans hright)
  rw [toNat_extended, if_pos hmsb] at hsame
  omega

end Foundation
end DtCore
