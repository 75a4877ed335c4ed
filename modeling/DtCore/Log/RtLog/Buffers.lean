import DtCore.Foundation.Checked
import DtCore.Log.RtLog.Stream

/-!
# The buffers of the stream objects

The stream objects once more, now with `m_buf` as 1024 bytes of memory and `m_pos` as an index
into it.  A write outside of an array and a subtraction of unsigned numbers below zero are
errors, and a call that makes one has no result.

The three classes are `LogRtStream`, `NamedLogRtStream` and `LogRtContStream`; they have the
same code, but for `printf`, and only the first one has insertions for vectors of Eigen and of
`dt::Math`.  `snprintf` is a parameter that writes at most as many bytes as it is given.  The
name in a `NamedLogRtStream` is left out.

Main definitions:

- `CLib`: `snprintf`.
- `StreamBuf`: an object of one of the classes.
- `StreamBuf.apply`: a stream operation.
- `Grows`: an operation leaves the bytes in front of the position alone.

Main results:

- Theorem `apply_grows`: every operation at every fill level.
- Theorem `buffers_never_overflow`: the same along every run from the constructor.
-/

namespace DtCore
namespace Log
namespace RtLog
namespace Buffers

open Foundation

/-! ## snprintf -/

/-- An argument of a format. -/
inductive Arg where
  | pointer (value : BitVec 64)
  | longLong (value : BitVec 64)
  | unsignedLongLong (value : BitVec 64)
  | double (value : BitVec 64)
  | string (value : List UInt8)

/-- `snprintf`: the text that a format stands for, unless there is an error, and the bytes that
are written when it is given some size. -/
structure CLib where
  text : List UInt8 → List Arg → Option (List UInt8)
  written : List UInt8 → List Arg → Nat → List UInt8
  length_written : ∀ format args size, (written format args size).length ≤ size

/-- The length of the whole text, or a negative number. -/
def CLib.result (C : CLib) (format : List UInt8) (args : List Arg) : Int :=
  match C.text format args with
  | some text => text.length
  | none => -1

/-! ## The objects -/

/-- The members of an object. -/
structure StreamBuf where
  active : Bool
  submitted : Bool
  pos : Nat
  buf : Block UInt8 rtMsgLen
  hexMode : Bool
  width : Int
  fillChar : UInt8

/-- A subtraction of unsigned numbers. -/
def unsignedSub (a b : Nat) : Option Nat :=
  if b ≤ a then some (a - b) else none

/-- `memcpy(m_buf + m_pos, …)`. -/
def StreamBuf.write (data : List UInt8) (s : StreamBuf) : Option StreamBuf :=
  (s.buf.copyIn s.pos data).map (fun buf => { s with buf := buf })

/-- `m_pos += n`. -/
def StreamBuf.advance (n : Nat) (s : StreamBuf) : StreamBuf :=
  { s with pos := s.pos + n }

/-- `m_buf[m_pos++] = c`. -/
def StreamBuf.putc (c : UInt8) (s : StreamBuf) : Option StreamBuf :=
  (s.write [c]).map (StreamBuf.advance 1)

/-- `m_buf[m_pos] = '\0'`. -/
def StreamBuf.terminate (s : StreamBuf) : Option StreamBuf :=
  s.write [0]

/-- The constructors; the array holds anything before. -/
def StreamBuf.construct (active : Bool) (memory : Block UInt8 rtMsgLen) : Option StreamBuf :=
  StreamBuf.terminate
    { active := active
      submitted := false
      pos := 0
      buf := memory
      hexMode := false
      width := 0
      fillChar := ' '.toUInt8 }

/-- `Append`. -/
def StreamBuf.append (src : List UInt8) (s : StreamBuf) : Option StreamBuf := do
  let avail ← unsignedSub (rtMsgLen - 1) s.pos
  let copy := if src.length < avail then src.length else avail
  let s ← s.write (src.take copy)
  (s.advance copy).terminate

/-- `AddTruncation`. -/
def StreamBuf.addTruncation (s : StreamBuf) : Option StreamBuf :=
  if s.pos + 3 < rtMsgLen then do
    let s ← s.putc '.'.toUInt8
    let s ← s.putc '.'.toUInt8
    let s ← s.putc '.'.toUInt8
    s.terminate
  else some s

/-- `AddSeparator`. -/
def StreamBuf.addSeparator (s : StreamBuf) : Option (Bool × StreamBuf) :=
  if s.pos + 2 < rtMsgLen then do
    let s ← s.putc ','.toUInt8
    let s ← s.putc ' '.toUInt8
    some (true, s)
  else some (false, s)

/-- `CloseArray`. -/
def StreamBuf.closeArray (s : StreamBuf) : Option StreamBuf :=
  if s.pos + 1 < rtMsgLen then do
    let s ← s.putc ']'.toUInt8
    s.terminate
  else some s

/-! ## Formatted elements -/

/-- `snprintf(&m_buf[m_pos], BUF_LEN - m_pos, …)`. -/
def StreamBuf.snprintf (C : CLib) (format : List UInt8) (args : List Arg) (s : StreamBuf) :
    Option (Int × StreamBuf) := do
  let size ← unsignedSub rtMsgLen s.pos
  let s ← s.write (C.written format args size)
  some (C.result format args, s)

/-- `sizeof(fmtbuf)`. -/
def fmtbufLen : Nat := 20

/-- `*p++ = …` for some bytes, from the index `p` on. -/
def emit : List UInt8 → Nat → Block UInt8 fmtbufLen → Option (Block UInt8 fmtbufLen)
  | [], _, fmtbuf => some fmtbuf
  | c :: cs, p, fmtbuf => (fmtbuf.copyIn p [c]).bind (emit cs (p + 1))

/-- The format that `FormatIntState` builds in `fmtbuf`, and the null byte behind it. -/
def buildFormat (format : List UInt8) (fmtbuf : Block UInt8 fmtbufLen) :
    Option (Block UInt8 fmtbufLen) :=
  emit (format ++ [0]) 0 fmtbuf

/-- The argument that `FormatIntState` prints. -/
def intArg (hexMode isSigned : Bool) (val : BitVec 64) : Arg :=
  if hexMode || !isSigned then .unsignedLongLong val else .longLong val

/-- `FormatIntState`. -/
def StreamBuf.formatIntState (C : CLib) (val : BitVec 64) (isSigned : Bool) (s : StreamBuf) :
    Option (Int × StreamBuf) := do
  let format := stateFormat s.hexMode s.width s.fillChar isSigned
  let fmtbuf ← buildFormat format (Block.fill 0)
  StreamBuf.snprintf C (RtLog.cString fmtbuf.cells) [intArg s.hexMode isSigned val]
    { s with width := 0 }

/-- The types that `FormatElement` tells apart. -/
inductive Value where
  | pointer (value : BitVec 64)
  | enumeration (value : BitVec 64)
  | bool (b : Bool)
  | floating (value : BitVec 64)
  | signed (value : BitVec 64)
  | unsigned (value : BitVec 64)

def literal (text : String) : List UInt8 :=
  text.toList.map Char.toUInt8

/-- The call of `snprintf` for an element. -/
def StreamBuf.printElement (C : CLib) (s : StreamBuf) : Value → Option (Int × StreamBuf)
  | .pointer value => s.snprintf C (literal "%p") [.pointer value]
  | .enumeration value => s.snprintf C (literal "%lld") [.longLong value]
  | .bool b => s.snprintf C (literal "%s") [.string (literal (if b then "true" else "false"))]
  | .floating value => s.snprintf C (literal "%.6f") [.double value]
  | .signed value => s.formatIntState C value true
  | .unsigned value => s.formatIntState C value false

/-- What `FormatElement` makes of the result of `snprintf`. -/
def StreamBuf.accept (written : Int) (s : StreamBuf) : Option (Bool × StreamBuf) := do
  let size ← unsignedSub rtMsgLen s.pos
  if written < 0 ∨ written ≥ size then some (false, s)
  else
    let s := s.advance written.toNat
    if s.pos < rtMsgLen then s.terminate.map (fun s => (true, s)) else some (true, s)

/-- `FormatElement`. -/
def StreamBuf.formatElement (C : CLib) (v : Value) (s : StreamBuf) :
    Option (Bool × StreamBuf) :=
  if s.pos + 10 ≥ rtMsgLen then some (false, s)
  else (s.printElement C v).bind (fun r => r.2.accept r.1)

/-- The loop over the elements of a vector. -/
def StreamBuf.formatElements (C : CLib) (count : Nat) :
    Nat → List Value → StreamBuf → Option StreamBuf
  | _, [], s => some s
  | i, v :: rest, s => do
      let (formatted, s) ← s.formatElement C v
      if formatted then
        let last ← unsignedSub count 1
        if i ≠ last then
          let (separated, s) ← s.addSeparator
          if separated then StreamBuf.formatElements C count (i + 1) rest s else some s
        else StreamBuf.formatElements C count (i + 1) rest s
      else s.addTruncation

/-- `operator<<` for the vectors of the standard library, of Eigen and of `dt::Math`. -/
def StreamBuf.insertVector (C : CLib) (vs : List Value) (s : StreamBuf) : Option StreamBuf :=
  if s.pos + 1 ≥ rtMsgLen then some s
  else do
    let s ← s.putc '['.toUInt8
    let s ← StreamBuf.formatElements C vs.length 0 vs s
    s.closeArray

/-- The loop over a vector of vectors. -/
def StreamBuf.insertVectorsLoop (C : CLib) (count : Nat) :
    Nat → List (List Value) → StreamBuf → Option StreamBuf
  | _, [], s => some s
  | i, vs :: rest, s => do
      let s ← s.insertVector C vs
      let last ← unsignedSub count 1
      if i ≠ last then
        let (separated, s) ← s.addSeparator
        if separated then StreamBuf.insertVectorsLoop C count (i + 1) rest s else some s
      else StreamBuf.insertVectorsLoop C count (i + 1) rest s

/-- `operator<<` for a vector of Eigen vectors. -/
def StreamBuf.insertVectors (C : CLib) (vss : List (List Value)) (s : StreamBuf) :
    Option StreamBuf :=
  if s.pos + 1 ≥ rtMsgLen then some s
  else do
    let s ← s.putc '['.toUInt8
    let s ← StreamBuf.insertVectorsLoop C vss.length 0 vss s
    s.closeArray

/-! ## The operations -/

/-- The classes. -/
inductive StreamClass where
  | logRtStream
  | namedLogRtStream
  | logRtContStream
deriving DecidableEq

/-- The overloads of `operator<<`, `printf` and `format`. -/
inductive Op where
  | value (v : Value)
  | vector (vs : List Value)
  | vectors (vss : List (List Value))
  | cString (str : Option (List UInt8))
  | string (str : List UInt8)
  | char (c : UInt8)
  | hex
  | dec
  | otherManipulator
  | setw (n : Int)
  | setfill (c : UInt8)
  | printf (fmt : Option (List UInt8)) (args : List Arg)
  | format

/-- `operator<<` for a number, a pointer or an enumeration. -/
def StreamBuf.insertValue (C : CLib) (v : Value) (s : StreamBuf) : Option StreamBuf :=
  (s.formatElement C v).bind (fun r => if r.1 then some r.2 else r.2.addTruncation)

/-- `operator<<` for a character. -/
def StreamBuf.insertChar (c : UInt8) (s : StreamBuf) : Option StreamBuf :=
  if s.pos + 1 < rtMsgLen then (s.putc c).bind StreamBuf.terminate else some s

/-- `LogRtContStream::printf`. -/
def StreamBuf.contPrintf (C : CLib) (fmt : List UInt8) (args : List Arg) (s : StreamBuf) :
    Option StreamBuf := do
  let avail ← unsignedSub rtMsgLen s.pos
  if avail = 0 then some s
  else
    let s ← s.write (C.written fmt args avail)
    let n := C.result fmt args
    let room ← unsignedSub avail 1
    (if n > 0 then s.advance (min n.toNat room) else s).terminate

/-- `printf`; two of the classes format into an entry of the queue. -/
def StreamBuf.printf (C : CLib) (cls : StreamClass) (fmt : List UInt8) (args : List Arg)
    (s : StreamBuf) : Option StreamBuf :=
  match cls with
  | .logRtStream | .namedLogRtStream => some { s with submitted := true }
  | .logRtContStream => s.contPrintf C fmt args

/-- An operation on an active object. -/
def StreamBuf.applied (C : CLib) (cls : StreamClass) (s : StreamBuf) : Op → Option StreamBuf
  | .value v => s.insertValue C v
  | .vector vs => s.insertVector C vs
  | .vectors vss => s.insertVectors C vss
  | .cString none => some s
  | .cString (some str) => s.append ((RtLog.cString str).take rtMsgLen)
  | .string str => s.append str
  | .char c => s.insertChar c
  | .hex => some { s with hexMode := true }
  | .dec => some { s with hexMode := false }
  | .otherManipulator => some s
  | .setw n => some { s with width := n }
  | .setfill c => some { s with fillChar := c }
  | .printf none _ => some s
  | .printf (some fmt) args => s.printf C cls fmt args
  | .format => some { s with submitted := true }

/-- An operation; an object that is not active ignores it. -/
def StreamBuf.apply (C : CLib) (cls : StreamClass) (s : StreamBuf) (o : Op) :
    Option StreamBuf :=
  if s.active then s.applied C cls o else some s

/-- Some operations, one after the other. -/
def StreamBuf.run (C : CLib) (cls : StreamClass) : List Op → StreamBuf → Option StreamBuf
  | [], s => some s
  | o :: os, s => (s.apply C cls o).bind (StreamBuf.run C cls os)

/-- The position is inside the array, it only goes forward, and the bytes in front of it stay
as they are. -/
structure Grows (s t : StreamBuf) : Prop where
  le : s.pos ≤ t.pos
  lt : t.pos < rtMsgLen
  kept : t.buf.cells.take s.pos = s.buf.cells.take s.pos

theorem Grows.refl {s : StreamBuf} (h : s.pos < rtMsgLen) : Grows s s :=
  ⟨Nat.le_refl _, h, rfl⟩

theorem Grows.trans {s t u : StreamBuf} (h : Grows s t) (h' : Grows t u) : Grows s u where
  le := Nat.le_trans h.le h'.le
  lt := h'.lt
  kept := by
    have hmore := congrArg (List.take s.pos) h'.kept
    rw [List.take_take, List.take_take, Nat.min_eq_left h.le] at hmore
    exact hmore.trans h.kept

/-- What grows from a later state grows from an earlier one. -/
theorem Grows.before {s t : StreamBuf} (h : Grows s t) {o : Option StreamBuf}
    (ho : Ensures (Grows t) o) : Ensures (Grows s) o :=
  ho.imp (fun _ hu => h.trans hu)

/-- One step and the rest of an operation. -/
theorem grows_bind {s : StreamBuf} {o : Option StreamBuf} {f : StreamBuf → Option StreamBuf}
    (h : Ensures (Grows s) o) (hf : ∀ t, Grows s t → Ensures (Grows t) (f t)) :
    Ensures (Grows s) (o.bind f) :=
  h.bind (fun t ht => ht.before (hf t ht))

/-- A step with a flag or a number, and the rest of an operation. -/
theorem grows_bind_with {β : Type} {s : StreamBuf} {o : Option (β × StreamBuf)}
    {f : β × StreamBuf → Option StreamBuf} (h : Ensures (fun r => Grows s r.2) o)
    (hf : ∀ r, Grows s r.2 → Ensures (Grows r.2) (f r)) : Ensures (Grows s) (o.bind f) :=
  h.bind (fun r hr => hr.before (hf r hr))

theorem unsignedSub_spec {a b : Nat} (h : b ≤ a) :
    Ensures (fun n => n = a - b) (unsignedSub a b) :=
  ⟨a - b, if_pos h, rfl⟩

variable {s : StreamBuf}

/-- A write that has room. -/
theorem write_grows {data : List UInt8} (h : s.pos + data.length ≤ rtMsgLen)
    (hlt : s.pos < rtMsgLen) :
    Ensures (fun t => Grows s t ∧ t.pos = s.pos) (s.write data) := by
  refine (ensures_of_exists (s.buf.copyIn_isSome h)).map (fun buf hbuf => ?_)
  exact ⟨⟨Nat.le_refl _, hlt, Block.take_of_copyIn hbuf⟩, rfl⟩

/-- A step forward inside the array. -/
theorem advance_grows {n : Nat} (h : s.pos + n < rtMsgLen) : Grows s (s.advance n) :=
  ⟨Nat.le_add_right _ _, h, rfl⟩

theorem terminate_grows (h : s.pos < rtMsgLen) : Ensures (Grows s) s.terminate :=
  (write_grows (by exact h) h).imp (fun _ ht => ht.1)

theorem putc_grows (c : UInt8) (h : s.pos + 1 < rtMsgLen) :
    Ensures (fun t => Grows s t ∧ t.pos = s.pos + 1) (s.putc c) := by
  refine (@write_grows s [c] (Nat.le_of_lt h) (Nat.lt_of_succ_lt h)).map (fun t ht => ?_)
  have hstep : t.pos + 1 < rtMsgLen := by omega
  exact ⟨ht.1.trans (advance_grows hstep), congrArg (· + 1) ht.2⟩

theorem append_grows (src : List UInt8) (h : s.pos < rtMsgLen) :
    Ensures (Grows s) (s.append src) := by
  unfold StreamBuf.append
  refine (unsignedSub_spec (by omega)).bind (fun avail havail => ?_)
  have hcopy : (if src.length < avail then src.length else avail) ≤ avail := by
    split <;> omega
  dsimp only
  generalize (if src.length < avail then src.length else avail) = copy at hcopy ⊢
  have hlen : (src.take copy).length ≤ copy := List.length_take_le _ _
  refine (write_grows (by omega) h).bind (fun t ht => ?_)
  have hstep : t.pos + copy < rtMsgLen := by omega
  exact (ht.1.trans (advance_grows hstep)).before (terminate_grows hstep)

theorem addTruncation_grows (h : s.pos < rtMsgLen) : Ensures (Grows s) s.addTruncation := by
  unfold StreamBuf.addTruncation
  by_cases hroom : s.pos + 3 < rtMsgLen
  · rw [if_pos hroom]
    refine (putc_grows '.'.toUInt8 (by omega)).bind (fun t₁ h₁ => ?_)
    refine (putc_grows '.'.toUInt8 (by omega)).bind (fun t₂ h₂ => ?_)
    refine (putc_grows '.'.toUInt8 (by omega)).bind (fun t₃ h₃ => ?_)
    exact ((h₁.1.trans h₂.1).trans h₃.1).before (terminate_grows h₃.1.lt)
  · rw [if_neg hroom]
    exact ensures_some (Grows.refl h)

theorem addSeparator_grows (h : s.pos < rtMsgLen) :
    Ensures (fun r : Bool × StreamBuf => Grows s r.2) s.addSeparator := by
  unfold StreamBuf.addSeparator
  by_cases hroom : s.pos + 2 < rtMsgLen
  · rw [if_pos hroom]
    refine (putc_grows ','.toUInt8 (by omega)).bind (fun t₁ h₁ => ?_)
    refine (putc_grows ' '.toUInt8 (by omega)).bind (fun t₂ h₂ => ?_)
    exact ensures_some (h₁.1.trans h₂.1)
  · rw [if_neg hroom]
    exact ensures_some (Grows.refl h)

theorem closeArray_grows (h : s.pos < rtMsgLen) : Ensures (Grows s) s.closeArray := by
  unfold StreamBuf.closeArray
  by_cases hroom : s.pos + 1 < rtMsgLen
  · rw [if_pos hroom]
    exact (putc_grows ']'.toUInt8 hroom).bind (fun t ht => ht.1.before (terminate_grows ht.1.lt))
  · rw [if_neg hroom]
    exact ensures_some (Grows.refl h)

/-! ## Formatted elements -/

variable (C : CLib)

/-- The bytes that `snprintf` writes stay inside the array, and the position stays. -/
theorem snprintf_grows (format : List UInt8) (args : List Arg) (h : s.pos < rtMsgLen) :
    Ensures (fun r : Int × StreamBuf => Grows s r.2) (s.snprintf C format args) := by
  unfold StreamBuf.snprintf
  refine (unsignedSub_spec (Nat.le_of_lt h)).bind (fun size hsize => ?_)
  have hlen := C.length_written format args size
  refine (write_grows (by omega) h).bind (fun t ht => ?_)
  exact ensures_some ht.1

theorem emit_isSome (cs : List UInt8) {p : Nat} (h : p + cs.length ≤ fmtbufLen)
    (fmtbuf : Block UInt8 fmtbufLen) : ∃ fmtbuf', emit cs p fmtbuf = some fmtbuf' := by
  induction cs generalizing p fmtbuf with
  | nil => exact ⟨fmtbuf, rfl⟩
  | cons c cs ih =>
      rw [List.length_cons] at h
      rcases @Block.copyIn_isSome _ _ fmtbuf p [c] (by rw [List.length_singleton]; omega) with
        ⟨fmtbuf₁, hcopy⟩
      rcases ih (by omega : p + 1 + cs.length ≤ fmtbufLen) fmtbuf₁ with ⟨fmtbuf₂, hrest⟩
      refine ⟨fmtbuf₂, ?_⟩
      unfold emit
      rw [hcopy]
      exact hrest

/-- At most eight bytes, whatever the width. -/
theorem length_stateFormat_le (hexMode : Bool) (w : Int) (fillChar : UInt8) (isSigned : Bool) :
    (stateFormat hexMode w fillChar isSigned).length ≤ 8 := by
  have hdigits : (widthDigits w).length ≤ 3 := by
    unfold widthDigits
    split
    · exact Nat.le_refl 3
    · split
      · exact Nat.le_succ 2
      · split
        · exact Nat.le_add_left 1 2
        · exact Nat.zero_le 3
  have hzero : (if w > 0 ∧ fillChar = '0'.toUInt8 then ['0'.toUInt8] else []).length ≤ 1 := by
    split
    · exact Nat.le_refl 1
    · exact Nat.zero_le 1
  unfold stateFormat
  simp only [List.length_cons, List.length_append, List.length_nil]
  omega

/-- The format fits into its 20 bytes. -/
theorem buildFormat_isSome (hexMode : Bool) (w : Int) (fillChar : UInt8) (isSigned : Bool)
    (fmtbuf : Block UInt8 fmtbufLen) :
    ∃ fmtbuf', buildFormat (stateFormat hexMode w fillChar isSigned) fmtbuf = some fmtbuf' := by
  have hle := length_stateFormat_le hexMode w fillChar isSigned
  refine emit_isSome _ ?_ fmtbuf
  rw [List.length_append, List.length_singleton]
  unfold fmtbufLen
  omega

theorem formatIntState_grows (val : BitVec 64) (isSigned : Bool) (h : s.pos < rtMsgLen) :
    Ensures (fun r : Int × StreamBuf => Grows s r.2) (s.formatIntState C val isSigned) := by
  have hformat := buildFormat_isSome s.hexMode s.width s.fillChar isSigned (Block.fill 0)
  refine (ensures_of_exists hformat).bind (fun fmtbuf _ => ?_)
  have hprint := @snprintf_grows { s with width := 0 } C (RtLog.cString fmtbuf.cells)
    [intArg s.hexMode isSigned val] h
  exact hprint.imp (fun r hr => ⟨hr.le, hr.lt, hr.kept⟩)

theorem printElement_grows (v : Value) (h : s.pos < rtMsgLen) :
    Ensures (fun r : Int × StreamBuf => Grows s r.2) (s.printElement C v) := by
  cases v with
  | pointer value => exact snprintf_grows C _ _ h
  | enumeration value => exact snprintf_grows C _ _ h
  | bool b => exact snprintf_grows C _ _ h
  | floating value => exact snprintf_grows C _ _ h
  | signed value => exact formatIntState_grows C value true h
  | unsigned value => exact formatIntState_grows C value false h

/-- The position goes forward only when the whole text was written. -/
theorem accept_grows (written : Int) (h : s.pos < rtMsgLen) :
    Ensures (fun r : Bool × StreamBuf => Grows s r.2) (s.accept written) := by
  unfold StreamBuf.accept
  refine (unsignedSub_spec (Nat.le_of_lt h)).bind (fun size hsize => ?_)
  by_cases hfail : written < 0 ∨ written ≥ size
  · rw [if_pos hfail]
    exact ensures_some (Grows.refl h)
  · rw [if_neg hfail]
    have hstep : s.pos + written.toNat < rtMsgLen := by omega
    have hinside : (s.advance written.toNat).pos < rtMsgLen := hstep
    dsimp only
    rw [if_pos hinside]
    exact (terminate_grows hinside).map (fun t ht => (advance_grows hstep).trans ht)

theorem formatElement_grows (v : Value) (h : s.pos < rtMsgLen) :
    Ensures (fun r : Bool × StreamBuf => Grows s r.2) (s.formatElement C v) := by
  unfold StreamBuf.formatElement
  by_cases hfull : s.pos + 10 ≥ rtMsgLen
  · rw [if_pos hfull]
    exact ensures_some (Grows.refl h)
  · rw [if_neg hfull]
    refine (printElement_grows C v h).bind (fun r hr => ?_)
    exact (accept_grows r.1 hr.lt).imp (fun r' hr' => hr.trans hr')

/-- The loop over the elements: the index is below the number of elements, so that the number
less one is one of them. -/
theorem formatElements_grows {count i : Nat} (vs : List Value) (hcount : count = i + vs.length)
    (h : s.pos < rtMsgLen) : Ensures (Grows s) (StreamBuf.formatElements C count i vs s) := by
  induction vs generalizing i s with
  | nil => exact ensures_some (Grows.refl h)
  | cons v rest ih =>
      rw [List.length_cons] at hcount
      have hcount' : count = i + 1 + rest.length := by omega
      have hpos : 1 ≤ count := by omega
      unfold StreamBuf.formatElements
      refine grows_bind_with (formatElement_grows C v h) (fun r hr => ?_)
      rcases r with ⟨formatted, t₁⟩
      cases formatted with
      | false => exact addTruncation_grows hr.lt
      | true =>
          refine (unsignedSub_spec hpos).bind (fun last _ => ?_)
          by_cases hlast : i ≠ last
          · rw [if_pos hlast]
            refine grows_bind_with (addSeparator_grows hr.lt) (fun r' hr' => ?_)
            rcases r' with ⟨separated, t₂⟩
            cases separated with
            | false => exact ensures_some (Grows.refl hr'.lt)
            | true => exact ih hcount' hr'.lt
          · rw [if_neg hlast]
            exact ih hcount' hr.lt

theorem insertVector_grows (vs : List Value) (h : s.pos < rtMsgLen) :
    Ensures (Grows s) (s.insertVector C vs) := by
  unfold StreamBuf.insertVector
  by_cases hfull : s.pos + 1 ≥ rtMsgLen
  · rw [if_pos hfull]
    exact ensures_some (Grows.refl h)
  · rw [if_neg hfull]
    have hopen := (putc_grows '['.toUInt8 (Nat.lt_of_not_le hfull)).imp (fun _ ht => ht.1)
    refine grows_bind hopen (fun t₁ h₁ => ?_)
    refine grows_bind (formatElements_grows C vs (Nat.zero_add _).symm h₁.lt) (fun t₂ h₂ => ?_)
    exact closeArray_grows h₂.lt

theorem insertVectorsLoop_grows {count i : Nat} (vss : List (List Value))
    (hcount : count = i + vss.length) (h : s.pos < rtMsgLen) :
    Ensures (Grows s) (StreamBuf.insertVectorsLoop C count i vss s) := by
  induction vss generalizing i s with
  | nil => exact ensures_some (Grows.refl h)
  | cons vs rest ih =>
      rw [List.length_cons] at hcount
      have hcount' : count = i + 1 + rest.length := by omega
      have hpos : 1 ≤ count := by omega
      unfold StreamBuf.insertVectorsLoop
      refine grows_bind (insertVector_grows C vs h) (fun t₁ h₁ => ?_)
      refine (unsignedSub_spec hpos).bind (fun last _ => ?_)
      by_cases hlast : i ≠ last
      · rw [if_pos hlast]
        refine grows_bind_with (addSeparator_grows h₁.lt) (fun r hr => ?_)
        rcases r with ⟨separated, t₂⟩
        cases separated with
        | false => exact ensures_some (Grows.refl hr.lt)
        | true => exact ih hcount' hr.lt
      · rw [if_neg hlast]
        exact ih hcount' h₁.lt

theorem insertVectors_grows (vss : List (List Value)) (h : s.pos < rtMsgLen) :
    Ensures (Grows s) (s.insertVectors C vss) := by
  unfold StreamBuf.insertVectors
  by_cases hfull : s.pos + 1 ≥ rtMsgLen
  · rw [if_pos hfull]
    exact ensures_some (Grows.refl h)
  · rw [if_neg hfull]
    have hopen := (putc_grows '['.toUInt8 (Nat.lt_of_not_le hfull)).imp (fun _ ht => ht.1)
    refine grows_bind hopen (fun t₁ h₁ => ?_)
    refine grows_bind (insertVectorsLoop_grows C vss (Nat.zero_add _).symm h₁.lt)
      (fun t₂ h₂ => ?_)
    exact closeArray_grows h₂.lt

/-! ## The operations -/

theorem insertValue_grows (v : Value) (h : s.pos < rtMsgLen) :
    Ensures (Grows s) (s.insertValue C v) := by
  unfold StreamBuf.insertValue
  refine grows_bind_with (formatElement_grows C v h) (fun r hr => ?_)
  rcases r with ⟨formatted, t⟩
  cases formatted with
  | true => exact ensures_some (Grows.refl hr.lt)
  | false => exact addTruncation_grows hr.lt

theorem insertChar_grows (c : UInt8) (h : s.pos < rtMsgLen) :
    Ensures (Grows s) (s.insertChar c) := by
  unfold StreamBuf.insertChar
  by_cases hroom : s.pos + 1 < rtMsgLen
  · rw [if_pos hroom]
    exact (putc_grows c hroom).bind (fun t ht => ht.1.before (terminate_grows ht.1.lt))
  · rw [if_neg hroom]
    exact ensures_some (Grows.refl h)

/-- `printf` goes forward by what was written without the null byte. -/
theorem contPrintf_grows (fmt : List UInt8) (args : List Arg) (h : s.pos < rtMsgLen) :
    Ensures (Grows s) (s.contPrintf C fmt args) := by
  unfold StreamBuf.contPrintf
  refine (unsignedSub_spec (Nat.le_of_lt h)).bind (fun avail havail => ?_)
  have hnot : ¬ avail = 0 := by omega
  have hlen := C.length_written fmt args avail
  rw [if_neg hnot]
  refine (write_grows (by omega) h).bind (fun t ht => ?_)
  refine (unsignedSub_spec (by omega : 1 ≤ avail)).bind (fun room hroom => ?_)
  split
  · have hstep : t.pos + min (C.result fmt args).toNat room < rtMsgLen := by omega
    exact (ht.1.trans (advance_grows hstep)).before (terminate_grows hstep)
  · exact ht.1.before (terminate_grows ht.1.lt)

/-- Every operation, at every fill level. -/
theorem apply_grows (cls : StreamClass) (o : Op) (h : s.pos < rtMsgLen) :
    Ensures (Grows s) (s.apply C cls o) := by
  have hstill : ∀ t : StreamBuf, t.pos = s.pos → t.buf = s.buf → Grows s t := by
    intro t hpos hbuf
    exact ⟨Nat.le_of_eq hpos.symm, hpos ▸ h, by rw [hbuf]⟩
  unfold StreamBuf.apply
  by_cases hactive : s.active = true
  · rw [if_pos hactive]
    cases o with
    | value v => exact insertValue_grows C v h
    | vector vs => exact insertVector_grows C vs h
    | vectors vss => exact insertVectors_grows C vss h
    | cString str =>
        cases str with
        | none => exact ensures_some (Grows.refl h)
        | some str => exact append_grows _ h
    | string str => exact append_grows str h
    | char c => exact insertChar_grows c h
    | hex => exact ensures_some (hstill _ rfl rfl)
    | dec => exact ensures_some (hstill _ rfl rfl)
    | otherManipulator => exact ensures_some (Grows.refl h)
    | setw n => exact ensures_some (hstill _ rfl rfl)
    | setfill c => exact ensures_some (hstill _ rfl rfl)
    | printf fmt args =>
        cases fmt with
        | none => exact ensures_some (Grows.refl h)
        | some fmt =>
            cases cls with
            | logRtStream => exact ensures_some (hstill _ rfl rfl)
            | namedLogRtStream => exact ensures_some (hstill _ rfl rfl)
            | logRtContStream => exact contPrintf_grows C fmt args h
    | format => exact ensures_some (hstill _ rfl rfl)
  · rw [if_neg hactive]
    exact ensures_some (Grows.refl h)

theorem run_grows (cls : StreamClass) (os : List Op) (h : s.pos < rtMsgLen) :
    Ensures (Grows s) (StreamBuf.run C cls os s) := by
  induction os generalizing s with
  | nil => exact ensures_some (Grows.refl h)
  | cons o os ih => exact grows_bind (apply_grows C cls o h) (fun t ht => ih ht.lt)

/-- Along every run from the constructor nothing leaves an array and no subtraction goes below
zero, the position stays below `BUF_LEN`, and the next operation leaves the bytes in front of
the position alone. -/
theorem buffers_never_overflow (C : CLib) (cls : StreamClass) (active : Bool)
    (memory : Block UInt8 rtMsgLen) (os : List Op) :
    ∃ s, (StreamBuf.construct active memory).bind (StreamBuf.run C cls os) = some s ∧
      s.pos ≤ rtMsgLen - 1 ∧
      ∀ o, ∃ t, s.apply C cls o = some t ∧ s.pos ≤ t.pos ∧ t.pos ≤ rtMsgLen - 1 ∧
        t.buf.cells.take s.pos = s.buf.cells.take s.pos := by
  have hzero : 0 < rtMsgLen := by decide
  have hstart : ∃ s₀, StreamBuf.construct active memory = some s₀ ∧ s₀.pos < rtMsgLen := by
    rcases @terminate_grows
      { active := active
        submitted := false
        pos := 0
        buf := memory
        hexMode := false
        width := 0
        fillChar := ' '.toUInt8 } hzero with ⟨s₀, hfirst, hgrows⟩
    exact ⟨s₀, hfirst, hgrows.lt⟩
  rcases hstart with ⟨s₀, hfirst, hlt⟩
  rcases run_grows C cls os hlt with ⟨s, hrun, hgrows⟩
  refine ⟨s, ?_, Nat.le_sub_one_of_lt hgrows.lt, ?_⟩
  · rw [hfirst]
    exact hrun
  · intro o
    rcases apply_grows C cls o hgrows.lt with ⟨t, hop, hnext⟩
    exact ⟨t, hop, hnext.le, Nat.le_sub_one_of_lt hnext.lt, hnext.kept⟩

/-- The library that prints one text or one number of the type `long long`: as much of the
text as there is room for, and a null byte behind it. -/
def printfOne : CLib where
  text := textOf
  written format args size := ((textOf format args).getD []).take (size - 1) ++ [0].take size
  length_written format args size := by
    rw [List.length_append, List.length_take, List.length_take, List.length_singleton]
    omega
where
  textOf (format : List UInt8) : List Arg → Option (List UInt8)
    | [.string value] => some value
    | [.longLong value] | [.unsignedLongLong value] => Foundation.snprintf format value
    | _ => none

/-- A text up to 16 bytes before the end of the buffer, then a vector that does not fit. -/
def nearTheEnd : List Op :=
  [.string (List.replicate 1007 ' '.toUInt8), .setw 3, .setfill '0'.toUInt8,
    .vector [.signed 7, .unsigned 8, .bool true]]

theorem buffers_never_overflow_nearTheEnd :
    ∃ s, (StreamBuf.construct true (Block.fill 255)).bind
        (StreamBuf.run printfOne .logRtStream nearTheEnd) = some s ∧
      (RtLog.cString s.buf.cells).drop 1007 = literal "[007, 8, ...]" ∧
      ∀ o, ∃ t, s.apply printfOne .logRtStream o = some t ∧ s.pos ≤ t.pos ∧
        t.buf.cells.take s.pos = s.buf.cells.take s.pos := by
  rcases buffers_never_overflow printfOne .logRtStream true (Block.fill 255) nearTheEnd with
    ⟨s, hrun, -, hnext⟩
  have hshown : ((StreamBuf.construct true (Block.fill 255)).bind
      (StreamBuf.run printfOne .logRtStream nearTheEnd)).map
        (fun s => (RtLog.cString s.buf.cells).drop 1007) = some (literal "[007, 8, ...]") := by
    decide +kernel
  rw [hrun, Option.map_some, Option.some.injEq] at hshown
  refine ⟨s, hrun, hshown, ?_⟩
  intro o
  rcases hnext o with ⟨t, ht, hle, -, hkept⟩
  exact ⟨t, ht, hle, hkept⟩

end Buffers
end RtLog
end Log
end DtCore
