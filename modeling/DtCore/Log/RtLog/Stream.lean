import DtCore.Foundation.Formatting
import DtCore.Log.RtLog.Named

/-!
# The stream objects of the logger

`LogRtStream` and `NamedLogRtStream` collect what `operator<<` inserts in a buffer of
1024 bytes.  Both classes do the same, but for the logger name in their entries.

What `snprintf` makes of a pointer or of a floating-point number is an argument here, and
so is what it makes of an integer with a format that `Foundation.snprintf` does not know:
`FormatIntState` builds such formats for widths of four and more digits.

Main definitions:

- `RtStream`: an object of the two classes.
- `RtStream.formatElement`: a number, a pointer or a boolean, when it fits.
- `RtStream.insert`: `operator<<`.
- `Insertion.Blank`: the insertions with no text.

Main results:

- Theorem `extends_insert`: insertions add to the buffer, which never overflows.
- Theorem `buf_insert_nil_iff`: only blank insertions leave an empty buffer empty.
-/

namespace DtCore
namespace Log
namespace RtLog

open Foundation

/-! ## The two classes -/

/-- `LogRtStream`, or `NamedLogRtStream` with the logger name; `buf` is
`m_buf[0 .. m_pos)`. -/
structure RtStream where
  logName : Option (List UInt8)
  logLevel : LogLevel
  active : Bool
  submitted : Bool
  buf : List UInt8
  hexMode : Bool
  width : Int
  fillChar : UInt8

/-- The constructors of both classes. -/
def Gate.rtStream (g : Gate) (logName : Option (List UInt8)) (lvl : LogLevel) : RtStream where
  logName := logName.map copyName
  logLevel := lvl
  active := g.passes lvl
  submitted := false
  buf := []
  hexMode := false
  width := 0
  fillChar := ' '.toUInt8

/-- The constructor of `LogRtStream`. -/
def Gate.logRtStream (g : Gate) (lvl : LogLevel) : RtStream :=
  g.rtStream none lvl

/-- The bytes that an insertion adds. -/
def RtStream.push (text : List UInt8) (s : RtStream) : RtStream :=
  { s with buf := s.buf ++ text }

/-- `Append`. -/
def RtStream.append (src : List UInt8) (s : RtStream) : RtStream :=
  s.push (src.take (rtMsgLen - 1 - s.buf.length))

/-- `AddTruncation`. -/
def RtStream.addTruncation (s : RtStream) : RtStream :=
  if s.buf.length + 3 < rtMsgLen then s.push ['.'.toUInt8, '.'.toUInt8, '.'.toUInt8] else s

/-- `AddSeparator`. -/
def RtStream.addSeparator (s : RtStream) : Bool × RtStream :=
  if s.buf.length + 2 < rtMsgLen then (true, s.push [','.toUInt8, ' '.toUInt8]) else (false, s)

/-- `CloseArray`. -/
def RtStream.closeArray (s : RtStream) : RtStream :=
  if s.buf.length + 1 < rtMsgLen then s.push [']'.toUInt8] else s

/-! ## Formatted elements -/

/-- `char('0' + n)`. -/
def digitByte (n : Int) : UInt8 :=
  (48 + n).toNat.toUInt8

/-- The digits of the width in a format, at most three. -/
def widthDigits (w : Int) : List UInt8 :=
  if w ≥ 100 then [digitByte (w / 100), digitByte (w % 100 / 10), digitByte (w % 10)]
  else if w ≥ 10 then [digitByte (w / 10), digitByte (w % 10)]
  else if w > 0 then [digitByte w]
  else []

/-- The format that `FormatIntState` builds. -/
def stateFormat (hexMode : Bool) (w : Int) (fillChar : UInt8) (isSigned : Bool) : List UInt8 :=
  '%'.toUInt8 :: ((if w > 0 ∧ fillChar = '0'.toUInt8 then ['0'.toUInt8] else []) ++
    (widthDigits w ++ ['l'.toUInt8, 'l'.toUInt8,
      if hexMode then 'X'.toUInt8 else if isSigned then 'd'.toUInt8 else 'u'.toUInt8]))

/-- What `snprintf` makes of a format that `Foundation.snprintf` does not know: some text, or
an error. -/
structure OtherFormat where
  text : Option (List UInt8)
  ne_nil : ∀ t, text = some t → t ≠ []

/-- An error. -/
def OtherFormat.error : OtherFormat where
  text := none
  ne_nil := by simp

/-- `FormatIntState`: what `snprintf` writes, and the object with its width used up. -/
def RtStream.formatIntState (other : OtherFormat) (val : BitVec 64) (isSigned : Bool)
    (s : RtStream) : Option (List UInt8) × RtStream :=
  ((snprintf (stateFormat s.hexMode s.width s.fillChar isSigned) val).or other.text,
    { s with width := 0 })

/-- The types that `FormatElement` tells apart; integers come with what is printed for them
when their format is not known. -/
inductive Element where
  | pointer (text : List UInt8) (hne : text ≠ [])
  | enumeration (val : BitVec 64)
  | bool (b : Bool)
  | floating (text : List UInt8) (hne : text ≠ [])
  | signed (val : BitVec 64) (other : OtherFormat)
  | unsigned (val : BitVec 64) (other : OtherFormat)

/-- The call of `snprintf` for an element. -/
def RtStream.printElement (s : RtStream) : Element → Option (List UInt8) × RtStream
  | .pointer text _ => (some text, s)
  | .enumeration val => (snprintf ("%lld".toList.map Char.toUInt8) val, s)
  | .bool b => (some ((if b then "true" else "false").toList.map Char.toUInt8), s)
  | .floating text _ => (some text, s)
  | .signed val other => s.formatIntState other val true
  | .unsigned val other => s.formatIntState other val false

/-- `FormatElement`. -/
def RtStream.formatElement (e : Element) (s : RtStream) : Bool × RtStream :=
  if s.buf.length + 10 ≥ rtMsgLen then (false, s)
  else
    let printed := s.printElement e
    match printed.1 with
    | none => (false, printed.2)
    | some text =>
        if text.length ≥ rtMsgLen - s.buf.length then (false, printed.2)
        else (true, printed.2.push text)

/-- The loop over the elements of a vector. -/
def RtStream.formatElements : List Element → RtStream → RtStream
  | [], s => s
  | e :: rest, s =>
      let formatted := s.formatElement e
      if formatted.1 then
        if rest.isEmpty then formatted.2
        else
          let separated := formatted.2.addSeparator
          if separated.1 then RtStream.formatElements rest separated.2 else separated.2
      else formatted.2.addTruncation

/-- `operator<<` for the vectors of the standard library, of Eigen and of `dt::Math`. -/
def RtStream.insertVector (es : List Element) (s : RtStream) : RtStream :=
  if s.buf.length + 1 ≥ rtMsgLen then s
  else ((s.push ['['.toUInt8]).formatElements es).closeArray

/-- The loop over a vector of vectors. -/
def RtStream.insertVectorsLoop : List (List Element) → RtStream → RtStream
  | [], s => s
  | es :: rest, s =>
      let inserted := s.insertVector es
      if rest.isEmpty then inserted
      else
        let separated := inserted.addSeparator
        if separated.1 then RtStream.insertVectorsLoop rest separated.2 else separated.2

/-- `operator<<` for a vector of Eigen vectors. -/
def RtStream.insertVectors (ess : List (List Element)) (s : RtStream) : RtStream :=
  if s.buf.length + 1 ≥ rtMsgLen then s
  else ((s.push ['['.toUInt8]).insertVectorsLoop ess).closeArray

/-! ## Insertions -/

/-- The overloads of `operator<<`. -/
inductive Insertion where
  | value (e : Element)
  | vector (es : List Element)
  | vectors (ess : List (List Element))
  | cString (str : Option (List UInt8))
  | string (str : List UInt8)
  | char (c : UInt8)
  | hex
  | dec
  | otherManipulator
  | setw (n : Int)
  | setfill (c : UInt8)

/-- `operator<<` of an active object. -/
def RtStream.inserted (s : RtStream) : Insertion → RtStream
  | .value e =>
      let formatted := s.formatElement e
      if formatted.1 then formatted.2 else formatted.2.addTruncation
  | .vector es => s.insertVector es
  | .vectors ess => s.insertVectors ess
  | .cString none => s
  | .cString (some str) => s.append ((RtLog.cString str).take rtMsgLen)
  | .string str => s.append str
  | .char c => if s.buf.length + 1 < rtMsgLen then s.push [c] else s
  | .hex => { s with hexMode := true }
  | .dec => { s with hexMode := false }
  | .otherManipulator => s
  | .setw n => { s with width := n }
  | .setfill c => { s with fillChar := c }

/-- `operator<<`. -/
def RtStream.insert (s : RtStream) (v : Insertion) : RtStream :=
  if s.active then s.inserted v else s

/-! ## The buffer only grows -/

/-- Two states of an object between which there were only insertions. -/
structure Extends (s t : RtStream) : Prop where
  logName : t.logName = s.logName
  logLevel : t.logLevel = s.logLevel
  active : t.active = s.active
  submitted : t.submitted = s.submitted
  buf : s.buf <+: t.buf
  length : s.buf.length < rtMsgLen → t.buf.length < rtMsgLen

theorem Extends.refl (s : RtStream) : Extends s s where
  logName := rfl
  logLevel := rfl
  active := rfl
  submitted := rfl
  buf := List.prefix_rfl
  length := id

theorem Extends.trans {s t u : RtStream} (h : Extends s t) (h' : Extends t u) : Extends s u where
  logName := h'.logName.trans h.logName
  logLevel := h'.logLevel.trans h.logLevel
  active := h'.active.trans h.active
  submitted := h'.submitted.trans h.submitted
  buf := h.buf.trans h'.buf
  length := fun hlen => h'.length (h.length hlen)

/-- Some bytes that fit. -/
theorem extends_push {text : List UInt8} {s : RtStream}
    (h : s.buf.length < rtMsgLen → s.buf.length + text.length < rtMsgLen) :
    Extends s (s.push text) where
  logName := rfl
  logLevel := rfl
  active := rfl
  submitted := rfl
  buf := List.prefix_append _ _
  length := by
    intro hlen
    show (s.buf ++ text).length < rtMsgLen
    rw [List.length_append]
    exact h hlen

theorem extends_append (src : List UInt8) (s : RtStream) : Extends s (s.append src) := by
  apply extends_push
  intro hlen
  rw [List.length_take]
  omega

theorem extends_addTruncation (s : RtStream) : Extends s s.addTruncation := by
  unfold RtStream.addTruncation
  split
  · rename_i hroom
    exact extends_push (fun _ => hroom)
  · exact Extends.refl s

theorem extends_addSeparator (s : RtStream) : Extends s s.addSeparator.2 := by
  unfold RtStream.addSeparator
  split
  · rename_i hroom
    exact extends_push (fun _ => hroom)
  · exact Extends.refl s

theorem extends_closeArray (s : RtStream) : Extends s s.closeArray := by
  unfold RtStream.closeArray
  split
  · rename_i hroom
    exact extends_push (fun _ => hroom)
  · exact Extends.refl s

/-- Manipulators leave the buffer alone. -/
theorem extends_manipulated (s : RtStream) (hexMode : Bool) (width : Int) (fillChar : UInt8) :
    Extends s { s with hexMode := hexMode, width := width, fillChar := fillChar } :=
  ⟨rfl, rfl, rfl, rfl, List.prefix_rfl, id⟩

/-- `snprintf` behind the buffer changes at most the width. -/
theorem printElement_buf (e : Element) (s : RtStream) :
    (s.printElement e).2 = s ∨ (s.printElement e).2 = { s with width := 0 } := by
  cases e with
  | pointer text hne => exact Or.inl rfl
  | enumeration val => exact Or.inl rfl
  | bool b => exact Or.inl rfl
  | floating text hne => exact Or.inl rfl
  | signed val other => exact Or.inr rfl
  | unsigned val other => exact Or.inr rfl

theorem extends_printElement (e : Element) (s : RtStream) :
    Extends s (s.printElement e).2 ∧ (s.printElement e).2.buf = s.buf := by
  rcases printElement_buf e s with h | h
  · rw [h]
    exact ⟨Extends.refl s, rfl⟩
  · rw [h]
    exact ⟨extends_manipulated s s.hexMode 0 s.fillChar, rfl⟩

/-- An element is written when it fits, and otherwise the buffer is left alone. -/
theorem formatElement_cases (e : Element) (s : RtStream) :
    (∃ text, (s.printElement e).1 = some text ∧ s.buf.length + text.length < rtMsgLen ∧
      s.formatElement e = (true, (s.printElement e).2.push text)) ∨
    (s.formatElement e = (false, s) ∨ s.formatElement e = (false, (s.printElement e).2)) := by
  unfold RtStream.formatElement
  split
  · exact Or.inr (Or.inl rfl)
  · dsimp only
    split
    · exact Or.inr (Or.inr rfl)
    · rename_i text htext
      split
      · exact Or.inr (Or.inr rfl)
      · rename_i hroom
        exact Or.inl ⟨text, htext, by omega, rfl⟩

theorem extends_formatElement (e : Element) (s : RtStream) : Extends s (s.formatElement e).2 := by
  rcases extends_printElement e s with ⟨hprinted, hbuf⟩
  rcases formatElement_cases e s with ⟨text, _, hroom, h⟩ | h | h
  · rw [h]
    apply hprinted.trans
    apply extends_push
    intro _
    rw [hbuf]
    exact hroom
  · rw [h]
    exact Extends.refl s
  · rw [h]
    exact hprinted

theorem extends_formatElements (es : List Element) (s : RtStream) :
    Extends s (s.formatElements es) := by
  induction es generalizing s with
  | nil => exact Extends.refl s
  | cons e rest ih =>
      have hformat := extends_formatElement e s
      unfold RtStream.formatElements
      dsimp only
      split
      · split
        · exact hformat
        · have hseparator := hformat.trans (extends_addSeparator _)
          split
          · exact hseparator.trans (ih _)
          · exact hseparator
      · exact hformat.trans (extends_addTruncation _)

/-- An array between its brackets. -/
theorem extends_brackets {s : RtStream} {f : RtStream → RtStream}
    (hf : ∀ t, Extends t (f t)) (h : ¬ s.buf.length + 1 ≥ rtMsgLen) :
    Extends s (f (s.push ['['.toUInt8])).closeArray := by
  have hopen : Extends s (s.push ['['.toUInt8]) := extends_push (fun _ => Nat.lt_of_not_le h)
  exact (hopen.trans (hf _)).trans (extends_closeArray _)

theorem extends_insertVector (es : List Element) (s : RtStream) :
    Extends s (s.insertVector es) := by
  unfold RtStream.insertVector
  split
  · exact Extends.refl s
  · rename_i hroom
    exact extends_brackets (extends_formatElements es) hroom

theorem extends_insertVectorsLoop (ess : List (List Element)) (s : RtStream) :
    Extends s (s.insertVectorsLoop ess) := by
  induction ess generalizing s with
  | nil => exact Extends.refl s
  | cons es rest ih =>
      have hinsert := extends_insertVector es s
      unfold RtStream.insertVectorsLoop
      dsimp only
      split
      · exact hinsert
      · have hseparator := hinsert.trans (extends_addSeparator _)
        split
        · exact hseparator.trans (ih _)
        · exact hseparator

theorem extends_insertVectors (ess : List (List Element)) (s : RtStream) :
    Extends s (s.insertVectors ess) := by
  unfold RtStream.insertVectors
  split
  · exact Extends.refl s
  · rename_i hroom
    exact extends_brackets (extends_insertVectorsLoop ess) hroom

/-- Insertions add to the buffer, which never overflows. -/
theorem extends_insert (s : RtStream) (v : Insertion) : Extends s (s.insert v) := by
  unfold RtStream.insert
  split
  · cases v with
    | value e =>
        have hformat := extends_formatElement e s
        unfold RtStream.inserted
        dsimp only
        split
        · exact hformat
        · exact hformat.trans (extends_addTruncation _)
    | vector es => exact extends_insertVector es s
    | vectors ess => exact extends_insertVectors ess s
    | cString str =>
        cases str with
        | none => exact Extends.refl s
        | some str => exact extends_append _ s
    | string str => exact extends_append str s
    | char c =>
        unfold RtStream.inserted
        dsimp only
        split
        · rename_i hroom
          exact extends_push (fun _ => hroom)
        · exact Extends.refl s
    | hex => exact extends_manipulated s true s.width s.fillChar
    | dec => exact extends_manipulated s false s.width s.fillChar
    | otherManipulator => exact Extends.refl s
    | setw n => exact extends_manipulated s s.hexMode n s.fillChar
    | setfill c => exact extends_manipulated s s.hexMode s.width c
  · exact Extends.refl s

/-! ## Blank insertions -/

/-- Insertions with no text: empty strings, null pointers and manipulators. -/
def Insertion.Blank : Insertion → Prop
  | .value _ => False
  | .vector _ => False
  | .vectors _ => False
  | .cString none => True
  | .cString (some str) => RtLog.cString str = []
  | .string str => str = []
  | .char _ => False
  | .hex => True
  | .dec => True
  | .otherManipulator => True
  | .setw _ => True
  | .setfill _ => True

theorem formatIntState_ne_nil {other : OtherFormat} {val : BitVec 64} {isSigned : Bool}
    {s : RtStream} {text : List UInt8}
    (h : (s.formatIntState other val isSigned).1 = some text) : text ≠ [] := by
  rcases Option.or_eq_some_iff.mp h with hprint | ⟨_, hother⟩
  · exact snprintf_ne_nil hprint
  · exact other.ne_nil text hother

theorem printElement_ne_nil {e : Element} {s : RtStream} {text : List UInt8}
    (h : (s.printElement e).1 = some text) : text ≠ [] := by
  cases e with
  | pointer text' hne =>
      rw [← Option.some.inj h]
      exact hne
  | enumeration val =>
      have hprint : snprintf ("%lld".toList.map Char.toUInt8) val = some text := h
      exact snprintf_ne_nil hprint
  | bool b =>
      rw [← Option.some.inj h]
      cases b <;> decide
  | floating text' hne =>
      rw [← Option.some.inj h]
      exact hne
  | signed val other => exact formatIntState_ne_nil h
  | unsigned val other => exact formatIntState_ne_nil h

/-- A value that cannot be formatted leaves three dots. -/
theorem addTruncation_ne_nil {s : RtStream} (h : s.buf = []) : s.addTruncation.buf ≠ [] := by
  unfold RtStream.addTruncation
  rw [h, if_pos (by decide)]
  show s.buf ++ _ ≠ []
  rw [h]
  decide

theorem value_ne_nil {s : RtStream} (h : s.buf = []) (e : Element) :
    (s.inserted (.value e)).buf ≠ [] := by
  have hprinted : (s.printElement e).2.buf = [] := (extends_printElement e s).2.trans h
  unfold RtStream.inserted
  dsimp only
  rcases formatElement_cases e s with ⟨text, htext, _, hformat⟩ | hformat | hformat
  · rw [hformat, if_pos rfl]
    show (s.printElement e).2.buf ++ text ≠ []
    rw [hprinted, List.nil_append]
    exact printElement_ne_nil htext
  · rw [hformat, if_neg Bool.false_ne_true]
    exact addTruncation_ne_nil h
  · rw [hformat, if_neg Bool.false_ne_true]
    exact addTruncation_ne_nil hprinted

/-- An array has at least its opening bracket. -/
theorem brackets_ne_nil {s : RtStream} {f : RtStream → RtStream} (hf : ∀ t, Extends t (f t)) :
    (f (s.push ['['.toUInt8])).closeArray.buf ≠ [] := by
  have hprefix := ((hf _).trans (extends_closeArray (f (s.push ['['.toUInt8])))).buf
  intro hnil
  rw [hnil] at hprefix
  exact List.append_ne_nil_of_right_ne_nil s.buf (List.cons_ne_nil _ _)
    (List.prefix_nil.mp hprefix)

/-- Only blank insertions leave an empty buffer empty. -/
theorem buf_insert_nil_iff {s : RtStream} (hactive : s.active = true) (h : s.buf = [])
    (v : Insertion) : (s.insert v).buf = [] ↔ v.Blank := by
  unfold RtStream.insert
  rw [if_pos hactive]
  cases v with
  | value e => exact iff_of_false (value_ne_nil h e) id
  | vector es =>
      have hroom : ¬ s.buf.length + 1 ≥ rtMsgLen := by
        rw [h]
        decide
      show (s.insertVector es).buf = [] ↔ _
      unfold RtStream.insertVector
      rw [if_neg hroom]
      exact iff_of_false (brackets_ne_nil (extends_formatElements es)) id
  | vectors ess =>
      have hroom : ¬ s.buf.length + 1 ≥ rtMsgLen := by
        rw [h]
        decide
      show (s.insertVectors ess).buf = [] ↔ _
      unfold RtStream.insertVectors
      rw [if_neg hroom]
      exact iff_of_false (brackets_ne_nil (extends_insertVectorsLoop ess)) id
  | cString str =>
      cases str with
      | none => exact iff_of_true h trivial
      | some str =>
          show s.buf ++ ((RtLog.cString str).take rtMsgLen).take _ = [] ↔ RtLog.cString str = []
          simp [h, rtMsgLen]
  | string str =>
      show s.buf ++ str.take _ = [] ↔ str = []
      simp [h, rtMsgLen]
  | char c =>
      show (if s.buf.length + 1 < rtMsgLen then s.push [c] else s).buf = [] ↔ False
      rw [h, if_pos (by decide)]
      exact iff_of_false (List.append_ne_nil_of_right_ne_nil _ (List.cons_ne_nil _ _)) id
  | hex => exact iff_of_true h trivial
  | dec => exact iff_of_true h trivial
  | otherManipulator => exact iff_of_true h trivial
  | setw n => exact iff_of_true h trivial
  | setfill c => exact iff_of_true h trivial

end RtLog
end Log
end DtCore
