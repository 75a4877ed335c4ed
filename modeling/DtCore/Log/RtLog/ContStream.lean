import DtCore.Log.RtLog.Statement

/-!
# `LOG`, `LOG_U` and `LOG_CONT`

The three stream classes collect insertions in the same way and hand their buffers over
in two: `LogRtStream` and `NamedLogRtStream` print the buffer with a precision, which ends
at a null byte, and `LogRtContStream` copies it.

Main definitions:

- `RtStream.destroyCont`: the destructor of `LogRtContStream`.
- `RtStream.bare`: an object without what it says to the queue.
- `SameBytes`: the entries of three objects hold the bytes of their buffers.

Main results:

- Theorem `bare_insert`: insertions do not look at the class, the level or the name.
- Theorem `same_bytes_iff`: when the three classes carry the same bytes.
-/

namespace DtCore
namespace Log
namespace RtLog

/-! ## The third class -/

/-- The constructor of `NamedLogRtStream`. -/
def Gate.namedRtStream (g : Gate) (logName : List UInt8) (lvl : LogLevel) : RtStream :=
  g.rtStream (some logName) lvl

/-- The constructor of `LogRtContStream`, which has neither a name nor `m_submitted`. -/
def Gate.logRtContStream (g : Gate) (lvl : LogLevel) : RtStream :=
  g.rtStream none lvl

/-- The destructor of `LogRtContStream`. -/
def RtStream.destroyCont (m : Moment) (s : RtStream) : Option (Entry UInt8) :=
  if s.active && decide (0 < s.buf.length) then m.gate.logRtCont s.logLevel m.now s.buf else none

/-- Insertions one after the other. -/
def RtStream.insertEach (s : RtStream) (vs : List Insertion) : RtStream :=
  vs.foldl RtStream.insert s

theorem insertEach_cons (s : RtStream) (v : Insertion) (vs : List Insertion) :
    s.insertEach (v :: vs) = (s.insert v).insertEach vs :=
  rfl

theorem extends_insertEach (s : RtStream) (vs : List Insertion) : Extends s (s.insertEach vs) := by
  induction vs generalizing s with
  | nil => exact Extends.refl s
  | cons v vs ih =>
      rw [insertEach_cons]
      exact (extends_insert s v).trans (ih _)

/-! ## What insertions look at -/

/-- The object without its name, its level and `m_submitted`. -/
def RtStream.bare (s : RtStream) : RtStream :=
  { s with logName := none, logLevel := .info, submitted := false }

@[simp] theorem bare_buf (s : RtStream) : s.bare.buf = s.buf := rfl

@[simp] theorem bare_active (s : RtStream) : s.bare.active = s.active := rfl

@[simp] theorem bare_push (text : List UInt8) (s : RtStream) :
    (s.push text).bare = s.bare.push text := rfl

@[simp] theorem bare_addTruncation (s : RtStream) :
    s.addTruncation.bare = s.bare.addTruncation := by
  unfold RtStream.addTruncation
  rw [bare_buf, apply_ite RtStream.bare, bare_push]

@[simp] theorem bare_closeArray (s : RtStream) : s.closeArray.bare = s.bare.closeArray := by
  unfold RtStream.closeArray
  rw [bare_buf, apply_ite RtStream.bare, bare_push]

theorem bare_addSeparator (s : RtStream) :
    s.bare.addSeparator = (s.addSeparator.1, s.addSeparator.2.bare) := by
  unfold RtStream.addSeparator
  rw [bare_buf]
  split
  · rfl
  · rfl

theorem bare_printElement (e : Element) (s : RtStream) :
    s.bare.printElement e = ((s.printElement e).1, (s.printElement e).2.bare) := by
  cases e with
  | pointer text hne => rfl
  | enumeration val => rfl
  | bool b => rfl
  | floating text hne => rfl
  | signed val other => rfl
  | unsigned val other => rfl

theorem bare_formatElement (e : Element) (s : RtStream) :
    s.bare.formatElement e = ((s.formatElement e).1, (s.formatElement e).2.bare) := by
  unfold RtStream.formatElement
  rw [bare_buf, bare_printElement]
  split
  · rfl
  · dsimp only
    cases (s.printElement e).1 with
    | none => rfl
    | some text =>
        dsimp only
        split
        · rfl
        · rfl

theorem bare_formatElements (es : List Element) (s : RtStream) :
    (s.formatElements es).bare = s.bare.formatElements es := by
  induction es generalizing s with
  | nil => rfl
  | cons e rest ih =>
      unfold RtStream.formatElements
      rw [bare_formatElement]
      dsimp only
      rw [bare_addSeparator]
      dsimp only
      split
      · split
        · rfl
        · split
          · exact ih _
          · rfl
      · exact bare_addTruncation _

theorem bare_insertVector (es : List Element) (s : RtStream) :
    (s.insertVector es).bare = s.bare.insertVector es := by
  unfold RtStream.insertVector
  rw [bare_buf]
  split
  · rfl
  · rw [bare_closeArray, bare_formatElements, bare_push]

theorem bare_insertVectorsLoop (ess : List (List Element)) (s : RtStream) :
    (s.insertVectorsLoop ess).bare = s.bare.insertVectorsLoop ess := by
  induction ess generalizing s with
  | nil => rfl
  | cons es rest ih =>
      unfold RtStream.insertVectorsLoop
      rw [← bare_insertVector]
      dsimp only
      rw [bare_addSeparator]
      dsimp only
      split
      · rfl
      · split
        · exact ih _
        · rfl

theorem bare_insertVectors (ess : List (List Element)) (s : RtStream) :
    (s.insertVectors ess).bare = s.bare.insertVectors ess := by
  unfold RtStream.insertVectors
  rw [bare_buf]
  split
  · rfl
  · rw [bare_closeArray, bare_insertVectorsLoop, bare_push]

/-- An insertion does not look at the class, the level or the name. -/
theorem bare_insert (s : RtStream) (v : Insertion) : (s.insert v).bare = s.bare.insert v := by
  unfold RtStream.insert
  rw [bare_active]
  split
  · cases v with
    | value e =>
        dsimp only [RtStream.inserted]
        rw [bare_formatElement]
        split
        · rfl
        · exact bare_addTruncation _
    | vector es => exact bare_insertVector es s
    | vectors ess => exact bare_insertVectors ess s
    | cString str =>
        cases str with
        | none => rfl
        | some str => rfl
    | string str => rfl
    | char c =>
        dsimp only [RtStream.inserted]
        rw [bare_buf]
        split
        · rfl
        · rfl
    | hex => rfl
    | dec => rfl
    | otherManipulator => rfl
    | setw n => rfl
    | setfill c => rfl
  · rfl

theorem bare_insertEach (s : RtStream) (vs : List Insertion) :
    (s.insertEach vs).bare = s.bare.insertEach vs := by
  induction vs generalizing s with
  | nil => rfl
  | cons v vs ih => rw [insertEach_cons, insertEach_cons, ih, bare_insert]

/-- Objects that are both active collect the same bytes. -/
theorem buf_insertEach {s t : RtStream} (h : s.bare = t.bare) (vs : List Insertion) :
    (s.insertEach vs).buf = (t.insertEach vs).buf := by
  have hbare : (s.insertEach vs).bare = (t.insertEach vs).bare := by
    rw [bare_insertEach, bare_insertEach, h]
  have hbuf := congrArg RtStream.buf hbare
  exact hbuf

/-! ## Entries -/

/-- The three objects hold the same bytes, and so do the entries of their destructors. -/
structure SameBytes (s named cont : RtStream) (m m' m'' : Moment) : Prop where
  buf_named : named.buf = s.buf
  buf_cont : cont.buf = s.buf
  msg : ∀ e, s.destroy m = some e → e.msg = s.buf
  msg_named : ∀ e, named.destroy m' = some e → e.msg = s.buf
  msg_cont : ∀ e, cont.destroyCont m'' = some e → e.msg = s.buf

theorem msg_logRt {m : Moment} {text : List UInt8} {s : RtStream} {e : Entry UInt8}
    (h : s.logRt m text = some e) : e.msg = text.take (rtMsgLen - 1) := by
  unfold RtStream.logRt Gate.logRt Gate.logRtNamed at h
  split at h
  · split at h
    · rw [← Option.some.inj h]
      rfl
    · contradiction
  · split at h
    · rw [← Option.some.inj h]
      rfl
    · contradiction

theorem logRt_isSome {m : Moment} {text : List UInt8} {s : RtStream} :
    (∃ e, s.logRt m text = some e) ↔ m.gate.passes s.logLevel = true := by
  unfold RtStream.logRt Gate.logRt Gate.logRtNamed
  cases s.logName with
  | none => by_cases hpass : m.gate.passes s.logLevel = true <;> simp [hpass]
  | some name => by_cases hpass : m.gate.passes s.logLevel = true <;> simp [hpass]

/-- What a buffer that was filled by insertions prints. -/
theorem destroy_msg_iff {m : Moment} {s : RtStream} (hactive : s.active = true)
    (hsubmitted : s.submitted = false) (hlen : s.buf.length < rtMsgLen) :
    (∀ e, s.destroy m = some e → e.msg = s.buf) ↔
      0 ∉ s.buf ∨ m.gate.passes s.logLevel = false := by
  have hcut : (cString s.buf).take (rtMsgLen - 1) = cString s.buf := by
    apply List.take_of_length_le
    have hle : (cString s.buf).length ≤ s.buf.length := (List.takeWhile_prefix _).length_le
    omega
  by_cases hempty : s.buf = []
  · have hnone : s.destroy m = none := by
      unfold RtStream.destroy
      rw [hempty]
      simp
    rw [hnone, hempty]
    simp
  · have hpos : 0 < s.buf.length := List.length_pos_iff.mpr hempty
    have hrun : s.destroy m = s.logRt m (cString s.buf) := by
      unfold RtStream.destroy
      rw [hactive, hsubmitted, decide_eq_true hpos]
      rfl
    rw [hrun, ← cString_eq_self]
    constructor
    · intro h
      by_cases hpass : m.gate.passes s.logLevel = true
      · left
        rcases logRt_isSome.mpr hpass with ⟨e, he⟩
        rw [← hcut, ← msg_logRt he]
        exact h e he
      · exact Or.inr (Bool.eq_false_iff.mpr hpass)
    · rintro (hsame | hpass) e he
      · rw [msg_logRt he, hcut, hsame]
      · have hpass' := logRt_isSome.mp ⟨e, he⟩
        rw [hpass] at hpass'
        contradiction

/-- `LogRtContStream` copies its buffer. -/
theorem destroyCont_msg {m : Moment} {s : RtStream} (hlen : s.buf.length < rtMsgLen)
    {e : Entry UInt8} (h : s.destroyCont m = some e) : e.msg = s.buf := by
  unfold RtStream.destroyCont Gate.logRtCont at h
  split at h
  · split at h
    · rw [← Option.some.inj h]
      exact List.take_of_length_le (by omega)
    · contradiction
  · contradiction

/-- The entries of three active objects that were given the same insertions hold the bytes
of their buffers exactly when there is no null byte among them, or when neither of the two
that print their buffer pushes an entry, since its level is no longer active. -/
theorem same_bytes_iff {g g' g'' : Gate} {lvl lvl' lvl'' : LogLevel} (h : g.passes lvl = true)
    (h' : g'.passes lvl' = true) (h'' : g''.passes lvl'' = true) (logName : List UInt8)
    (vs : List Insertion) (m m' m'' : Moment) :
    SameBytes ((g.logRtStream lvl).insertEach vs) ((g'.namedRtStream logName lvl').insertEach vs)
        ((g''.logRtContStream lvl'').insertEach vs) m m' m'' ↔
      0 ∉ ((g.logRtStream lvl).insertEach vs).buf ∨
        (m.gate.passes lvl = false ∧ m'.gate.passes lvl' = false) := by
  have hext := extends_insertEach (g.logRtStream lvl) vs
  have hext' := extends_insertEach (g'.namedRtStream logName lvl') vs
  have hext'' := extends_insertEach (g''.logRtContStream lvl'') vs
  have hbare' : (g'.namedRtStream logName lvl').bare = (g.logRtStream lvl).bare := by
    simp [Gate.namedRtStream, Gate.logRtStream, Gate.rtStream, RtStream.bare, h, h']
  have hbare'' : (g''.logRtContStream lvl'').bare = (g.logRtStream lvl).bare := by
    simp [Gate.logRtContStream, Gate.logRtStream, Gate.rtStream, RtStream.bare, h, h'']
  have hbuf' := buf_insertEach hbare' vs
  have hbuf'' := buf_insertEach hbare'' vs
  have hroom : ([] : List UInt8).length < rtMsgLen := Nat.zero_lt_succ 1023
  have hmsg := destroy_msg_iff (m := m) (hext.active.trans h) hext.submitted (hext.length hroom)
  have hmsg' := destroy_msg_iff (m := m') (hext'.active.trans h') hext'.submitted
    (hext'.length hroom)
  rw [hext.logLevel] at hmsg
  rw [hext'.logLevel, hbuf'] at hmsg'
  constructor
  · intro hsame
    rcases hmsg.mp hsame.msg with hnull | hpass
    · exact Or.inl hnull
    · rcases hmsg'.mp hsame.msg_named with hnull | hpass'
      · exact Or.inl hnull
      · exact Or.inr ⟨hpass, hpass'⟩
  · intro hcond
    constructor
    · exact hbuf'
    · exact hbuf''
    · exact hmsg.mpr (hcond.imp id And.left)
    · exact hmsg'.mpr (hcond.imp id And.right)
    · intro e he
      rw [← hbuf'']
      exact destroyCont_msg (hext''.length hroom) he

theorem same_bytes_iff_insertions :
    SameBytes ((infoMoment.gate.logRtStream .info).insertEach [.string [97], .char 98])
      ((infoMoment.gate.namedRtStream [110] .info).insertEach [.string [97], .char 98])
      ((infoMoment.gate.logRtContStream .info).insertEach [.string [97], .char 98])
      infoMoment infoMoment infoMoment := by
  apply (same_bytes_iff (by decide) (by decide) (by decide) [110] [.string [97], .char 98]
    infoMoment infoMoment infoMoment).mpr
  exact Or.inl (by decide)

/-- A string with a null byte inside is cut by `LOG` and not by `LOG_CONT`. -/
theorem null_byte_cuts :
    ∃ e e'', ((infoMoment.gate.logRtStream .info).insertEach [.string [97, 0, 98]]).destroy
          infoMoment = some e ∧
        ((infoMoment.gate.logRtContStream .info).insertEach [.string [97, 0, 98]]).destroyCont
          infoMoment = some e'' ∧
        e.msg = [97] ∧ e''.msg = [97, 0, 98] :=
  ⟨_, _, rfl, rfl, rfl, rfl⟩

end RtLog
end Log
end DtCore
