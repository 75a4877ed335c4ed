import DtCore.Log.RtTui.Model

/-!
# The output buffer

What is drawn is collected in a buffer of `OUT_BUF_SIZE` bytes and written to the
terminal, which may take only some of it.  `AppendData` flushes a buffer without room
and then cuts its text; `SafeSnprintf` lets `snprintf` write into the rest of the
buffer, where a text that is too long loses its end to the terminating null.

The buffer is the bytes in front of `m_outPos`.  What `write` and `poll` return is an
argument of each flush; behind the last given result the terminal takes nothing more.
The fields `sent` and `appended` record the bytes that `write` took and the texts that
were to be appended; nothing reads them.

Main definitions:

- `Output.flush`, `Output.appendData`, `Output.safeSnprintf`: the calls.
- `LateError`: a flush meets a hard error behind bytes that were taken.
- `Output.Safe`: a run without late errors and cut texts of `snprintf`.

Main results:

- Theorem `writeLoop_failed_iff`: when a flush ends in a hard error.
- Theorem `length_buf_ops`: the buffer never overflows.
- Theorem `output_in_order`: a safe run sends appended bytes only, each at most once.
-/

namespace DtCore
namespace Log
namespace RtTui

/-! ## The buffer -/

def outBufSize : Nat := 262144

/-- What one `write` returns, and `poll` behind an `EAGAIN`. -/
inductive WriteResult where
  | wrote (n : Nat)
  | interrupted
  | again (ready : Bool)
  | failed

structure Output where
  buf : Bytes
  sent : Bytes
  appended : Bytes
deriving DecidableEq

def Output.init : Output where
  buf := []
  sent := []
  appended := []

/-- The loop of `FlushOutput` on a buffer of `len` bytes, of which `written` are taken:
how many are taken in the end and whether a hard error ended it. -/
def writeLoop (len : Nat) : List WriteResult → Nat → Nat × Bool
  | [], written => (written, false)
  | r :: results, written =>
      if written < len then
        match r with
        | .wrote n =>
            if n = 0 then (written, false)
            else writeLoop len results (written + min n (len - written))
        | .interrupted => writeLoop len results written
        | .again ready => if ready then writeLoop len results written else (written, false)
        | .failed => (written, true)
      else (written, false)

/-- `FlushOutput`. -/
def Output.flush (results : List WriteResult) (o : Output) : Output :=
  if o.buf.length = 0 then o
  else
    let (written, failed) := writeLoop o.buf.length results 0
    { o with
      -- `m_outPos = written` keeps the bytes in front, the other exits those behind.
      buf := if failed then o.buf.take written else o.buf.drop written
      sent := o.sent ++ o.buf.take written }

/-- `AppendData`. -/
def Output.appendData (s : Bytes) (results : List WriteResult) (o : Output) : Output :=
  let flushed := if o.buf.length + s.length ≥ outBufSize then o.flush results else o
  { flushed with
    buf := flushed.buf ++ s.take (min s.length (outBufSize - flushed.buf.length))
    appended := flushed.appended ++ s }

/-- `SafeSnprintf`, when `snprintf` makes `text` of its arguments. -/
def Output.safeSnprintf (text : Bytes) (o : Output) : Output :=
  let room := outBufSize - o.buf.length
  { o with
    buf :=
      if o.buf.length ≥ outBufSize then o.buf
      else if text.length < room then o.buf ++ text
      else o.buf ++ (text.take (room - 1) ++ [0])
    appended := o.appended ++ text }

/-- The assignment `m_outPos = 0` of `Tick` and `TermRestore`. -/
def Output.reset (o : Output) : Output :=
  { o with buf := [] }

/-- The calls on the output buffer; `AppendData_str` and `AppendData_hbar` are calls of
`AppendData`. -/
inductive OutputOp where
  | appendData (s : Bytes) (results : List WriteResult)
  | safeSnprintf (text : Bytes)
  | flush (results : List WriteResult)
  | reset

/-- `HBAR`. -/
def hbar : Bytes := [0xe2, 0x94, 0x80]

def Output.op (o : Output) : OutputOp → Output
  | .appendData s results => o.appendData s results
  | .safeSnprintf text => o.safeSnprintf text
  | .flush results => o.flush results
  | .reset => o.reset

def Output.ops (o : Output) (ops : List OutputOp) : Output :=
  ops.foldl Output.op o

/-! ## The write loop -/

/-- Does the loop go on behind a result? -/
def WriteResult.goesOn : WriteResult → Bool
  | .wrote n => n != 0
  | .interrupted => true
  | .again ready => ready
  | .failed => false

def WriteResult.count : WriteResult → Nat
  | .wrote n => n
  | _ => 0

/-- The bytes that some results take. -/
def taken (results : List WriteResult) : Nat :=
  (results.map WriteResult.count).sum

/-- A hard error on a buffer of `len` bytes, some but not all of which were taken. -/
def LateError (len : Nat) (results : List WriteResult) : Prop :=
  ∃ before after, results = before ++ .failed :: after ∧
    (∀ r ∈ before, r.goesOn = true) ∧ 0 < taken before ∧ taken before < len

/-- The results up to a hard error, of which the first is the error or goes on. -/
theorem failed_cons_iff {r : WriteResult} {results : List WriteResult} {written w : Nat} :
    (∃ before after, r :: results = before ++ .failed :: after ∧
        (∀ r ∈ before, r.goesOn = true) ∧ w = written + taken before) ↔
      (r = .failed ∧ w = written) ∨
        (r.goesOn = true ∧ ∃ before after, results = before ++ .failed :: after ∧
          (∀ r ∈ before, r.goesOn = true) ∧ w = written + r.count + taken before) := by
  constructor
  · rintro ⟨before, after, hsplit, hgoes, hw⟩
    cases before with
    | nil => exact Or.inl ⟨(List.cons.inj hsplit).1, hw⟩
    | cons r' before =>
        have hcons := List.cons.inj hsplit
        right
        rw [hcons.1]
        constructor
        · exact hgoes r' List.mem_cons_self
        · refine ⟨before, after, hcons.2, ?_, ?_⟩
          · exact fun r hr => hgoes r (List.mem_cons_of_mem r' hr)
          · rw [hw, taken, List.map_cons, List.sum_cons, Nat.add_assoc]
            rfl
  · rintro (⟨rfl, hw⟩ | ⟨hgo, before, after, hsplit, hgoes, hw⟩)
    · exact ⟨[], results, rfl, by simp, hw⟩
    · refine ⟨r :: before, after, by rw [hsplit]; rfl, ?_, ?_⟩
      · intro r' hr'
        rcases List.mem_cons.mp hr' with heq | hmem
        · rw [heq]
          exact hgo
        · exact hgoes r' hmem
      · rw [hw, taken, taken, List.map_cons, List.sum_cons, Nat.add_assoc]

/-- A flush ends in a hard error when the results up to it go on and leave bytes over. -/
theorem writeLoop_failed_iff {len : Nat} (results : List WriteResult) (written w : Nat) :
    writeLoop len results written = (w, true) ↔
      (∃ before after, results = before ++ .failed :: after ∧
        (∀ r ∈ before, r.goesOn = true) ∧ w = written + taken before) ∧ w < len := by
  induction results generalizing written with
  | nil => simp [writeLoop]
  | cons r results ih =>
      rw [failed_cons_iff]
      unfold writeLoop
      by_cases hlt : written < len
      · rw [if_pos hlt]
        cases r with
        | wrote n =>
            by_cases hn : n = 0
            · simp [hn, WriteResult.goesOn]
            · have hgo : (WriteResult.wrote n).goesOn = true := by simpa [WriteResult.goesOn]
              dsimp only
              rw [if_neg hn, ih]
              constructor
              · rintro ⟨⟨before, after, hsplit, hgoes, hw⟩, hw'⟩
                have hcount : min n (len - written) = n := by omega
                rw [hcount] at hw
                exact ⟨Or.inr ⟨hgo, before, after, hsplit, hgoes, hw⟩, hw'⟩
              · rintro ⟨⟨hfalse, _⟩ | ⟨_, before, after, hsplit, hgoes, hw⟩, hw'⟩
                · contradiction
                · have hcount : min n (len - written) = n := by
                    have hw'' : w = written + n + taken before := hw
                    omega
                  rw [hcount]
                  exact ⟨⟨before, after, hsplit, hgoes, hw⟩, hw'⟩
        | interrupted =>
            dsimp only
            rw [ih]
            simp [WriteResult.goesOn, WriteResult.count]
        | again ready =>
            cases ready with
            | false => simp [WriteResult.goesOn]
            | true =>
                dsimp only
                rw [if_pos rfl, ih]
                simp [WriteResult.goesOn, WriteResult.count]
        | failed =>
            simp only [Prod.mk.injEq, and_true, WriteResult.goesOn, Bool.false_eq_true, false_and,
              or_false, true_and]
            constructor
            · rintro rfl
              exact ⟨rfl, hlt⟩
            · exact fun h => h.1.symm
      · rw [if_neg hlt]
        constructor
        · intro hfalse
          have hne := congrArg Prod.snd hfalse
          contradiction
        · rintro ⟨⟨_, hw⟩ | ⟨_, _, _, _, _, hw⟩, hw'⟩
          · omega
          · omega

/-- Without a late error a hard error comes before any byte was taken. -/
theorem written_eq_zero_of_failed {len w : Nat} {results : List WriteResult}
    (h : ¬ LateError len results) (hfailed : writeLoop len results 0 = (w, true)) : w = 0 := by
  rcases (writeLoop_failed_iff results 0 w).mp hfailed with
    ⟨⟨before, after, hsplit, hgoes, hw⟩, hlt⟩
  rw [Nat.zero_add] at hw
  by_contra hne
  exact h ⟨before, after, hsplit, hgoes, by omega, by omega⟩

/-! ## The calls -/

/-- The bytes that were sent and those that wait are appended ones in their order. -/
def Output.InOrder (o : Output) : Prop :=
  (o.sent ++ o.buf).Sublist o.appended

theorem length_buf_flush (results : List WriteResult) (o : Output) :
    (o.flush results).buf.length ≤ o.buf.length := by
  unfold Output.flush
  split
  · exact Nat.le_refl _
  · dsimp only
    split
    · rw [List.length_take]
      exact Nat.min_le_right _ _
    · rw [List.length_drop]
      exact Nat.sub_le _ _

theorem length_buf_op {o : Output} (h : o.buf.length ≤ outBufSize) (op : OutputOp) :
    (o.op op).buf.length ≤ outBufSize := by
  cases op with
  | appendData s results =>
      show (o.appendData s results).buf.length ≤ outBufSize
      unfold Output.appendData
      dsimp only
      have hflushed : (if o.buf.length + s.length ≥ outBufSize then o.flush results
          else o).buf.length ≤ outBufSize := by
        split
        · exact Nat.le_trans (length_buf_flush results o) h
        · exact h
      rw [List.length_append, List.length_take]
      omega
  | safeSnprintf text =>
      show (o.safeSnprintf text).buf.length ≤ outBufSize
      unfold Output.safeSnprintf
      dsimp only
      split
      · exact h
      · split
        · rw [List.length_append]
          omega
        · rw [List.length_append, List.length_append, List.length_take, List.length_singleton]
          omega
  | flush results => exact Nat.le_trans (length_buf_flush results o) h
  | reset => exact Nat.zero_le _

/-- The buffer never overflows. -/
theorem length_buf_ops (ops : List OutputOp) : (Output.init.ops ops).buf.length ≤ outBufSize := by
  have hrun : ∀ (ops : List OutputOp) (o : Output), o.buf.length ≤ outBufSize →
      (o.ops ops).buf.length ≤ outBufSize := by
    intro ops
    induction ops with
    | nil => exact fun o h => h
    | cons op ops ih => exact fun o h => ih _ (length_buf_op h op)
  exact hrun ops Output.init (Nat.zero_le _)

/-- A flush without a late error keeps the bytes that were not taken, or none. -/
theorem Output.InOrder.flush {o : Output} (h : o.InOrder) {results : List WriteResult}
    (hsafe : ¬ LateError o.buf.length results) : (o.flush results).InOrder := by
  unfold Output.InOrder Output.flush
  split
  · exact h
  · dsimp only
    generalize hloop : writeLoop o.buf.length results 0 = exit
    rcases exit with ⟨written, failed⟩
    cases failed with
    | true =>
        have hzero := written_eq_zero_of_failed hsafe hloop
        rw [if_pos rfl, hzero, List.take_zero, List.append_nil, List.append_nil]
        exact (List.sublist_append_left _ _).trans h
    | false =>
        rw [if_neg Bool.false_ne_true, List.append_assoc, List.take_append_drop]
        exact h

/-- More bytes of the text that is appended. -/
theorem Output.InOrder.append {o : Output} (h : o.InOrder) {s part : Bytes}
    (hpart : part.Sublist s) :
    Output.InOrder { o with buf := o.buf ++ part, appended := o.appended ++ s } := by
  show (o.sent ++ (o.buf ++ part)).Sublist (o.appended ++ s)
  rw [← List.append_assoc]
  exact List.Sublist.append h hpart

/-- The calls that a safe run makes: no flush meets a late error, and a text of
`snprintf` fits unless there is no room at all. -/
def OutputOp.Safe (o : Output) : OutputOp → Prop
  | .appendData s results =>
      o.buf.length + s.length ≥ outBufSize → ¬ LateError o.buf.length results
  | .safeSnprintf text => o.buf.length < outBufSize → o.buf.length + text.length < outBufSize
  | .flush results => ¬ LateError o.buf.length results
  | .reset => True

theorem Output.InOrder.op {o : Output} (h : o.InOrder) {op : OutputOp} (hsafe : op.Safe o) :
    (o.op op).InOrder := by
  cases op with
  | appendData s results =>
      have hflushed : (if o.buf.length + s.length ≥ outBufSize then o.flush results
          else o).InOrder := by
        split
        · rename_i hfull
          exact h.flush (hsafe hfull)
        · exact h
      exact hflushed.append (List.take_sublist _ _)
  | safeSnprintf text =>
      show (o.safeSnprintf text).InOrder
      unfold Output.safeSnprintf
      dsimp only
      split
      · have hnone := h.append (List.nil_sublist text)
        rw [List.append_nil] at hnone
        exact hnone
      · rename_i hroom
        have hfits := hsafe (by omega)
        rw [if_pos (by omega)]
        exact h.append (List.Sublist.refl text)
  | flush results => exact h.flush hsafe
  | reset =>
      show (o.sent ++ []).Sublist o.appended
      rw [List.append_nil]
      exact (List.sublist_append_left _ _).trans h

/-- A text of `snprintf` that does not fit ends in a null byte, which is sent with it. -/
theorem buf_safeSnprintf_cut {o : Output} (hroom : o.buf.length < outBufSize) {text : Bytes}
    (hcut : outBufSize ≤ o.buf.length + text.length) :
    (o.safeSnprintf text).buf =
      o.buf ++ text.take (outBufSize - o.buf.length - 1) ++ [0] := by
  unfold Output.safeSnprintf
  dsimp only
  rw [if_neg (by omega), if_neg (by omega), List.append_assoc]

/-- A flush with a late error leaves bytes in the buffer that were sent. -/
theorem buf_flush_of_late {o : Output} {results : List WriteResult}
    (h : LateError o.buf.length results) :
    ∃ w, 0 < w ∧ w < o.buf.length ∧ (o.flush results).buf = o.buf.take w ∧
      (o.flush results).sent = o.sent ++ o.buf.take w := by
  rcases h with ⟨before, after, hsplit, hgoes, hpos, hlt⟩
  have hloop : writeLoop o.buf.length results 0 = (taken before, true) := by
    rw [writeLoop_failed_iff]
    exact ⟨⟨before, after, hsplit, hgoes, (Nat.zero_add _).symm⟩, hlt⟩
  refine ⟨taken before, hpos, hlt, ?_⟩
  unfold Output.flush
  rw [if_neg (by omega), hloop]
  exact ⟨rfl, rfl⟩

/-! ## Runs -/

/-- Every call of the run is safe in the state it is made in. -/
def Output.Safe : Output → List OutputOp → Prop
  | _, [] => True
  | o, op :: ops => op.Safe o ∧ (o.op op).Safe ops

/-- For every run of calls from an empty buffer: the buffer never overflows, and when no
flush meets a hard error behind bytes that were taken and no text of `snprintf` is cut,
the bytes sent are a subsequence of the appended texts. -/
theorem output_in_order (ops : List OutputOp) :
    (Output.init.ops ops).buf.length ≤ outBufSize ∧
      (Output.init.Safe ops →
        (Output.init.ops ops).sent.Sublist (Output.init.ops ops).appended) := by
  constructor
  · exact length_buf_ops ops
  · intro hsafe
    have hrun : ∀ (ops : List OutputOp) (o : Output), o.InOrder → o.Safe ops →
        (o.ops ops).InOrder := by
      intro ops
      induction ops with
      | nil => exact fun o h _ => h
      | cons op ops ih => exact fun o h hs => ih _ (h.op hs.1) hs.2
    have horder := hrun ops Output.init (List.Sublist.refl []) hsafe
    exact (List.sublist_append_left _ _).trans horder

/-- A text that is sent in two parts. -/
def twoParts : List OutputOp :=
  [.appendData [65, 66] [], .flush [.wrote 1], .safeSnprintf [67], .flush [.interrupted, .wrote 2]]

theorem two_parts_in_order :
    (Output.init.ops twoParts).buf.length ≤ outBufSize ∧
      (Output.init.ops twoParts).sent.Sublist (Output.init.ops twoParts).appended := by
  have hnone : ∀ (len : Nat) (results : List WriteResult),
      (∀ r ∈ results, r ≠ .failed) → ¬ LateError len results := by
    rintro len results hfine ⟨before, after, hsplit, _⟩
    exact hfine .failed (by rw [hsplit]; simp) rfl
  have hsafe : Output.init.Safe twoParts := by
    refine ⟨?_, ?_, ?_, ?_, trivial⟩
    · exact fun hfull => absurd hfull (by decide)
    · exact hnone _ _ (by simp)
    · exact fun _ => by decide
    · exact hnone _ _ (by simp)
  exact ⟨(output_in_order twoParts).1, (output_in_order twoParts).2 hsafe⟩

/-- A hard error behind the first byte leaves that byte in the buffer. -/
def byteSentTwice : List OutputOp :=
  [.appendData [65, 66] [], .flush [.wrote 1, .failed], .flush [.wrote 1]]

/-- The next flush sends the byte once more. -/
theorem byte_sent_twice :
    ¬ ∀ ops : List OutputOp, (Output.init.ops ops).buf.length ≤ outBufSize ∧
      (Output.init.ops ops).sent.Sublist (Output.init.ops ops).appended := by
  intro h
  have hsent : (Output.init.ops byteSentTwice).sent = [65, 65] := by decide
  have happended : (Output.init.ops byteSentTwice).appended = [65, 66] := by decide
  have hsub := (h byteSentTwice).2
  rw [hsent, happended] at hsub
  exact absurd hsub (by decide)

end RtTui
end Log
end DtCore
