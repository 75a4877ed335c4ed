import DtCore.Foundation.Outbox
import DtCore.Log.ColorSink.Model

/-!
# The stream of the coloured sink

The sink is an outbox of 64 KB: a flush passes on blocks from the front, and an
append admits its clipped data, losing exactly the bytes in excess after the
flush.  The simulation holds for all results of `write`, and a call that has not
returned from `write` has only passed on a part of the pending bytes.

Main results:

- Theorem `flushBuffer_sends`: `FlushBuffer` passes on blocks from the front.
- Theorem `call_serves`: every call is a step of the outbox.
- Theorem `stream_kept`: what is written, removed and kept is the stream.
-/

namespace DtCore
namespace Log
namespace ColorSink

open Foundation

/-! ## Conditions on outcomes -/

/-- The piece stays inside `m_buf`; `P` holds where it ends and `Q` where it is
still inside `write`. -/
def Outcome.Ensures {α : Type} (P : α → Prop) (Q : State → Prop) : Outcome α → Prop
  | .done a => P a
  | .inWrite s => Q s
  | .outOfBounds => False

theorem Outcome.Ensures.bind {α β : Type} {P : α → Prop} {P' : β → Prop} {Q : State → Prop}
    {x : Outcome α} {f : α → Outcome β} (hx : x.Ensures P Q)
    (hf : ∀ a, P a → (f a).Ensures P' Q) : (x.bind f).Ensures P' Q := by
  cases x with
  | done a => exact hf a hx
  | inWrite s => exact hx
  | outOfBounds => exact hx

theorem Outcome.Ensures.mono {α : Type} {P P' : α → Prop} {Q Q' : State → Prop}
    {x : Outcome α} (hx : x.Ensures P Q) (hP : ∀ a, P a → P' a) (hQ : ∀ s, Q s → Q' s) :
    x.Ensures P' Q' := by
  cases x with
  | done a => exact hP a hx
  | inWrite s => exact hQ s hx
  | outOfBounds => exact hx

/-! ## The simulation relation -/

/-- The bytes of `m_buf` that `m_pos` covers. -/
def State.retained (s : State) : Bytes :=
  s.buf.cells.take s.pos

theorem State.length_retained {s : State} (h : s.pos ≤ internalBufSize) :
    s.retained.length = s.pos := by
  rw [retained, List.length_take, s.buf.length_cells]
  exact Nat.min_eq_left h

/-- A sink whose flush has written the first bytes of `m_buf` shows an outbox. -/
structure InFlush (s : State) (written : Nat) (o : Outbox UInt8) : Prop where
  pos_le : s.pos ≤ internalBufSize
  written_le : written ≤ s.pos
  pending : o.pending = s.retained.drop written
  sent : o.sent = s.fd

/-- Between two calls nothing is half written. -/
def Shows (s : State) (o : Outbox UInt8) : Prop :=
  InFlush s 0 o

theorem Shows.pending {s : State} {o : Outbox UInt8} (h : Shows s o) :
    o.pending = s.retained := by
  simpa using InFlush.pending h

theorem Shows.length_pending {s : State} {o : Outbox UInt8} (h : Shows s o) :
    o.pending.length = s.pos := by
  rw [h.pending, State.length_retained (InFlush.pos_le h)]

/-- A call that is still inside `write` has passed on some of the pending bytes;
`m_buf` is as the call found it. -/
def Inside (o : Outbox UInt8) (s : State) : Prop :=
  o.pending = s.retained ∧
    ∃ written ns, written < s.pos ∧ InFlush s written (o.sendAll ns)

/-! ## FlushBuffer -/

/-- The bytes offered to `write` are the pending ones. -/
theorem InFlush.slice {s : State} {written : Nat} {o : Outbox UInt8} (h : InFlush s written o) :
    s.buf.slice written (s.pos - written) = some o.pending := by
  have hle := h.written_le
  have hpos := h.pos_le
  have hsum : written + (s.pos - written) = s.pos := by omega
  rw [Block.slice, if_pos (hsum.symm ▸ hpos), Block.drop_take_cells, hsum, h.pending]
  rfl

/-- A positive count passes on a block. -/
theorem InFlush.send {s : State} {written : Nat} {o : Outbox UInt8} (h : InFlush s written o)
    (n : Nat) :
    InFlush { s with fd := s.fd ++ o.pending.take n } (written + (o.pending.take n).length)
      (o.send n) := by
  have hlen : o.pending.length = s.pos - written := by
    rw [h.pending, List.length_drop, State.length_retained h.pos_le]
  have hle := h.written_le
  constructor
  · exact h.pos_le
  · rw [List.length_take, hlen]
    show written + min n (s.pos - written) ≤ s.pos
    omega
  · rw [Outbox.pending_send, List.length_take, h.pending, List.drop_drop]
    show s.retained.drop (written + n) =
      s.retained.drop (written + min n (s.retained.drop written).length)
    rcases Nat.le_total n (s.retained.drop written).length with hn | hn
    · rw [Nat.min_eq_left hn]
    · rw [Nat.min_eq_right hn]
      rw [List.length_drop] at hn ⊢
      rw [List.drop_of_length_le (by omega), List.drop_of_length_le (by omega)]
  · rw [Outbox.sent_send, h.sent]

/-- The results of `write` that are still in store do not matter. -/
theorem InFlush.withWrites {s : State} {written : Nat} {o : Outbox UInt8}
    (h : InFlush s written o) (rs : List WriteResult) :
    InFlush { s with writes := rs } written o where
  pos_le := h.pos_le
  written_le := h.written_le
  pending := h.pending
  sent := h.sent

/-- The loop passes on blocks from the front and leaves `m_buf` alone. -/
theorem writeLoop_sends (rs : List WriteResult) {written : Nat} {s : State}
    {o : Outbox UInt8} (h : InFlush s written o) :
    (State.writeLoop rs written s).Ensures
      (fun e => ∃ ns, InFlush e.2 e.1 (o.sendAll ns))
      (fun s' => s'.retained = s.retained ∧
        ∃ written ns, written < s'.pos ∧ InFlush s' written (o.sendAll ns)) := by
  induction rs generalizing written s o with
  | nil =>
      unfold State.writeLoop
      split
      · rename_i hlt
        exact ⟨rfl, written, [], hlt, h.withWrites []⟩
      · exact ⟨[], h.withWrites []⟩
  | cons r rs ih =>
      unfold State.writeLoop
      split
      · rw [h.slice]
        simp only [Outcome.ofCopy, Outcome.bind]
        split
        · exact ⟨[], h.withWrites rs⟩
        · rename_i n
          apply (ih (h.send (n + 1))).mono
          · rintro e ⟨ns, he⟩
            exact ⟨(n + 1) :: ns, he⟩
          · rintro s' ⟨hbuf, w, ns, hlt, hs'⟩
            exact ⟨hbuf, w, (n + 1) :: ns, hlt, hs'⟩
        · exact ih h
        · exact ⟨[], h.withWrites rs⟩
      · exact ⟨[], h.withWrites (r :: rs)⟩

/-- Sliding a tail of the retained bytes to the front stays inside `m_buf`. -/
theorem move_retained {s : State} {n : Nat} (hpos : s.pos ≤ internalBufSize) (hn : n ≤ s.pos) :
    ∃ buf, s.buf.move 0 n (s.pos - n) = some buf ∧
      buf.cells.take (s.pos - n) = s.retained.drop n := by
  have hsum : n + (s.pos - n) = s.pos := Nat.add_sub_of_le hn
  have hsrc : n + (s.pos - n) ≤ internalBufSize := hsum.symm ▸ hpos
  have hdst : 0 + (s.pos - n) ≤ internalBufSize := by omega
  rcases Block.move_isSome s.buf 0 hsrc hdst with ⟨buf, hbuf⟩
  apply Exists.intro buf
  constructor
  · exact hbuf
  · rw [Block.take_move hbuf, Block.drop_take_cells, hsum]
    rfl

/-- Sliding the unwritten bytes to the front keeps what is pending. -/
theorem slide_shows {s : State} {written : Nat} {o : Outbox UInt8} {Q : State → Prop}
    (h : InFlush s written o) : (s.slide written).Ensures (fun s' => Shows s' o) Q := by
  have hsent := h.sent
  have hlen := State.length_retained h.pos_le
  unfold State.slide
  split
  · rename_i hge
    have hnil : o.pending = [] := by
      rw [h.pending]
      exact List.drop_of_length_le (Nat.le_trans (Nat.le_of_eq hlen) hge)
    exact { pos_le := Nat.zero_le _, written_le := Nat.zero_le _, pending := hnil,
            sent := hsent }
  · simp only
    split
    · rcases move_retained h.pos_le h.written_le with ⟨buf, hbuf, htake⟩
      rw [hbuf]
      constructor
      · exact Nat.le_trans (Nat.sub_le _ _) h.pos_le
      · exact Nat.zero_le _
      · rw [h.pending, ← htake]
        rfl
      · exact hsent
    · rename_i hzero
      have hw : written = 0 := by omega
      subst hw
      exact h

/-- `FlushBuffer` passes on blocks from the front. -/
theorem flushBuffer_sends {s : State} {o : Outbox UInt8} (h : Shows s o) :
    s.flushBuffer.Ensures (fun s' => ∃ ns, Shows s' (o.sendAll ns)) (Inside o) := by
  unfold State.flushBuffer
  split
  · exact ⟨[], h⟩
  · have hloop := (writeLoop_sends s.writes h).mono (fun _ he => he)
      (fun s' hs' => (⟨h.pending.trans hs'.1.symm, hs'.2⟩ : Inside o s'))
    apply hloop.bind
    rintro e ⟨ns, he⟩
    exact (slide_shows he).mono (fun s' hs' => ⟨ns, hs'⟩) (fun _ hq => hq)

/-! ## AppendData -/

theorem sizeSub_of_le {a b : Nat} (hba : b ≤ a) (ha : a < 2 ^ 64) : sizeSub a b = a - b := by
  rw [sizeSub, Nat.sub_add_comm hba, Nat.add_mod_right, Nat.mod_eq_of_lt]
  omega

theorem length_clip (data : Bytes) : (clip data).length < internalBufSize := by
  unfold clip
  split
  · rw [List.length_drop, internalBufSize] at *
    omega
  · omega

/-- A block that fits is stored behind the pending bytes. -/
theorem store_pushes {s : State} {o : Outbox UInt8} {data : Bytes} {Q : State → Prop}
    (h : Shows s o) (hfit : s.pos + data.length ≤ internalBufSize) :
    (s.store data).Ensures (fun s' => Shows s' (o.push data)) Q := by
  rcases Block.copyIn_isSome s.buf hfit with ⟨buf, hbuf⟩
  have hsent := InFlush.sent h
  unfold State.store
  rw [hbuf]
  constructor
  · exact hfit
  · exact Nat.zero_le _
  · rw [List.drop_zero, Outbox.pending_push, h.pending]
    exact (Block.take_copyIn hbuf).symm
  · exact hsent

/-- The two subtractions of `AppendData` do not wrap. -/
theorem sizeSub_discard {pos len : Nat} (hpos : pos ≤ internalBufSize)
    (hlen : len < internalBufSize) (hfull : pos + len > internalBufSize) :
    sizeSub (pos + len) internalBufSize = pos + len - internalBufSize ∧
      sizeSub pos (pos + len - internalBufSize) = pos - (pos + len - internalBufSize) := by
  have hsize : internalBufSize < 2 ^ 63 := by decide
  constructor
  · apply sizeSub_of_le
    · exact Nat.le_of_lt hfull
    · omega
  · apply sizeSub_of_le
    · omega
    · omega

/-- Discarding stays inside `m_buf`, removes the oldest bytes and makes room. -/
theorem discard_pushes {s : State} {n : Nat} {o : Outbox UInt8} {data : Bytes}
    {Q : State → Prop} (h : Shows s o) (hn : n ≤ s.pos)
    (hfit : s.pos - n + data.length ≤ internalBufSize) :
    (((Outcome.ofCopy (s.buf.move 0 n (s.pos - n))).bind (fun buf =>
      .done { s with buf := buf, pos := s.pos - n })).bind (State.store data)).Ensures
      (fun s' => Shows s' ((o.remove n).push data)) Q := by
  have hpos := InFlush.pos_le h
  have hsent := InFlush.sent h
  rcases move_retained hpos hn with ⟨buf, hbuf, htake⟩
  have hshows : Shows { s with buf := buf, pos := s.pos - n } (o.remove n) := by
    constructor
    · exact Nat.le_trans (Nat.sub_le _ _) hpos
    · exact Nat.zero_le _
    · rw [Outbox.pending_remove, h.pending, ← htake]
      rfl
    · rw [Outbox.sent_remove]
      exact hsent
  rw [hbuf]
  exact store_pushes hshows hfit

/-- Behind a flush the data is admitted, at the expense of the oldest bytes. -/
theorem makeRoom_admits {s : State} {o : Outbox UInt8} {data : Bytes} {Q : State → Prop}
    (h : Shows s o) (hdata : data.length < internalBufSize) :
    ((s.makeRoom data.length).bind (State.store data)).Ensures
      (fun s' => Shows s' (o.accept internalBufSize data)) Q := by
  have hpos : s.pos ≤ internalBufSize := InFlush.pos_le h
  unfold State.makeRoom
  by_cases hfull : s.pos + data.length > internalBufSize
  · have hover : ¬ s.pos + data.length ≤ internalBufSize := by omega
    have hsub := sizeSub_discard hpos hdata hfull
    have hn : s.pos + data.length - internalBufSize ≤ s.pos := by omega
    have hfit : s.pos - (s.pos + data.length - internalBufSize) + data.length ≤
        internalBufSize := by omega
    rw [if_pos hfull, Outbox.accept, h.length_pending, if_neg hover]
    simp only [hsub.1, hsub.2]
    -- with the literal in sight the kernel would count down from it
    generalize s.pos + data.length - internalBufSize = n at hn hfit ⊢
    exact discard_pushes h hn hfit
  · have hfit := Nat.not_lt.mp hfull
    rw [if_neg hfull, Outbox.accept, h.length_pending, if_pos hfit]
    exact store_pushes h hfit

/-! ## The outbox that the calls serve -/

/-- What a call may do to the outbox.  Bytes are removed only in an append whose
flush left too many, and then the oldest in excess are. -/
inductive Serves : Outbox UInt8 → Call → Outbox UInt8 → Prop where
  | flush (o : Outbox UInt8) (ns : List Nat) : Serves o .flushBuffer (o.sendAll ns)
  | fits {o : Outbox UInt8} {data : Bytes}
      (h : o.pending.length + (clip data).length ≤ internalBufSize) :
      Serves o (.appendData data) (o.push (clip data))
  | full {o : Outbox UInt8} {data : Bytes} (ns : List Nat)
      (h : o.pending.length + (clip data).length > internalBufSize) :
      Serves o (.appendData data) ((o.sendAll ns).accept internalBufSize (clip data))

theorem Serves.stream {o o' : Outbox UInt8} {c : Call} (h : Serves o c o') :
    o'.stream = o.stream ++ c.bytes := by
  cases h with
  | flush ns => simp [Call.bytes]
  | fits h => exact Outbox.stream_push _ _
  | full ns h => rw [Outbox.stream_accept, Outbox.stream_sendAll]; rfl

/-- `AppendData` admits its clipped data. -/
theorem appendData_serves {s : State} {o : Outbox UInt8} (h : Shows s o) (data : Bytes) :
    (s.appendData data).Ensures
      (fun s' => ∃ o', Serves o (.appendData data) o' ∧ Shows s' o') (Inside o) := by
  have hclip := length_clip data
  unfold State.appendData State.appendClipped
  split
  · rename_i hnil
    have hdata : data = [] := List.length_eq_zero_iff.mp hnil
    subst hdata
    have hserves : Serves o (.appendData []) (o.push (clip [])) := by
      apply Serves.fits
      rw [h.length_pending]
      exact InFlush.pos_le h
    have hsame : o.push (clip []) = o := by simp [Outbox.push, clip, internalBufSize]
    exact ⟨_, hserves, hsame.symm ▸ h⟩
  · split
    · rename_i hfull
      rw [← h.length_pending] at hfull
      have hall : ((s.flushBuffer.bind (State.makeRoom (clip data).length)).bind
          (State.store (clip data))).Ensures
          (fun s' => ∃ ns, Shows s' ((o.sendAll ns).accept internalBufSize (clip data)))
          (Inside o) := by
        have hflush := flushBuffer_sends h
        revert hflush
        cases s.flushBuffer with
        | done t =>
            rintro ⟨ns, ht⟩
            exact (makeRoom_admits ht hclip).mono (fun s' hs' => ⟨ns, hs'⟩) (fun _ hq => hq)
        | inWrite t => exact id
        | outOfBounds => exact id
      apply hall.mono
      · rintro s' ⟨ns, hs'⟩
        exact ⟨_, Serves.full ns hfull, hs'⟩
      · exact fun _ hq => hq
    · rename_i hfit
      have hle := Nat.not_lt.mp hfit
      apply (store_pushes h hle).mono
      · intro s' hs'
        rw [← h.length_pending] at hle
        exact ⟨_, Serves.fits hle, hs'⟩
      · exact fun _ hq => hq

/-- Every call is a step of the outbox. -/
theorem call_serves {s : State} {o : Outbox UInt8} (h : Shows s o) (c : Call) :
    (s.call c).Ensures (fun s' => ∃ o', Serves o c o' ∧ Shows s' o') (Inside o) := by
  cases c with
  | appendData data => exact appendData_serves h data
  | flushBuffer =>
      apply (flushBuffer_sends h).mono
      · rintro s' ⟨ns, hs'⟩
        exact ⟨_, Serves.flush o ns, hs'⟩
      · exact fun _ hq => hq

/-! ## Runs -/

/-- The states and outboxes of a run, call by call. -/
inductive Ledger (writes : List WriteResult) : List Call → State → Outbox UInt8 → Prop where
  | start : Ledger writes [] (State.construct writes) Outbox.empty
  | call {cs : List Call} {s s' : State} {o o' : Outbox UInt8} {c : Call} :
      Ledger writes cs s o → s.call c = .done s' → Serves o c o' → Shows s' o' →
        Ledger writes (cs ++ [c]) s' o'

theorem construct_shows (writes : List WriteResult) :
    Shows (State.construct writes) Outbox.empty where
  pos_le := Nat.zero_le _
  written_le := Nat.zero_le _
  pending := rfl
  sent := rfl

theorem Ledger.shows {writes : List WriteResult} {cs : List Call} {s : State}
    {o : Outbox UInt8} (h : Ledger writes cs s o) : Shows s o := by
  cases h with
  | start => exact construct_shows writes
  | call _ _ _ hs => exact hs

/-- The outbox has taken the whole stream. -/
theorem Ledger.stream {writes : List WriteResult} {cs : List Call} {s : State}
    {o : Outbox UInt8} (h : Ledger writes cs s o) : o.stream = ColorSink.stream cs := by
  induction h with
  | start => rfl
  | call _ _ hserves _ ih =>
      rw [hserves.stream, ih, ColorSink.stream, ColorSink.stream, List.map_append,
        List.flatten_append]
      simp

/-- A suffix of the stream is its last bytes. -/
theorem Ledger.retained {writes : List WriteResult} {cs : List Call} {s : State}
    {o : Outbox UInt8} (h : Ledger writes cs s o) :
    s.retained = (ColorSink.stream cs).drop ((ColorSink.stream cs).length - s.pos) := by
  have hsuffix := o.pending_suffix_stream
  rw [h.stream, h.shows.pending] at hsuffix
  have hdrop := List.suffix_iff_eq_drop.mp hsuffix
  rw [State.length_retained (InFlush.pos_le h.shows)] at hdrop
  exact hdrop

/-- The run from a state that a ledger reaches. -/
theorem calls_ledger {writes : List WriteResult} (cs : List Call) {before : List Call}
    {s : State} {o : Outbox UInt8} (h : Ledger writes before s o) :
    (State.calls cs s).Ensures
      (fun s' => ∃ o', Ledger writes (before ++ cs) s' o')
      (fun s' => ∃ returned c rest t o', before ++ cs = returned ++ c :: rest ∧
        Ledger writes returned t o' ∧ Inside o' s') := by
  induction cs generalizing before s o with
  | nil =>
      apply Exists.intro o
      rwa [List.append_nil]
  | cons c cs ih =>
      have hcall := call_serves h.shows c
      unfold State.calls
      cases hout : s.call c with
      | done s' =>
          rw [hout] at hcall
          rcases hcall with ⟨o', hserves, hshows⟩
          have hnext := ih (h.call hout hserves hshows)
          rw [List.append_assoc] at hnext
          exact hnext
      | inWrite s' =>
          rw [hout] at hcall
          exact ⟨before, c, cs, s, o, rfl, h, hcall⟩
      | outOfBounds =>
          rw [hout] at hcall
          exact hcall

/-- For every sequence of calls and of results of `write`, no copy leaves `m_buf`.
After the calls `m_buf` holds the last `m_pos` bytes of the stream, and a ledger
splits the stream into the bytes written, the blocks removed and these bytes.
Inside a call the same holds for the calls before it, up to a part of the pending
bytes that is already written. -/
theorem stream_kept (cs : List Call) (writes : List WriteResult) :
    (State.calls cs (State.construct writes)).Ensures
      (fun s => s.pos ≤ internalBufSize ∧
        s.retained = (stream cs).drop ((stream cs).length - s.pos) ∧
        ∃ o, Ledger writes cs s o ∧ o.stream = stream cs ∧ o.sent = s.fd ∧
          o.pending = s.retained)
      (fun s => ∃ returned c rest, cs = returned ++ c :: rest ∧
        s.pos ≤ internalBufSize ∧
        s.retained = (stream returned).drop ((stream returned).length - s.pos) ∧
        ∃ t o ns, Ledger writes returned t o ∧ o.stream = stream returned ∧
          o.pending = s.retained ∧ (o.sendAll ns).sent = s.fd) := by
  have hstart : Ledger writes [] (State.construct writes) Outbox.empty := Ledger.start
  apply (calls_ledger cs hstart).mono
  · rintro s ⟨o, ho⟩
    constructor
    · exact InFlush.pos_le ho.shows
    · constructor
      · exact ho.retained
      · exact ⟨o, ho, ho.stream, InFlush.sent ho.shows, ho.shows.pending⟩
  · rintro s ⟨returned, c, rest, t, o, hcs, ho, hpending, written, ns, _, hflush⟩
    have hretained : s.retained = t.retained := by rw [← hpending, ho.shows.pending]
    have hpos : s.pos = t.pos := by
      rw [← State.length_retained hflush.pos_le, hretained,
        State.length_retained (InFlush.pos_le ho.shows)]
    apply Exists.intro returned
    apply Exists.intro c
    apply Exists.intro rest
    constructor
    · exact hcs
    · constructor
      · exact hflush.pos_le
      · constructor
        · rw [hretained, hpos]
          exact ho.retained
        · exact ⟨t, o, ns, ho, ho.stream, hpending, hflush.sent⟩

end ColorSink
end Log
end DtCore
