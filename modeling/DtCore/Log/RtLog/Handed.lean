import DtCore.Log.RtLog.Accounting

/-!
# Which entries were handed to a logger

An entry counts as handed to a logger when its logger call returned, and a
`LOG_CONT` entry when every byte of it but the newlines is in a continuation line
whose logger call returned.  `Accounted` is what the drain thread maintains about
the entries flushed so far, as long as no text is cut off and no call for a
continuation line throws.

Main results:

- Theorem `Accounted.flushEntry`: flushing one more entry.
- Theorem `Accounted.handedCount`: once the buffer is empty, all flushed entries
  but the counted ones were handed to a logger.
-/

namespace DtCore
namespace Log
namespace RtLog

open Foundation

/-! ## What the logger calls of a step add -/

section Emitted

variable {β : Type} {env : Spdlog} {s s' : Drain β} {ps : List (Piece β)}

theorem piece_isEntry (ev : Event β) : ev.piece.isEntry = ev.isEntry := by
  cases ev <;> rfl

theorem Emits.mem_events (h : Emits env s s' ps) {ev : Event β} (hev : ev ∈ s.events) :
    ev ∈ s'.events := by
  rcases h.events with ⟨new, hnew, -⟩
  rw [hnew]
  exact List.mem_append_left _ hev

/-- The entries among the logger calls are counted by the pieces. -/
theorem Emits.entries (h : Emits env s s' ps) :
    s'.events.countP Event.isEntry = s.events.countP Event.isEntry + ps.countP Piece.isEntry := by
  rcases h.events with ⟨new, hnew, hps, -⟩
  rw [hnew, List.countP_append, ← hps, List.countP_map]
  congr 2
  exact funext fun ev => (piece_isEntry ev).symm

/-- Every thrown call was counted once. -/
theorem Emits.dropCount (h : Emits env s s' ps) :
    s'.dropCount + s.events.countP Event.counted =
      s.dropCount + s'.events.countP Event.counted := by
  rcases h.events with ⟨new, hnew, -, hdrop, -⟩
  rw [hnew, List.countP_append, hdrop]
  omega

/-- When its lines do not throw nothing is dropped where no entry is logged. -/
theorem Emits.no_drop (h : Emits env s s' ps)
    (hquiet : env.QuietFrom s.lineCalls (lineCount ps))
    (hps : ps.countP Piece.isEntry = 0) : s'.dropCount = s.dropCount := by
  rcases h.events with ⟨new, -, hpieces, hdrop, hlines, -⟩
  have hzero : new.countP Event.counted = 0 := by
    rw [List.countP_eq_zero] at hps ⊢
    intro ev hev
    have hentry : ev.isEntry = false := by
      rw [← piece_isEntry]
      simpa using hps ev.piece (hpieces ▸ List.mem_map_of_mem hev)
    simp [(hlines hquiet ev hev hentry).2]
  rw [hdrop, hzero, Nat.add_zero]

/-- Lines that do not throw are handed over. -/
theorem Emits.lines (h : Emits env s s' ps)
    (hquiet : env.QuietFrom s.lineCalls (lineCount ps))
    (hold : ∀ ev ∈ s.events, ev.isEntry = false → ev.handed = true ∧ ev.counted = false) :
    ∀ ev ∈ s'.events, ev.isEntry = false → ev.handed = true ∧ ev.counted = false := by
  rcases h.events with ⟨new, hnew, -, -, hlines, -⟩
  intro ev hev
  rw [hnew] at hev
  rcases List.mem_append.mp hev with hev | hev
  · exact hold ev hev
  · exact hlines hquiet ev hev

/-- A byte of a line that was asked for is in a line that was handed over. -/
theorem Emits.carries (h : Emits env s s' ps)
    (hquiet : env.QuietFrom s.lineCalls (lineCount ps)) {text : List β} {b : β}
    (htext : Piece.line text ∈ ps) (hb : b ∈ text) :
    ∃ ev ∈ s'.events, ev.handed = true ∧ ev.carries b := by
  rcases h.events with ⟨new, hnew, hps, -, hlines, -⟩
  rw [← hps] at htext
  rcases List.mem_map.mp htext with ⟨ev, hev, hpiece⟩
  cases ev with
  | line level text' fault =>
      cases hpiece
      refine ⟨_, ?_, (hlines hquiet _ hev rfl).1, hb⟩
      rw [hnew]
      exact List.mem_append_right _ hev
  | entry target time level text' thrown => cases hpiece

end Emitted

/-! ## Entries and their bytes -/

section Handed

variable {β : Type} [LogByte β]

/-- Every byte of entry number `t` that is no newline is in a continuation line
that was handed to the default logger. -/
def ContHanded (events : List (Event (β × Origin))) (t : Nat) (e : Entry β) : Prop :=
  ∀ b ∈ (e.tagged t).msg, isNewline b = false → ∃ ev ∈ events, ev.handed = true ∧ ev.carries b

instance decidableCarries [DecidableEq β] (ev : Event β) (b : β) : Decidable (ev.carries b) :=
  match ev with
  | .line _ text _ => inferInstanceAs (Decidable (b ∈ text))
  | .entry _ _ _ _ _ => inferInstanceAs (Decidable False)

instance decidableContHanded [DecidableEq β] (events : List (Event (β × Origin))) (t : Nat)
    (e : Entry β) : Decidable (ContHanded events t e) :=
  inferInstanceAs (Decidable (∀ b ∈ (e.tagged t).msg, isNewline b = false →
    ∃ ev ∈ events, ev.handed = true ∧ ev.carries b))

/-- The number of entries that were handed to a logger, when entry number `n` was the first
one to be flushed. -/
def handedCount [DecidableEq β] (n : Nat) (events : List (Event (β × Origin)))
    (flushed : List (Entry β)) : Nat :=
  events.countP (fun ev => ev.isEntry && ev.handed) +
    (flushed.zipIdx n).countP fun x => x.1.isCont && decide (ContHanded events x.2 x.1)

/-- No byte but newlines is cut off when `e` comes to a buffer that holds `held`
bytes. -/
def Uncut (held : Nat) (e : Entry β) : Prop :=
  e.isCont = true → ∀ b ∈ e.msg.drop (contBufSize - held), isNewline b = true

instance decidableUncut (held : Nat) (e : Entry β) : Decidable (Uncut held e) :=
  inferInstanceAs (Decidable (_ → _))

/-- The lines that `FlushEntry` takes from the buffer for an entry. -/
def Drain.linesFor {γ : Type} [LogByte γ] (d : Drain γ) (e : Entry γ) : List (List γ) :=
  if e.isCont then (cutLines isNewline (d.contBuf ++ (e.clipped d.contBuf).msg)).1
  else textLines isNewline d.contBuf

/-- What the drain thread keeps true of the entries flushed from number `n` on: every byte
of the `LOG_CONT` text is in the buffer or in a line handed over. -/
structure Accounted (n : Nat) (d : Drain (β × Origin)) (flushed : List (Entry β)) : Prop where
  room : d.contBuf.length ≤ contBufSize
  entries : d.events.countP Event.isEntry = flushed.countP fun e => !e.isCont
  lines : ∀ ev ∈ d.events, ev.isEntry = false → ev.handed = true ∧ ev.counted = false
  text : ∀ (t : Nat) (e : Entry β), flushed[t]? = some e → e.isCont = true →
    ∀ b ∈ (e.tagged (n + t)).msg, isNewline b = false →
      b ∈ d.contBuf ∨ ∃ ev ∈ d.events, ev.handed = true ∧ ev.carries b

/-- What is not newline among the bytes of an uncut entry gets into the buffer. -/
theorem Uncut.mem_clipped {held : List (β × Origin)} {e : Entry β} {t : Nat}
    (h : Uncut held.length e) (hcont : e.isCont = true) {b : β × Origin}
    (hb : b ∈ (e.tagged t).msg) (hnl : isNewline b = false) :
    b ∈ ((e.tagged t).clipped held).msg := by
  have hcont' : (e.tagged t).isCont = true := hcont
  simp only [Entry.clipped, hcont', if_true]
  rw [← List.take_append_drop (contBufSize - held.length) (e.tagged t).msg,
    List.mem_append] at hb
  refine hb.resolve_right ?_
  intro hdrop
  have hfst : b.1 ∈ e.msg.drop (contBufSize - held.length) := by
    have hmap : ((e.tagged t).msg.map Prod.fst) = e.msg := congrArg Entry.msg (map_fst_tagged t e)
    rw [← hmap, ← List.map_drop]
    exact List.mem_map_of_mem hdrop
  have htrue : isNewline b = true := h hcont b.1 hfst
  rw [hnl] at htrue
  contradiction

/-- The logger calls for lines are no entries. -/
theorem countP_linePieces (ls : List (List (β × Origin))) :
    (linePieces ls).countP Piece.isEntry = 0 := by
  rw [List.countP_eq_zero]
  intro piece hpiece
  rcases List.mem_map.mp hpiece with ⟨line, -, rfl⟩
  simp [Piece.isEntry]

/-- The lines are what they were counted as. -/
theorem lineCount_linePieces {γ : Type} [LogByte γ] (ls : List (List γ)) :
    lineCount (linePieces ls) = ls.length := by
  unfold lineCount linePieces
  rw [List.countP_map, List.countP_eq_length.mpr]
  intro line _
  rfl

theorem lineCount_concat {γ : Type} [LogByte γ] (ls : List (List γ)) {piece : Piece γ}
    (h : piece.isEntry = true) : lineCount (linePieces ls ++ [piece]) = ls.length := by
  have hentry : lineCount [piece] = 0 := by
    simp [lineCount, h]
  rw [lineCount_append, lineCount_linePieces, hentry, Nat.add_zero]

/-- Text that leaves the buffer is handed over. -/
theorem covered_of_line {env : Spdlog} {d d' : Drain (β × Origin)}
    {ps : List (Piece (β × Origin))} (h : Emits env d d' ps)
    (hquiet : env.QuietFrom d.lineCalls (lineCount ps))
    {ls : List (List (β × Origin))} (hls : linePieces ls ⊆ ps) {b : β × Origin}
    (hb : ∃ l ∈ ls, b ∈ l) : ∃ ev ∈ d'.events, ev.handed = true ∧ ev.carries b := by
  rcases hb with ⟨l, hl, hbl⟩
  exact h.carries hquiet (hls (List.mem_map_of_mem hl)) (List.mem_append_right _ hbl)

/-- Flushing one more entry. -/
theorem Accounted.flushEntry {env : Spdlog} {n : Nat} {d : Drain (β × Origin)}
    {flushed : List (Entry β)} (h : Accounted n d flushed) (hlogger : d.logger.isSome = true)
    {e : Entry β} (huncut : Uncut d.contBuf.length e)
    (hquiet : env.QuietFrom d.lineCalls (d.linesFor (e.tagged (n + flushed.length))).length) :
    Accounted n (d.flushEntry env (e.tagged (n + flushed.length))) (flushed ++ [e]) := by
  have hbuf := flushEntry_contBuf env hlogger h.room (e.tagged (n + flushed.length))
  have hroom := length_heldAfter h.room (e.tagged (n + flushed.length))
  -- the bytes pending in the buffer and those of `e` stay or go out
  have hcover : ∃ ps, Emits env d (d.flushEntry env (e.tagged (n + flushed.length))) ps ∧
      env.QuietFrom d.lineCalls (lineCount ps) ∧
      ps.countP Piece.isEntry = (if e.isCont = true then 0 else 1) ∧
      ∀ b, isNewline b = false →
        (b ∈ d.contBuf ∨ e.isCont = true ∧ b ∈ (e.tagged (n + flushed.length)).msg) →
        b ∈ (d.flushEntry env (e.tagged (n + flushed.length))).contBuf ∨
          ∃ ev ∈ (d.flushEntry env (e.tagged (n + flushed.length))).events,
            ev.handed = true ∧ ev.carries b := by
    by_cases hcont : e.isCont = true
    · have hcont' : (e.tagged (n + flushed.length)).isCont = true := hcont
      have hemit := (flushEntry_cont env hlogger h.room hcont').2
      rw [Drain.linesFor, if_pos hcont', ← lineCount_linePieces] at hquiet
      refine ⟨_, hemit, hquiet, ?_, ?_⟩
      · rw [if_pos hcont, countP_linePieces]
      · intro b hnl hb
        have hmem : b ∈ d.contBuf ++ ((e.tagged (n + flushed.length)).clipped d.contBuf).msg := by
          rcases hb with hb | ⟨-, hb⟩
          · exact List.mem_append_left _ hb
          · exact List.mem_append_right _ (huncut.mem_clipped hcont hb hnl)
        rcases mem_cutLines isNewline hmem hnl with hline | hrest
        · exact Or.inr (covered_of_line hemit hquiet (List.Subset.refl _) hline)
        · left
          rw [hbuf, heldAfter, if_pos hcont']
          exact hrest
    · have hreg : (e.tagged (n + flushed.length)).isCont ≠ true := hcont
      have hemit := (flushEntry_regular env hlogger h.room hreg).2
      have hlines : ∀ piece : Piece (β × Origin), piece.isEntry = true →
          env.QuietFrom d.lineCalls
            (lineCount (linePieces (textLines isNewline d.contBuf) ++ [piece])) := by
        intro piece hpiece
        rw [Drain.linesFor, if_neg hreg] at hquiet
        rw [lineCount_concat _ hpiece]
        exact hquiet
      refine ⟨_, hemit, hlines _ rfl, ?_, ?_⟩
      · rw [if_neg hcont, List.countP_append, countP_linePieces]
        rfl
      · intro b hnl hb
        rcases hb with hb | ⟨hcont', -⟩
        · exact Or.inr (covered_of_line hemit (hlines _ rfl) (List.subset_append_left _ _)
            (mem_textLines isNewline hb hnl))
        · exact absurd hcont' hcont
  rcases hcover with ⟨ps, hemit, hlines, hentries, hcovered⟩
  refine
    { room := ?_
      entries := ?_
      lines := hemit.lines hlines h.lines
      text := ?_ }
  · rw [hbuf]
    exact hroom
  · rw [hemit.entries, h.entries, hentries, List.countP_append]
    by_cases hcont : e.isCont = true <;> simp [hcont]
  · intro t e' ht hcont b hb hnl
    by_cases hlt : t < flushed.length
    · rw [List.getElem?_append_left hlt] at ht
      rcases h.text t e' ht hcont b hb hnl with hold | ⟨ev, hev, hcar⟩
      · exact hcovered b hnl (Or.inl hold)
      · exact Or.inr ⟨ev, hemit.mem_events hev, hcar⟩
    · rw [List.getElem?_append_right (by omega), List.getElem?_singleton] at ht
      split at ht
      · cases ht
        have hteq : t = flushed.length := by omega
        rw [hteq] at hb
        exact hcovered b hnl (Or.inr ⟨hcont, hb⟩)
      · contradiction

/-- `FlushContLines(true)` empties the buffer. -/
theorem Accounted.flushContLines {env : Spdlog} {n : Nat} {d : Drain (β × Origin)}
    {flushed : List (Entry β)} (h : Accounted n d flushed) (hlogger : d.logger.isSome = true)
    (hquiet : env.QuietFrom d.lineCalls (takenLines true d.contBuf).length) :
    Accounted n (d.flushContLines env true) flushed ∧
      (d.flushContLines env true).contBuf = [] ∧
      (d.flushContLines env true).dropCount = d.dropCount := by
  rcases flushContLines_spec env true hlogger h.room with ⟨hbuf, hemit⟩
  rw [← lineCount_linePieces] at hquiet
  have hempty : (d.flushContLines env true).contBuf = [] := by
    rw [hbuf, leftover, if_pos rfl]
  refine ⟨?_, hempty, ?_⟩
  · refine
      { room := ?_
        entries := ?_
        lines := hemit.lines hquiet h.lines
        text := ?_ }
    · rw [hempty]
      exact Nat.zero_le _
    · rw [hemit.entries, countP_linePieces, h.entries, Nat.add_zero]
    · intro t e ht hcont b hb hnl
      right
      rcases h.text t e ht hcont b hb hnl with hold | ⟨ev, hev, hcar⟩
      · refine covered_of_line hemit hquiet (List.Subset.refl _) ?_
        rw [takenLines, if_pos rfl]
        exact mem_textLines isNewline hold hnl
      · exact ⟨ev, hemit.mem_events hev, hcar⟩
  · exact hemit.no_drop hquiet (countP_linePieces _)

/-- `FlushContLines` is no logger call for an entry. -/
theorem flushContLines_entryCalls {γ : Type} [LogByte γ] (env : Spdlog) (force : Bool)
    (s : Drain γ) : (s.flushContLines env force).entryCalls = s.entryCalls := by
  have hline : ∀ (t : Drain γ) (text : List γ), (t.logLine env text).entryCalls = t.entryCalls := by
    intro t text
    unfold Drain.logLine
    cases env.lineFault t.lineCalls <;> rfl
  have hloop : ∀ (n : Nat) (t : Drain γ) (rest : List γ), rest.length = n →
      (t.flushLoop env force rest).1.entryCalls = t.entryCalls := by
    intro n
    induction n using Nat.strongRecOn with
    | ind n ih =>
        intro t rest hn
        rw [Drain.flushLoop]
        split
        · rfl
        · rename_i hne
          split
          · rfl
          · rename_i line rest' hnext
            rw [ih rest'.length (hn ▸ nextLine_length hne hnext) _ rest' rfl, hline]
  unfold Drain.flushContLines
  split
  · rfl
  · exact hloop _ s s.contBuf rfl

/-- The logger calls of one entry are those of some pieces. -/
theorem flushEntry_emits {γ : Type} [LogByte γ] (env : Spdlog) {s : Drain γ}
    (hlogger : s.logger.isSome = true) (hlen : s.contBuf.length ≤ contBufSize) (e : Entry γ) :
    ∃ ps, Emits env s (s.flushEntry env e) ps := by
  by_cases hcont : e.isCont = true
  · exact ⟨_, (flushEntry_cont env hlogger hlen hcont).2⟩
  · exact ⟨_, (flushEntry_regular env hlogger hlen hcont).2⟩

/-- An entry is counted as dropped only when its own logger call throws. -/
theorem flushEntry_no_drop {env : Spdlog} {d : Drain (β × Origin)}
    (hlogger : d.logger.isSome = true) (hlen : d.contBuf.length ≤ contBufSize)
    {e : Entry (β × Origin)} (hquiet : env.QuietFrom d.lineCalls (d.linesFor e).length)
    (hthrow : e.isCont = false → env.entryThrows d.entryCalls = false) :
    (d.flushEntry env e).dropCount = d.dropCount := by
  by_cases hcont : e.isCont = true
  · rw [Drain.linesFor, if_pos hcont, ← lineCount_linePieces] at hquiet
    exact (flushEntry_cont env hlogger hlen hcont).2.no_drop hquiet (countP_linePieces _)
  · rw [Drain.linesFor, if_neg hcont, ← lineCount_linePieces] at hquiet
    have hflush : ∃ t : Drain (β × Origin),
        (if d.contBuf ≠ [] then d.flushContLines env true else d) = t ∧
          t.dropCount = d.dropCount ∧ t.entryCalls = d.entryCalls := by
      by_cases hbuf : d.contBuf = []
      · exact ⟨d, by simp [hbuf], rfl, rfl⟩
      · have hemit := (flushContLines_spec env true hlogger hlen).2
        exact ⟨_, if_pos hbuf, hemit.no_drop hquiet (countP_linePieces _),
          flushContLines_entryCalls env true d⟩
    rcases hflush with ⟨t, ht, hdrop, hcalls⟩
    have hquietly : env.entryThrows t.entryCalls = false := by
      rw [hcalls]
      exact hthrow (by simpa using hcont)
    rw [Drain.flushEntry, if_neg hcont, ht, ← hdrop]
    unfold Drain.logEntry
    dsimp only
    split
    · rfl
    · simp [hquietly]

/-- A call for an entry hands it over or is counted. -/
theorem handed_of_isEntry {γ : Type} {ev : Event γ} (h : ev.isEntry = true) :
    ev.handed = !ev.counted := by
  cases ev with
  | line level text fault => contradiction
  | entry target time level text thrown => rfl

/-- Among calls whose lines were all handed over, each entry was handed over or
counted. -/
theorem countP_handed {γ : Type} (events : List (Event γ))
    (hlines : ∀ ev ∈ events, ev.isEntry = false → ev.handed = true ∧ ev.counted = false) :
    events.countP (fun ev => ev.isEntry && ev.handed) + events.countP Event.counted =
      events.countP Event.isEntry := by
  induction events with
  | nil => rfl
  | cons ev evs ih =>
      have hrest := ih fun x hx => hlines x (List.mem_cons_of_mem _ hx)
      have hhead : (if (ev.isEntry && ev.handed) = true then 1 else 0) +
          (if ev.counted = true then 1 else 0) = if ev.isEntry = true then 1 else 0 := by
        cases hentry : ev.isEntry with
        | false => simp [(hlines ev List.mem_cons_self hentry).2]
        | true =>
            rw [handed_of_isEntry hentry]
            cases ev.counted <;> rfl
      simp only [List.countP_cons]
      omega

/-- With an empty buffer the flushed entries are those handed to a logger and the
counted ones. -/
theorem Accounted.handedCount [DecidableEq β] {n : Nat} {d : Drain (β × Origin)}
    {flushed : List (Entry β)} (h : Accounted n d flushed) (hempty : d.contBuf = []) :
    handedCount n d.events flushed + d.events.countP Event.counted = flushed.length := by
  have hregular := countP_handed d.events h.lines
  have hcont : ((flushed.zipIdx n).countP fun x =>
        x.1.isCont && decide (ContHanded d.events x.2 x.1)) =
      flushed.countP fun e => e.isCont := by
    have hall : ∀ x ∈ flushed.zipIdx n,
        (x.1.isCont && decide (ContHanded d.events x.2 x.1)) = x.1.isCont := by
      intro x hx
      rcases List.mk_mem_zipIdx_iff_le_and_getElem?_sub.mp hx with ⟨hle, hget⟩
      cases hc : x.1.isCont with
      | false => rfl
      | true =>
          have hhanded : ContHanded d.events x.2 x.1 := by
            intro b hb hnl
            rw [← Nat.add_sub_of_le hle] at hb
            rcases h.text (x.2 - n) x.1 hget hc b hb hnl with hbuf | hcar
            · rw [hempty] at hbuf
              contradiction
            · exact hcar
          simp [hhanded]
    rw [List.countP_congr fun x hx => by rw [hall x hx]]
    have hmap : flushed.countP (fun e => e.isCont) =
        ((flushed.zipIdx n).map Prod.fst).countP fun e => e.isCont := by
      rw [List.zipIdx_map_fst]
    rw [hmap, List.countP_map]
    rfl
  have hsum : flushed.countP (fun e => e.isCont) + flushed.countP (fun e => !e.isCont) =
      flushed.length := by
    rw [List.length_eq_countP_add_countP fun e : Entry β => e.isCont]
    simp
  unfold RtLog.handedCount
  rw [hcont]
  have := h.entries
  omega

end Handed

end RtLog
end Log
end DtCore
