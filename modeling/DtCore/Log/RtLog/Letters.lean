import DtCore.Log.RtLog.Drain

/-!
# Relabelling the letters of a run

The drain thread looks at no letter but the newline and adds none but the space
of the indent.  So a run over letters that carry where they came from is the run
over the bare letters once the origins are forgotten, and where a letter ends up
can be read off the run with origins.

Main results:

- Theorem `flushEntry_map`: relabelling commutes with one entry.
- Theorem `flushAll_map`: and so with all entries.
-/

namespace DtCore
namespace Log
namespace RtLog

variable {β γ : Type}

/-- Relabel the text of a try block. -/
def Event.map (f : β → γ) : Event β → Event γ
  | .line level text fault => .line level (text.map f) fault
  | .entry target time level text thrown => .entry target time level (text.map f) thrown

/-- Relabel the payload of an entry. -/
def Entry.map (f : β → γ) (e : Entry β) : Entry γ :=
  { timeStamp_ns := e.timeStamp_ns
    level := e.level
    msg := e.msg.map f
    loggerName := e.loggerName }

/-- Relabel the buffer and the events of the drain thread. -/
def Drain.map (f : β → γ) (s : Drain β) : Drain γ :=
  { logger := s.logger
    timebase := s.timebase
    contBuf := s.contBuf.map f
    contLevel := s.contLevel
    patternStr := s.patternStr
    dropCount := s.dropCount
    lineCalls := s.lineCalls
    entryCalls := s.entryCalls
    events := s.events.map (Event.map f) }

/-- A relabelling that keeps newlines and the space of the indent. -/
structure KeepsLetters [LogByte β] [LogByte γ] (f : β → γ) : Prop where
  space : f LogByte.space = LogByte.space
  isNewline : ∀ b, LogByte.isNewline (f b) = LogByte.isNewline b

/-- Forgetting the origin of letters keeps newlines and spaces. -/
theorem keepsLetters_fst [LogByte β] : KeepsLetters (Prod.fst : β × Option γ → β) where
  space := rfl
  isNewline _ := rfl

@[simp]
theorem entry_map_isCont (f : β → γ) (e : Entry β) : (e.map f).isCont = e.isCont :=
  rfl

section Flush

variable [LogByte β] [LogByte γ] {f : β → γ} (hf : KeepsLetters f) (env : Spdlog)
include hf

theorem indentLine_map (line : List β) :
    indentLine (line.map f) = (indentLine line).map f := by
  simp [indentLine, hf.space]

theorem nextLine_map (force : Bool) (rest : List β) :
    nextLine force (rest.map f) =
      (nextLine force rest).map (Prod.map (List.map f) (List.map f)) := by
  have hcomp : LogByte.isNewline ∘ f = LogByte.isNewline := funext hf.isNewline
  unfold nextLine
  rw [List.findIdx?_map, hcomp]
  cases rest.findIdx? LogByte.isNewline with
  | none => cases force <;> rfl
  | some i => simp

omit hf [LogByte β] [LogByte γ] in
theorem logLine_map (s : Drain β) (text : List β) :
    (s.logLine env text).map f = (s.map f).logLine env (text.map f) := by
  unfold Drain.logLine
  have hcalls : (s.map f).lineCalls = s.lineCalls := rfl
  rw [hcalls]
  cases env.lineFault s.lineCalls <;> simp [Drain.map, Event.map]

theorem flushLoop_map (force : Bool) (s : Drain β) (rest : List β) :
    (s.map f).flushLoop env force (rest.map f) =
      ((s.flushLoop env force rest).1.map f, (s.flushLoop env force rest).2.map f) := by
  induction hn : rest.length using Nat.strongRecOn generalizing s rest with
  | ind n ih =>
      rw [Drain.flushLoop, Drain.flushLoop]
      by_cases hne : rest = []
      · subst hne
        rfl
      · have hne' : rest.map f ≠ [] := by simpa using hne
        rw [dif_neg hne, dif_neg hne']
        cases hnext : nextLine force rest with
        | none =>
            have hnext' : nextLine force (rest.map f) = none := by
              rw [nextLine_map hf, hnext]
              rfl
            split
            · rfl
            · rename_i heq
              rw [hnext'] at heq
              contradiction
        | some r =>
            obtain ⟨line, rest'⟩ := r
            have hnext' : nextLine force (rest.map f) = some (line.map f, rest'.map f) := by
              rw [nextLine_map hf, hnext]
              rfl
            split
            · rename_i heq
              rw [hnext'] at heq
              contradiction
            · rename_i l r heq
              rw [hnext'] at heq
              obtain ⟨rfl, rfl⟩ := Prod.mk.inj (Option.some.inj heq)
              have hlt := nextLine_length hne hnext
              rw [indentLine_map hf, ← logLine_map]
              exact ih rest'.length (hn ▸ hlt) (s.logLine env (indentLine line)) rest' rfl

theorem flushContLines_map (force : Bool) (s : Drain β) :
    (s.flushContLines env force).map f = (s.map f).flushContLines env force := by
  unfold Drain.flushContLines
  have hlogger : (s.map f).logger = s.logger := rfl
  have hbuf : (s.map f).contBuf = s.contBuf.map f := rfl
  rw [hlogger]
  cases s.logger with
  | none => rfl
  | some pattern =>
      dsimp only
      rw [hbuf, flushLoop_map hf]
      rfl

omit hf [LogByte β] [LogByte γ] in
theorem logEntry_map (s : Drain β) (e : Entry β) :
    (s.logEntry env e).map f = (s.map f).logEntry env (e.map f) := by
  have htarget : (s.map f).target env (e.map f) = s.target env e := rfl
  unfold Drain.logEntry
  rw [htarget]
  cases s.target env e with
  | none => rfl
  | some target =>
      simp only [Drain.map, Event.map, Entry.map, List.map_append, List.map_singleton]
      rfl

/-- Relabelling the letters commutes with `FlushEntry`. -/
theorem flushEntry_map (s : Drain β) (e : Entry β) :
    (s.flushEntry env e).map f = (s.map f).flushEntry env (e.map f) := by
  unfold Drain.flushEntry
  rw [entry_map_isCont]
  split
  · rw [flushContLines_map hf]
    simp [Drain.map, Entry.map]
  · have hne : (s.map f).contBuf ≠ [] ↔ s.contBuf ≠ [] := by simp [Drain.map]
    rw [logEntry_map]
    by_cases hbuf : s.contBuf ≠ []
    · rw [if_pos hbuf, if_pos (hne.mpr hbuf), flushContLines_map hf]
    · rw [if_neg hbuf, if_neg (mt hne.mp hbuf)]

/-- Relabelling the letters commutes with feeding entries one by one. -/
theorem flushAll_map (s : Drain β) (es : List (Entry β)) :
    (s.flushAll env es).map f = (s.map f).flushAll env (es.map (Entry.map f)) := by
  induction es generalizing s with
  | nil => rfl
  | cons e es ih =>
      have hstep := flushEntry_map hf env s e
      calc ((s.flushEntry env e).flushAll env es).map f
          = ((s.flushEntry env e).map f).flushAll env (es.map (Entry.map f)) := ih _
        _ = ((s.map f).flushEntry env (e.map f)).flushAll env (es.map (Entry.map f)) := by
            rw [hstep]

end Flush

end RtLog
end Log
end DtCore
