import DtCore.Log.RtLog.Continuation
import DtCore.Log.RtLog.Letters

/-!
# Which continuation text is lost

`FlushEntry` copies a payload into the continuation buffer up to the room that
the pending text leaves and drops the rest without a word, although the handler
next to it says that the drop counter should report the true number of lost
entries.  To see which bytes survive, every payload byte is tagged with its
entry and its position there; forgetting the tags gives the run back.

Main results:

- Theorem `finish_untag`: the tagged run is the run of the code.
- Theorem `cont_text_accounted_iff`: no text disappears exactly when nothing but
  newlines is cut off.
- Theorem `cont_text_lost`: a history of short payloads without a newline loses
  text.
-/

namespace DtCore
namespace Log
namespace RtLog

open Foundation

/-! ## Tags -/

/-- The entry a payload byte comes from and its position in the payload. -/
abbrev Origin := Option (Nat × Nat)

section Tags

variable {β : Type}

/-- Tag the bytes of entry number `i`. -/
def Entry.tagged (i : Nat) (e : Entry β) : Entry (β × Origin) :=
  { timeStamp_ns := e.timeStamp_ns
    level := e.level
    msg := e.msg.mapIdx fun j b => (b, some (i, j))
    loggerName := e.loggerName }

/-- Tag the bytes of all entries. -/
def tagAll (es : List (Entry β)) : List (Entry (β × Origin)) :=
  es.mapIdx Entry.tagged

/-- A state whose bytes come from no entry of the run to come. -/
def Drain.untagged (s : Drain β) : Drain (β × Origin) :=
  s.map fun b => (b, none)

/-- The event is a continuation line with this byte. -/
def Event.carries (ev : Event β) (b : β) : Prop :=
  match ev with
  | .line _ text _ => b ∈ text
  | .entry _ _ _ _ _ => False

/-- A try block hands its text over or throws and is counted. -/
theorem handed_or_counted (ev : Event β) : ev.handed = true ∨ ev.counted = true := by
  cases ev with
  | line level text fault => cases fault <;> simp [Event.handed, Event.counted]
  | entry target time level text thrown => cases thrown <;> simp [Event.handed, Event.counted]

theorem map_fst_tagged (i : Nat) (e : Entry β) : (e.tagged i).map Prod.fst = e := by
  have hmsg : (e.msg.mapIdx fun j b => (b, some (i, j))).map Prod.fst = e.msg :=
    List.ext_getElem? fun j => by simp [Function.comp_def]
  simp [Entry.tagged, Entry.map, hmsg]

theorem map_fst_tagAll (es : List (Entry β)) : (tagAll es).map (Entry.map Prod.fst) = es :=
  List.ext_getElem? fun i => by simp [tagAll, Function.comp_def, map_fst_tagged]

theorem map_fst_untagged (s : Drain β) : s.untagged.map Prod.fst = s := by
  have hevent : ∀ ev : Event β,
      Event.map Prod.fst (Event.map (fun b => (b, (none : Origin))) ev) = ev := by
    intro ev
    cases ev <;> simp [Event.map, Function.comp_def]
  cases s
  simp [Drain.untagged, Drain.map, Function.comp_def, hevent]

/-- A tag says where its byte stands. -/
theorem mem_tagged_msg {i : Nat} {e : Entry β} {b : β} {k j : Nat} {n : Nat} :
    (b, some (k, j)) ∈ (e.tagged i).msg.take n ↔ k = i ∧ j < n ∧ e.msg[j]? = some b := by
  rw [List.mem_iff_getElem?]
  constructor
  · rintro ⟨m, hm⟩
    rw [List.getElem?_take] at hm
    split at hm
    · rename_i hmn
      simp only [Entry.tagged, List.getElem?_mapIdx, Option.map_eq_some_iff] at hm
      obtain ⟨c, hc, heq⟩ := hm
      simp only [Prod.mk.injEq, Option.some.injEq] at heq
      obtain ⟨rfl, rfl, rfl⟩ := heq
      exact ⟨rfl, hmn, hc⟩
    · contradiction
  · rintro ⟨rfl, hj, hb⟩
    refine ⟨j, ?_⟩
    rw [List.getElem?_take, if_pos hj]
    simp [Entry.tagged, hb]

end Tags

/-- Forgetting the tags of the tagged run gives the run of the code. -/
theorem finish_untag {β : Type} [LogByte β] (env : Spdlog) (s : Drain β)
    (es : List (Entry β)) :
    (s.untagged.finish env (tagAll es)).map Prod.fst = s.finish env es := by
  unfold Drain.finish
  rw [flushContLines_map keepsLetters_fst, flushAll_map keepsLetters_fst, map_fst_tagAll,
    map_fst_untagged]

/-! ## What the buffer has room for -/

/-- The text of a script is the open text and the payloads. -/
theorem mem_script_text {β : Type} {w : List β} {es : List (Entry β)} {b : β} :
    (∃ text, Item.text text ∈ script w es ∧ b ∈ text) ↔
      b ∈ w ∨ ∃ e ∈ es, e.isCont = true ∧ b ∈ e.msg := by
  induction es generalizing w with
  | nil => simp [script]
  | cons e es ih =>
      unfold script
      split
      · rename_i hcont
        rw [ih]
        simp [hcont, or_assoc]
      · rename_i hcont
        have hmem : (∃ text, Item.text text ∈ Item.text w :: Item.entry e :: script [] es ∧
            b ∈ text) ↔ b ∈ w ∨ ∃ text, Item.text text ∈ script [] es ∧ b ∈ text := by
          simp [or_and_right, exists_or]
        rw [hmem, ih]
        simp [hcont]

/-- Cutting payloads does not depend on the letters. -/
theorem clipped_map {β γ : Type} (f : β → γ) (w : List β) (e : Entry β) :
    (e.map f).clipped (w.map f) = (e.clipped w).map f := by
  unfold Entry.clipped
  rw [entry_map_isCont]
  split
  · simp [Entry.map, List.map_take]
  · rfl

/-- An entry of another kind logs no continuation line. -/
theorem logEntry_no_line {β : Type} (env : Spdlog) (s : Drain β) (e : Entry β) (b : β) :
    (s.logEntry env e).logger = s.logger ∧
      ∃ new, (s.logEntry env e).events = s.events ++ new ∧ ∀ ev ∈ new, ¬ ev.carries b := by
  unfold Drain.logEntry
  split
  · exact ⟨rfl, [], by simp, by simp⟩
  · exact ⟨rfl, [_], rfl, by simp [Event.carries]⟩

section Room

variable {β : Type} [LogByte β]

/-- What the buffer holds when entry number `i` comes. -/
def heldBefore (w : List β) (es : List (Entry β)) (i : Nat) : List β :=
  (es.take i).foldl heldAfter w

/-- The room that the pending text leaves for entry number `i`.  Without a
default logger no text ever leaves the buffer for a logger. -/
def roomFor (s : Drain β) (es : List (Entry β)) (i : Nat) : Nat :=
  if s.logger.isSome = true then contBufSize - (heldBefore s.contBuf es i).length else 0

/-- No byte other than a newline is cut off. -/
def OnlyNewlinesCut (s : Drain β) (es : List (Entry β)) : Prop :=
  ∀ (i : Nat) (e : Entry β), es[i]? = some e → e.isCont = true →
    ∀ b ∈ e.msg.drop (roomFor s es i), isNewline b = true

/-- Every byte of every continuation payload that is no newline is in a line
that was handed to the logger or counted as dropped. -/
def ContTextAccounted (env : Spdlog) (s : Drain β) (es : List (Entry β)) : Prop :=
  ∀ (i : Nat) (e : Entry β) (j : Nat) (b : β), es[i]? = some e → e.isCont = true →
    e.msg[j]? = some b → isNewline b = false →
    ∃ ev ∈ s.untagged.newEvents (s.untagged.finish env (tagAll es)),
      ev.carries (b, some (i, j)) ∧ (ev.handed = true ∨ ev.counted = true)

theorem getElem?_clip (w : List β) (es : List (Entry β)) (i : Nat) :
    (clip w es)[i]? = es[i]?.map fun e => e.clipped (heldBefore w es i) := by
  induction es generalizing w i with
  | nil => rfl
  | cons e es ih =>
      cases i with
      | zero => rfl
      | succ i => exact ih (heldAfter w e) i

/-- A tagged byte that is no newline is in a line exactly when it is in the
text. -/
theorem carries_iff_mem_text {env : Spdlog} {tb : TimeBase} {w : List (β × Origin)}
    {es : List (Entry (β × Origin))} {new : List (Event (β × Origin))}
    (hpieces : new.map Event.piece = expected env tb w es) {b : β} {o : Nat × Nat}
    (hb : isNewline b = false) :
    (∃ ev ∈ new, ev.carries (b, some o)) ↔
      ∃ text, Item.text text ∈ script w es ∧ (b, some o) ∈ text := by
  have hline : (∃ ev ∈ new, ev.carries (b, some o)) ↔
      ∃ text, Piece.line text ∈ expected env tb w es ∧ (b, some o) ∈ text := by
    rw [← hpieces]
    constructor
    · rintro ⟨ev, hev, hcar⟩
      cases ev with
      | line level text fault => exact ⟨text, List.mem_map_of_mem hev, hcar⟩
      | entry target time level text fault => exact hcar.elim
    · rintro ⟨text, hmem, hcar⟩
      obtain ⟨ev, hev, heq⟩ := List.mem_map.mp hmem
      cases ev with
      | line level text' fault =>
          cases heq
          exact ⟨_, hev, hcar⟩
      | entry target time level text' fault => cases heq
  have hindent : ∀ line : List (β × Origin), (b, some o) ∈
      List.replicate defaultContIndent (space : β × Origin) ++ line ↔ (b, some o) ∈ line := by
    intro line
    rw [List.mem_append, List.mem_replicate]
    refine or_iff_right ?_
    rintro ⟨-, heq⟩
    cases heq
  have htext : ∀ text : List (β × Origin),
      (∃ line ∈ textLines isNewline text, (b, some o) ∈ line) ↔ (b, some o) ∈ text := by
    intro text
    rw [← List.mem_flatten, textLines_flatten, List.mem_filter]
    refine and_iff_left ?_
    simpa [LogByte.isNewline] using hb
  rw [hline]
  constructor
  · rintro ⟨text, hmem, hcar⟩
    obtain ⟨item, hitem, hmem⟩ := List.mem_flatMap.mp hmem
    cases item with
    | text t =>
        obtain ⟨line, hl, heq⟩ := List.mem_map.mp hmem
        cases heq
        exact ⟨t, hitem, (htext t).mp ⟨line, hl, (hindent line).mp hcar⟩⟩
    | entry e => simp [Item.pieces] at hmem
  · rintro ⟨t, hitem, hcar⟩
    obtain ⟨line, hl, hcar⟩ := (htext t).mpr hcar
    refine ⟨List.replicate defaultContIndent space ++ line, ?_, (hindent line).mpr hcar⟩
    exact List.mem_flatMap.mpr ⟨_, hitem, List.mem_map_of_mem hl⟩

theorem heldAfter_map {γ : Type} [LogByte γ] {f : β → γ} (hf : KeepsLetters f) (w : List β)
    (e : Entry β) : heldAfter (w.map f) (e.map f) = (heldAfter w e).map f := by
  unfold heldAfter
  rw [entry_map_isCont]
  split
  · have hmsg : ((e.map f).clipped (w.map f)).msg = (e.clipped w).msg.map f :=
      congrArg Entry.msg (clipped_map f w e)
    rw [hmsg, ← List.map_append, cutLines_map hf.isNewline]
  · rfl

/-- Tags take no room. -/
theorem heldBefore_tagged (s : Drain β) (es : List (Entry β)) (i : Nat) :
    (heldBefore s.untagged.contBuf (tagAll es) i).length =
      (heldBefore s.contBuf es i).length := by
  have hfold : ∀ (es : List (Entry (β × Origin))) (w : List (β × Origin)),
      (es.map (Entry.map Prod.fst)).foldl heldAfter (w.map Prod.fst) =
        (es.foldl heldAfter w).map Prod.fst := by
    intro es
    induction es with
    | nil => exact fun _ => rfl
    | cons e es ih =>
        intro w
        simp only [List.map_cons, List.foldl_cons]
        rw [heldAfter_map keepsLetters_fst, ih]
  have hbuf : s.untagged.contBuf.map Prod.fst = s.contBuf := by
    have := congrArg Drain.contBuf (map_fst_untagged s)
    exact this
  have htake : ((tagAll es).take i).map (Entry.map Prod.fst) = es.take i := by
    rw [List.map_take, map_fst_tagAll]
  have := hfold ((tagAll es).take i) s.untagged.contBuf
  rw [hbuf, htake] at this
  unfold heldBefore
  rw [this, List.length_map]

/-- With a default logger a payload byte that is no newline is logged exactly
when there was room for it. -/
theorem carries_iff_room (env : Spdlog) {s : Drain β} (hlogger : s.logger.isSome = true)
    (hlen : s.contBuf.length ≤ contBufSize) {es : List (Entry β)} {i j : Nat} {e : Entry β}
    {b : β} (he : es[i]? = some e) (hcont : e.isCont = true) (hj : e.msg[j]? = some b)
    (hb : isNewline b = false) :
    (∃ ev ∈ s.untagged.newEvents (s.untagged.finish env (tagAll es)),
      ev.carries (b, some (i, j))) ↔ j < roomFor s es i := by
  have hlen' : s.untagged.contBuf.length ≤ contBufSize := by
    simpa [Drain.untagged, Drain.map] using hlen
  have hlogger' : s.untagged.logger.isSome = true := hlogger
  have hemit := Drain.finish_emits env hlogger' hlen' (tagAll es)
  have hroom : roomFor s es i =
      contBufSize - (heldBefore s.untagged.contBuf (tagAll es) i).length := by
    rw [roomFor, if_pos hlogger, heldBefore_tagged]
  have hclip : ∀ k : Nat, (clip s.untagged.contBuf (tagAll es))[k]? =
      es[k]?.map fun e =>
        (e.tagged k).clipped (heldBefore s.untagged.contBuf (tagAll es) k) := by
    intro k
    rw [getElem?_clip]
    simp [tagAll, Function.comp_def]
  rw [carries_iff_mem_text hemit.newEvents.1 hb, mem_script_text]
  constructor
  · rintro (hmem | ⟨e', he', hcont', hmem⟩)
    · simp [Drain.untagged, Drain.map] at hmem
    · obtain ⟨k, hk⟩ := List.mem_iff_getElem?.mp he'
      rw [hclip] at hk
      obtain ⟨e₀, he₀, rfl⟩ := Option.map_eq_some_iff.mp hk
      rw [clipped_isCont] at hcont'
      simp only [Entry.clipped, hcont', if_true] at hmem
      obtain ⟨rfl, hlt, -⟩ := mem_tagged_msg.mp hmem
      rw [hroom]
      exact hlt
  · intro hlt
    rw [hroom] at hlt
    refine Or.inr ⟨(e.tagged i).clipped (heldBefore s.untagged.contBuf (tagAll es) i), ?_, ?_, ?_⟩
    · rw [List.mem_iff_getElem?]
      exact ⟨i, by rw [hclip, he]; rfl⟩
    · rw [clipped_isCont]
      exact hcont
    · have hcont' : (e.tagged i).isCont = true := hcont
      simp only [Entry.clipped, hcont', if_true]
      exact mem_tagged_msg.mpr ⟨rfl, hlt, hj⟩

/-! ## Without a default logger -/

/-- Without a default logger no line is ever logged. -/
theorem no_line_without_logger (env : Spdlog) {s : Drain β} (hlogger : s.logger = none)
    (es : List (Entry β)) (b : β) :
    ∃ new, (s.finish env es).events = s.events ++ new ∧ ∀ ev ∈ new, ¬ ev.carries b := by
  have hflush : ∀ (t : Drain β) (force : Bool), t.logger = none →
      t.flushContLines env force = t := by
    intro t force ht
    unfold Drain.flushContLines
    rw [ht]
  have hentry : ∀ (t : Drain β) (e : Entry β), t.logger = none →
      (t.flushEntry env e).logger = none ∧
        ∃ new, (t.flushEntry env e).events = t.events ++ new ∧ ∀ ev ∈ new, ¬ ev.carries b := by
    intro t e ht
    by_cases hcont : e.isCont = true
    · have heq : t.flushEntry env e = { t with
          contBuf := t.contBuf ++ e.msg.take (contBufSize - t.contBuf.length)
          contLevel := e.level } := by
        rw [Drain.flushEntry, if_pos hcont]
        exact hflush _ false ht
      rw [heq]
      exact ⟨ht, [], by simp, by simp⟩
    · have heq : t.flushEntry env e = t.logEntry env e := by
        rw [Drain.flushEntry, if_neg hcont, hflush t true ht, ite_self]
      obtain ⟨hlogger, hnew⟩ := logEntry_no_line env t e b
      rw [heq]
      exact ⟨hlogger.trans ht, hnew⟩
  induction es generalizing s with
  | nil =>
      refine ⟨[], ?_, by simp⟩
      change (s.flushContLines env true).events = s.events ++ []
      rw [hflush s true hlogger, List.append_nil]
  | cons e es ih =>
      obtain ⟨hnone, new, hnew, hcar⟩ := hentry s e hlogger
      obtain ⟨new', hnew', hcar'⟩ := ih hnone
      refine ⟨new ++ new', ?_, ?_⟩
      · rw [finish_cons, hnew', hnew, List.append_assoc]
      · intro ev hev
        rcases List.mem_append.mp hev with hev | hev
        · exact hcar ev hev
        · exact hcar' ev hev

/-- In both cases: a payload byte that is no newline is logged exactly when
there was room for it. -/
theorem logged_iff_room (env : Spdlog) {s : Drain β} (hlen : s.contBuf.length ≤ contBufSize)
    {es : List (Entry β)} {i j : Nat} {e : Entry β} {b : β} (he : es[i]? = some e)
    (hcont : e.isCont = true) (hj : e.msg[j]? = some b) (hb : isNewline b = false) :
    (∃ ev ∈ s.untagged.newEvents (s.untagged.finish env (tagAll es)),
      ev.carries (b, some (i, j)) ∧ (ev.handed = true ∨ ev.counted = true)) ↔
      j < roomFor s es i := by
  have hforget : (∃ ev ∈ s.untagged.newEvents (s.untagged.finish env (tagAll es)),
      ev.carries (b, some (i, j)) ∧ (ev.handed = true ∨ ev.counted = true)) ↔
      ∃ ev ∈ s.untagged.newEvents (s.untagged.finish env (tagAll es)),
        ev.carries (b, some (i, j)) := by
    simp only [handed_or_counted, and_true]
  rw [hforget]
  by_cases hlogger : s.logger.isSome = true
  · exact carries_iff_room env hlogger hlen he hcont hj hb
  · have hnone : s.untagged.logger = none := Option.not_isSome_iff_eq_none.mp hlogger
    obtain ⟨new, hnew, hcar⟩ := no_line_without_logger env hnone (tagAll es) (b, some (i, j))
    have heq : s.untagged.newEvents (s.untagged.finish env (tagAll es)) = new := by
      unfold Drain.newEvents
      rw [hnew, List.drop_left]
    rw [heq, roomFor, if_neg hlogger]
    exact ⟨fun ⟨ev, hev, h⟩ => absurd h (hcar ev hev), fun h => absurd h (Nat.not_lt_zero j)⟩

/-- No `LOG_CONT` text disappears silently exactly when, at every `LOG_CONT`
entry, what exceeds the room left by the pending text is newlines only. -/
theorem cont_text_accounted_iff (env : Spdlog) (s : Drain β)
    (hlen : s.contBuf.length ≤ contBufSize) (es : List (Entry β)) :
    ContTextAccounted env s es ↔ OnlyNewlinesCut s es := by
  constructor
  · intro hacc i e he hcont b hmem
    obtain ⟨k, hk⟩ := List.mem_iff_getElem?.mp hmem
    rw [List.getElem?_drop] at hk
    by_contra hb
    have hroom := (logged_iff_room env hlen he hcont hk (by simpa using hb)).mp
      (hacc i e _ b he hcont hk (by simpa using hb))
    omega
  · intro hcut i e j b he hcont hj hb
    refine (logged_iff_room env hlen he hcont hj hb).mpr ?_
    by_contra hroom
    have hmem : b ∈ e.msg.drop (roomFor s es i) := by
      rw [List.mem_iff_getElem?]
      refine ⟨j - roomFor s es i, ?_⟩
      rw [List.getElem?_drop, ← hj]
      congr 1
      omega
    rw [hcut i e he hcont b hmem] at hb
    contradiction

/-- Text that fits is not cut. -/
theorem onlyNewlinesCut_of_textFits {s : Drain β} (hlogger : s.logger.isSome = true)
    {es : List (Entry β)} (hfits : TextFits s.contBuf es) : OnlyNewlinesCut s es := by
  have hroom : ∀ (es : List (Entry β)) (w : List β) (i : Nat) (e : Entry β), TextFits w es →
      es[i]? = some e → e.isCont = true →
        (heldBefore w es i).length + e.msg.length ≤ contBufSize := by
    intro es
    induction es with
    | nil => simp
    | cons e' es ih =>
        intro w i e hfits he hcont
        cases i with
        | zero =>
            cases Option.some.inj he
            exact hfits.1 hcont
        | succ i => exact ih (heldAfter w e') i e hfits.2 he hcont
  intro i e he hcont b hb
  have := hroom es s.contBuf i e hfits he hcont
  rw [List.drop_of_length_le] at hb
  · contradiction
  · rw [roomFor, if_pos hlogger]
    omega

/-- Text without a newline stays in the buffer. -/
theorem heldAfter_of_no_newline {w : List β} {e : Entry β} (hcont : e.isCont = true)
    (hfits : w.length + e.msg.length ≤ contBufSize)
    (hno : ∀ b ∈ w ++ e.msg, isNewline b = false) : heldAfter w e = w ++ e.msg := by
  rw [heldAfter, if_pos hcont, clipped_of_fits fun _ => hfits, cutLines_of_no_newline _ hno]

end Room

theorem cont_text_accounted_iff_straddling :
    ContTextAccounted quietSpdlog freshDrain straddlingEntries :=
  (cont_text_accounted_iff quietSpdlog freshDrain (by decide) straddlingEntries).mpr
    (onlyNewlinesCut_of_textFits rfl (by decide))

/-- A continuation entry of `n` letters without a newline. -/
def plainEntry (n : Nat) : Entry UInt8 :=
  { timeStamp_ns := 0, level := .info, msg := List.replicate n 97, loggerName := [1] }

theorem heldAfter_plainEntry {m n k : Nat} (hk : k = m + n) (h : k ≤ contBufSize) :
    heldAfter (List.replicate m 97) (plainEntry n) = List.replicate k 97 := by
  have happ : List.replicate m 97 ++ (plainEntry n).msg = List.replicate k 97 := by
    rw [hk]
    exact (List.replicate_add m n 97).symm
  have hno : ∀ b ∈ List.replicate m 97 ++ (plainEntry n).msg, isNewline b = false := by
    intro b hb
    rw [happ] at hb
    rw [List.eq_of_mem_replicate hb]
    rfl
  have hfits : (List.replicate m (97 : UInt8)).length + (plainEntry n).msg.length ≤
      contBufSize := by
    rw [← List.length_append, happ, List.length_replicate]
    exact h
  rw [heldAfter_of_no_newline rfl hfits hno, happ]

/-- Four entries of the full payload length and then five more bytes. -/
def floodEntries : List (Entry UInt8) :=
  [plainEntry 1023, plainEntry 1023, plainEntry 1023, plainEntry 1023, plainEntry 5]

/-- The pending text of the first four entries leaves room for four bytes. -/
theorem heldBefore_floodEntries :
    heldBefore freshDrain.contBuf floodEntries 4 = List.replicate 4092 97 := by
  have hstart : freshDrain.contBuf = List.replicate 0 97 := rfl
  have htake : floodEntries.take 4 =
      [plainEntry 1023, plainEntry 1023, plainEntry 1023, plainEntry 1023] := rfl
  have h1 : heldAfter (List.replicate 0 97) (plainEntry 1023) = List.replicate 1023 97 :=
    heldAfter_plainEntry (by decide) (by decide)
  have h2 : heldAfter (List.replicate 1023 97) (plainEntry 1023) = List.replicate 2046 97 :=
    heldAfter_plainEntry (by decide) (by decide)
  have h3 : heldAfter (List.replicate 2046 97) (plainEntry 1023) = List.replicate 3069 97 :=
    heldAfter_plainEntry (by decide) (by decide)
  have h4 : heldAfter (List.replicate 3069 97) (plainEntry 1023) = List.replicate 4092 97 :=
    heldAfter_plainEntry (by decide) (by decide)
  rw [heldBefore, htake, hstart]
  simp only [List.foldl_cons, List.foldl_nil, h1, h2, h3, h4]

/-- The fifth byte of the fifth entry is neither logged nor counted. -/
theorem cont_text_lost : ¬ ContTextAccounted quietSpdlog freshDrain floodEntries := by
  intro hacc
  have hlost := hacc 4 (plainEntry 5) 4 97 rfl rfl rfl rfl
  have hroom := (logged_iff_room quietSpdlog (by decide) rfl rfl rfl rfl).mp hlost
  have hlogger : freshDrain.logger.isSome = true := rfl
  rw [roomFor, if_pos hlogger, heldBefore_floodEntries, List.length_replicate] at hroom
  exact absurd hroom (by decide)

end RtLog
end Log
end DtCore
