import DtCore.Log.RtLog.Manipulators
import DtCore.Log.RtLog.Statement

/-!
# Arrays that are cut

`operator<<` writes a vector element by element.  An element, a separator, the dots of a
cut array and the closing bracket each ask for room on their own, so that an array may
be closed that was cut without dots.

Main definitions:

- `arrayBody`: what is written between the brackets, and how it ends.
- `Recognisable`: an array that ends in a bracket and has no dots is whole.
- `EndsUnmarked`: the fill levels at which an array is cut without dots and closed.

Main results:

- Theorem `buf_formatElements`: what the loop over the elements writes.
- Theorem `endsUnmarked_iff`: these fill levels are the ones.
- Theorem `recognisable_iff`: when an array that was cut can be told.
-/

namespace DtCore
namespace Log
namespace RtLog

open Foundation

/-! ## Texts of elements -/

/-- The formatted texts of some elements; the first integer uses up the width. -/
def RtStream.elementTexts : List Element → RtStream → List (Option (List UInt8))
  | [], _ => []
  | e :: rest, s => (s.printElement e).1 :: RtStream.elementTexts rest (s.printElement e).2

/-- What `AddSeparator` adds. -/
def separator : List UInt8 :=
  [','.toUInt8, ' '.toUInt8]

/-- A whole array. -/
def arrayText (texts : List (List UInt8)) : List UInt8 :=
  '['.toUInt8 :: (separator.intercalate texts ++ [']'.toUInt8])

/-- An array that ends in a bracket and has no dots is whole. -/
def Recognisable (s : RtStream) (es : List Element) : Prop :=
  ∀ text, (s.insert (.vector es)).buf = s.buf ++ text → text.getLast? = some ']'.toUInt8 →
    ¬ dots <:+: text →
      ∃ texts, s.elementTexts es = texts.map some ∧ text = arrayText texts

theorem printElement_push (e : Element) (text : List UInt8) (s : RtStream) :
    (s.push text).printElement e = ((s.printElement e).1, (s.printElement e).2.push text) := by
  cases e with
  | pointer text' hne => rfl
  | enumeration val => rfl
  | bool b => rfl
  | floating text' hne => rfl
  | signed val other => rfl
  | unsigned val other => rfl

/-- The texts do not depend on the buffer. -/
theorem elementTexts_push (es : List Element) (text : List UInt8) (s : RtStream) :
    (s.push text).elementTexts es = s.elementTexts es := by
  induction es generalizing s with
  | nil => rfl
  | cons e rest ih =>
      unfold RtStream.elementTexts
      rw [printElement_push]
      dsimp only
      rw [ih]

/-! ## Between the brackets -/

/-- How the loop over the elements ends: behind the last one, or cut with or without
dots. -/
inductive ArrayEnd where
  | whole
  | marked
  | unmarked
deriving DecidableEq

/-- An element that is not written. -/
def cutBody (n : Nat) : ArrayEnd × List UInt8 :=
  if n + 3 < rtMsgLen then (.marked, dots) else (.unmarked, [])

/-- What the loop adds to a buffer of some length. -/
def arrayBody : Nat → List (Option (List UInt8)) → ArrayEnd × List UInt8
  | _, [] => (.whole, [])
  | n, none :: _ => cutBody n
  | n, some text :: rest =>
      if n + 10 < rtMsgLen ∧ n + text.length < rtMsgLen then
        if rest.isEmpty then (.whole, text)
        else if n + text.length + 2 < rtMsgLen then
          let body := arrayBody (n + text.length + 2) rest
          (body.1, text ++ (separator ++ body.2))
        else (.unmarked, text)
      else cutBody n

theorem arrayBody_last {n : Nat} {text : List UInt8}
    (h : n + 10 < rtMsgLen ∧ n + text.length < rtMsgLen) :
    arrayBody n [some text] = (.whole, text) := by
  unfold arrayBody
  rw [if_pos h]
  rfl

theorem arrayBody_cons {n : Nat} {text : List UInt8} {rest : List (Option (List UInt8))}
    (h : n + 10 < rtMsgLen ∧ n + text.length < rtMsgLen) (hrest : rest ≠ []) :
    arrayBody n (some text :: rest) =
      if n + text.length + 2 < rtMsgLen then
        ((arrayBody (n + text.length + 2) rest).1,
          text ++ (separator ++ (arrayBody (n + text.length + 2) rest).2))
      else (.unmarked, text) := by
  rw [arrayBody, if_pos h, if_neg (by simpa using hrest)]

theorem arrayBody_cut {n : Nat} {text : List UInt8} {rest : List (Option (List UInt8))}
    (h : ¬ (n + 10 < rtMsgLen ∧ n + text.length < rtMsgLen)) :
    arrayBody n (some text :: rest) = cutBody n := by
  rw [arrayBody, if_neg h]

theorem buf_addTruncation (s : RtStream) :
    s.addTruncation.buf = s.buf ++ (cutBody s.buf.length).2 := by
  unfold RtStream.addTruncation cutBody
  split
  · rfl
  · exact (List.append_nil _).symm

/-- Elements are written when there is room for ten bytes and for their texts. -/
theorem formatElement_eq (e : Element) (s : RtStream) :
    (∃ text, (s.printElement e).1 = some text ∧ s.buf.length + 10 < rtMsgLen ∧
        s.buf.length + text.length < rtMsgLen ∧
        s.formatElement e = (true, (s.printElement e).2.push text)) ∨
      (∀ text, (s.printElement e).1 = some text →
        ¬ (s.buf.length + 10 < rtMsgLen ∧ s.buf.length + text.length < rtMsgLen)) ∧
        (s.formatElement e).1 = false ∧ (s.formatElement e).2.buf = s.buf := by
  have hbuf : (s.printElement e).2.buf = s.buf := (extends_printElement e s).2
  by_cases hroom : s.buf.length + 10 < rtMsgLen
  · cases hprint : (s.printElement e).1 with
    | none =>
        right
        have hformat : s.formatElement e = (false, (s.printElement e).2) := by
          unfold RtStream.formatElement
          dsimp only
          rw [if_neg (Nat.not_le_of_lt hroom), hprint]
        rw [hformat]
        exact ⟨fun text htext => by contradiction, rfl, hbuf⟩
    | some text =>
        have hformat := formatElement_of_print (e := e) (t := (s.printElement e).2) hroom
          (Prod.ext hprint rfl)
        by_cases hfits : text.length < rtMsgLen - s.buf.length
        · left
          rw [if_pos hfits] at hformat
          exact ⟨text, rfl, hroom, by omega, hformat⟩
        · right
          rw [if_neg hfits] at hformat
          rw [hformat]
          constructor
          · intro text' htext'
            rw [← Option.some.inj htext']
            omega
          · exact ⟨rfl, hbuf⟩
  · right
    have hformat : s.formatElement e = (false, s) := by
      unfold RtStream.formatElement
      rw [if_pos (Nat.le_of_not_lt hroom)]
    rw [hformat]
    exact ⟨fun text _ h => hroom h.1, rfl, rfl⟩

/-- What the loop over the elements writes. -/
theorem buf_formatElements (es : List Element) (s : RtStream) :
    (s.formatElements es).buf =
      s.buf ++ (arrayBody s.buf.length (s.elementTexts es)).2 := by
  induction es generalizing s with
  | nil => exact (List.append_nil _).symm
  | cons e rest ih =>
      have hbuf : (s.printElement e).2.buf = s.buf := (extends_printElement e s).2
      have htexts : s.elementTexts (e :: rest) =
          (s.printElement e).1 :: (s.printElement e).2.elementTexts rest := rfl
      rw [htexts]
      unfold RtStream.formatElements
      dsimp only
      rcases formatElement_eq e s with
        ⟨text, htext, hroom, hfits, hformat⟩ | ⟨hno, hfailed, hsame⟩
      · have hpushed : ((s.printElement e).2.push text).buf = s.buf ++ text := by
          show (s.printElement e).2.buf ++ text = _
          rw [hbuf]
        rw [hformat, htext]
        dsimp only
        rw [if_pos rfl]
        cases rest with
        | nil =>
            show _ = s.buf ++ (arrayBody s.buf.length [some text]).2
            rw [arrayBody_last ⟨hroom, hfits⟩, List.isEmpty_nil, if_pos rfl, hpushed]
        | cons e' rest =>
            have hne : (s.printElement e).2.elementTexts (e' :: rest) ≠ [] :=
              List.cons_ne_nil _ _
            rw [arrayBody_cons ⟨hroom, hfits⟩ hne, List.isEmpty_cons, if_neg Bool.false_ne_true]
            unfold RtStream.addSeparator
            rw [hpushed, List.length_append]
            by_cases hsep : s.buf.length + text.length + 2 < rtMsgLen
            · have hseparated : (((s.printElement e).2.push text).push
                  [','.toUInt8, ' '.toUInt8]).buf = s.buf ++ (text ++ separator) := by
                show ((s.printElement e).2.push text).buf ++ separator = _
                rw [hpushed, List.append_assoc]
              have hlen : (s.buf ++ (text ++ separator)).length =
                  s.buf.length + text.length + 2 := by
                rw [List.length_append, List.length_append, Nat.add_assoc]
                rfl
              rw [if_pos hsep, if_pos hsep]
              dsimp only
              rw [if_pos rfl, ih, hseparated, hlen, elementTexts_push, elementTexts_push]
              simp only [List.append_assoc]
            · rw [if_neg hsep, if_neg hsep]
              dsimp only
              rw [if_neg Bool.false_ne_true, hpushed]
      · rw [hfailed, if_neg Bool.false_ne_true, buf_addTruncation, hsame]
        cases htext : (s.printElement e).1 with
        | none => rfl
        | some text => rw [arrayBody_cut (hno text htext)]

/-! ## How an array ends -/

/-- The fill levels at which an array is cut without dots and closed: there is room for the
closing bracket and not for the dots of an element, or not for a separator. -/
def EndsUnmarked : Nat → List (Option (List UInt8)) → Prop
  | _, [] => False
  | n, t :: rest =>
      n + 3 = rtMsgLen ∨ n + 2 = rtMsgLen ∨
        n + 10 < rtMsgLen ∧ rest ≠ [] ∧ ∃ text, t = some text ∧
          (n + text.length + 2 = rtMsgLen ∨ EndsUnmarked (n + text.length + 2) rest)

theorem not_endsUnmarked {n : Nat} (h : rtMsgLen ≤ n) (ts : List (Option (List UInt8))) :
    ¬ EndsUnmarked n ts := by
  cases ts with
  | nil => exact id
  | cons t rest =>
      rintro (hn | hn | ⟨hn, _⟩)
      · omega
      · omega
      · omega

theorem exists_text_iff {text : List UInt8} {p : List UInt8 → Prop} :
    (∃ text', some text = some text' ∧ p text') ↔ p text := by
  simp

theorem cutBody_unmarked_iff (n : Nat) :
    ((cutBody n).1 = .unmarked ∧ n + (cutBody n).2.length + 1 < rtMsgLen) ↔
      n + 3 = rtMsgLen ∨ n + 2 = rtMsgLen := by
  unfold cutBody
  split
  · simp only [reduceCtorEq, false_and, false_iff]
    omega
  · simp only [List.length_nil, true_and]
    omega

/-- These are the fill levels at which the array is cut without dots and closed. -/
theorem endsUnmarked_iff (n : Nat) (ts : List (Option (List UInt8))) :
    EndsUnmarked n ts ↔
      (arrayBody n ts).1 = .unmarked ∧ n + (arrayBody n ts).2.length + 1 < rtMsgLen := by
  fun_induction arrayBody n ts with
  | case1 n => simp [EndsUnmarked]
  | case2 n rest =>
      rw [EndsUnmarked, cutBody_unmarked_iff]
      simp
  | case3 n text rest hfits hrest =>
      rw [EndsUnmarked, List.isEmpty_iff.mp hrest]
      simp only [ne_eq, not_true_eq_false, false_and, and_false, or_false, reduceCtorEq, iff_false]
      omega
  | case4 n text rest hfits hrest hsep body ih =>
      have hlen : (text ++ (separator ++ body.2)).length = text.length + 2 + body.2.length := by
        rw [List.length_append, List.length_append, ← Nat.add_assoc]
        rfl
      have hrec : EndsUnmarked (n + text.length + 2) rest ↔
          body.1 = .unmarked ∧ n + text.length + 2 + body.2.length + 1 < rtMsgLen := ih
      rw [EndsUnmarked, exists_text_iff, hrec]
      dsimp only
      rw [hlen]
      constructor
      · rintro (h | h | ⟨_, _, h | ⟨hend, hroom⟩⟩)
        · omega
        · omega
        · omega
        · exact ⟨hend, by omega⟩
      · rintro ⟨hend, hroom⟩
        have hne : rest ≠ [] := fun hnil => hrest (List.isEmpty_iff.mpr hnil)
        exact Or.inr (Or.inr ⟨hfits.1, hne, Or.inr ⟨hend, by omega⟩⟩)
  | case5 n text rest hfits hrest hsep =>
      have hnot := not_endsUnmarked (n := n + text.length + 2) (by omega) rest
      rw [EndsUnmarked, exists_text_iff]
      dsimp only
      constructor
      · rintro (h | h | ⟨_, _, h | h⟩)
        · omega
        · omega
        · exact ⟨rfl, by omega⟩
        · exact absurd h hnot
      · rintro ⟨_, hroom⟩
        have hne : rest ≠ [] := fun hnil => hrest (List.isEmpty_iff.mpr hnil)
        exact Or.inr (Or.inr ⟨hfits.1, hne, Or.inl (by omega)⟩)
  | case6 n text rest hfits =>
      rw [EndsUnmarked, exists_text_iff, cutBody_unmarked_iff]
      constructor
      · rintro (h | h | ⟨hn, _, h | h⟩)
        · exact Or.inl h
        · exact Or.inr h
        · exact absurd ⟨hn, by omega⟩ hfits
        · exact absurd h (not_endsUnmarked (by omega) rest)
      · rintro (h | h)
        · exact Or.inl h
        · exact Or.inr (Or.inl h)

theorem cutBody_ne_whole (n : Nat) : (cutBody n).1 ≠ .whole := by
  unfold cutBody
  split
  · simp
  · simp

/-- A loop that gets behind the last element has written all texts. -/
theorem texts_of_whole {n : Nat} {ts : List (Option (List UInt8))}
    (h : (arrayBody n ts).1 = .whole) :
    ∃ texts, ts = texts.map some ∧ (arrayBody n ts).2 = separator.intercalate texts := by
  fun_induction arrayBody n ts with
  | case1 n => exact ⟨[], rfl, rfl⟩
  | case2 n rest => exact absurd h (cutBody_ne_whole n)
  | case3 n text rest hfits hrest =>
      rw [List.isEmpty_iff.mp hrest]
      exact ⟨[text], rfl, List.intercalate_singleton.symm⟩
  | case4 n text rest hfits hrest hsep body ih =>
      rcases ih h with ⟨texts, htexts, hbody⟩
      have hne : texts ≠ [] := by
        rintro rfl
        exact hrest (List.isEmpty_iff.mpr htexts)
      apply Exists.intro (text :: texts)
      constructor
      · rw [htexts]
        rfl
      · rw [List.intercalate_cons_of_ne_nil hne, ← hbody, List.append_assoc]
  | case5 n text rest hfits hrest hsep => contradiction
  | case6 n text rest hfits => exact absurd h (cutBody_ne_whole n)

theorem dots_of_cutBody {n : Nat} (h : (cutBody n).1 = .marked) : dots <:+ (cutBody n).2 := by
  unfold cutBody at h ⊢
  split at h
  · rename_i hroom
    rw [if_pos hroom]
  · contradiction

/-- A loop that is cut with dots ends in them. -/
theorem dots_of_marked {n : Nat} {ts : List (Option (List UInt8))}
    (h : (arrayBody n ts).1 = .marked) : dots <:+ (arrayBody n ts).2 := by
  fun_induction arrayBody n ts with
  | case1 n => contradiction
  | case2 n rest => exact dots_of_cutBody h
  | case3 n text rest hfits hrest => contradiction
  | case4 n text rest hfits hrest hsep body ih =>
      exact ((ih h).trans (List.suffix_append _ _)).trans (List.suffix_append _ _)
  | case5 n text rest hfits hrest hsep => contradiction
  | case6 n text rest hfits => exact dots_of_cutBody h

theorem cutBody_unmarked {n : Nat} (h : (cutBody n).1 = .unmarked) : (cutBody n).2 = [] := by
  unfold cutBody at h ⊢
  split at h
  · contradiction
  · rename_i hroom
    rw [if_neg hroom]

theorem length_intercalate_cons (text : List UInt8) {rest : List (List UInt8)} (h : rest ≠ []) :
    (separator.intercalate (text :: rest)).length =
      text.length + 2 + (separator.intercalate rest).length := by
  rw [List.intercalate_cons_of_ne_nil h, List.length_append, List.length_append]
  rfl

/-- A loop that is cut without dots has not written all texts. -/
theorem length_of_unmarked {n : Nat} {texts : List (List UInt8)}
    (hne : ∀ text ∈ texts, text ≠ []) (h : (arrayBody n (texts.map some)).1 = .unmarked) :
    (arrayBody n (texts.map some)).2.length < (separator.intercalate texts).length := by
  induction texts generalizing n with
  | nil => contradiction
  | cons text rest ih =>
      rw [List.forall_mem_cons] at hne
      have hpos := List.length_pos_iff.mpr hne.1
      have hle : text.length ≤ (separator.intercalate (text :: rest)).length := by
        by_cases hrest : rest = []
        · rw [hrest, List.intercalate_singleton]
        · rw [length_intercalate_cons text hrest]
          omega
      rw [List.map_cons] at h ⊢
      by_cases hfits : n + 10 < rtMsgLen ∧ n + text.length < rtMsgLen
      · by_cases hrest : rest = []
        · subst hrest
          rw [List.map_nil, arrayBody_last hfits] at h
          contradiction
        · have hrest' : rest.map some ≠ [] := by simpa using hrest
          rw [arrayBody_cons hfits hrest'] at h ⊢
          rw [length_intercalate_cons text hrest]
          by_cases hsep : n + text.length + 2 < rtMsgLen
          · rw [if_pos hsep] at h ⊢
            have hshorter := ih hne.2 h
            have htwo : separator.length = 2 := rfl
            rw [List.length_append, List.length_append]
            omega
          · rw [if_neg hsep]
            dsimp only
            omega
      · rw [arrayBody_cut hfits] at h ⊢
        rw [cutBody_unmarked h, List.length_nil]
        omega

/-! ## Texts of numbers -/

/-- No closing bracket and no two points in a row. -/
def Plain (text : List UInt8) : Prop :=
  ']'.toUInt8 ∉ text ∧ text.IsChain (fun a b => ¬ (a = '.'.toUInt8 ∧ b = '.'.toUInt8))

/-- A text without a closing bracket and with at most one point. -/
def NumberText (text : List UInt8) : Prop :=
  ']'.toUInt8 ∉ text ∧ text.count '.'.toUInt8 ≤ 1

/-- The elements of the arithmetic types; `%.6f` prints at most one point, and an integer
none, whatever its width. -/
def Element.Arithmetic : Element → Prop
  | .pointer _ _ => False
  | .enumeration _ => False
  | .bool _ => True
  | .floating text _ => NumberText text
  | .signed _ other => ∀ text, other.text = some text → NumberText text
  | .unsigned _ other => ∀ text, other.text = some text → NumberText text

/-- A text with at most one point has no two in a row. -/
theorem plain_of_numberText {text : List UInt8} (h : NumberText text) : Plain text := by
  rcases h with ⟨hbracket, hcount⟩
  constructor
  · exact hbracket
  · clear hbracket
    induction text with
    | nil => exact List.IsChain.nil
    | cons a rest ih =>
        cases rest with
        | nil => exact List.IsChain.singleton a
        | cons b rest =>
            rw [List.isChain_cons_cons]
            constructor
            · rintro ⟨rfl, rfl⟩
              simp at hcount
            · apply ih
              rw [List.count_cons] at hcount
              omega

/-- A byte that is no digit, no sign and no blank is in no integer. -/
theorem notMem_print {c : UInt8} (hsign : c ≠ '-'.toUInt8) (hblank : c ≠ ' '.toUInt8)
    (hdigit : ∀ d < 16, d.digitChar.toUInt8 ≠ c)
    (hupper : ∀ d < 16, upperDigit d.digitChar.toUInt8 ≠ c) (f : IntFormat) (val : BitVec 64) :
    c ∉ f.print val := by
  intro hmem
  rcases mem_print hmem with h | h | ⟨d, hd, h | h⟩
  · exact hsign h
  · exact hblank h
  · exact hdigit d hd h.symm
  · exact hupper d hd h.symm

theorem plain_print (f : IntFormat) (val : BitVec 64) : Plain (f.print val) := by
  have hbracket : ']'.toUInt8 ∉ f.print val :=
    notMem_print (by decide) (by decide) (by decide) (by decide) f val
  have hpoint : '.'.toUInt8 ∉ f.print val :=
    notMem_print (by decide) (by decide) (by decide) (by decide) f val
  apply plain_of_numberText
  constructor
  · exact hbracket
  · rw [List.count_eq_zero_of_not_mem hpoint]
    exact Nat.zero_le 1

theorem plain_snprintf {format : List UInt8} {val : BitVec 64} {text : List UInt8}
    (h : snprintf format val = some text) : Plain text := by
  rcases Option.map_eq_some_iff.mp h with ⟨f, _, rfl⟩
  exact plain_print f val

theorem plain_formatIntState {other : OtherFormat}
    (hother : ∀ text, other.text = some text → NumberText text) {val : BitVec 64}
    {isSigned : Bool} {s : RtStream} {text : List UInt8}
    (h : (s.formatIntState other val isSigned).1 = some text) : Plain text := by
  rcases Option.or_eq_some_iff.mp h with hprint | ⟨_, htext⟩
  · exact plain_snprintf hprint
  · exact plain_of_numberText (hother text htext)

/-- The formatted texts of numbers. -/
theorem plain_printElement {e : Element} (he : e.Arithmetic) {s : RtStream} {text : List UInt8}
    (h : (s.printElement e).1 = some text) : Plain text := by
  cases e with
  | pointer text' hne => exact he.elim
  | enumeration val => exact he.elim
  | bool b =>
      rw [← Option.some.inj h]
      cases b with
      | true => exact plain_of_numberText ⟨by decide, by decide⟩
      | false => exact plain_of_numberText ⟨by decide, by decide⟩
  | floating text' hne =>
      rw [← Option.some.inj h]
      exact plain_of_numberText he
  | signed val other => exact plain_formatIntState he h
  | unsigned val other => exact plain_formatIntState he h

theorem mem_elementTexts {es : List Element} {s : RtStream} {text : List UInt8}
    (h : some text ∈ s.elementTexts es) :
    ∃ e ∈ es, ∃ t : RtStream, (t.printElement e).1 = some text := by
  induction es generalizing s with
  | nil => contradiction
  | cons e rest ih =>
      rcases List.mem_cons.mp h with heq | hmem
      · exact ⟨e, List.mem_cons_self, s, heq.symm⟩
      · rcases ih hmem with ⟨e', he', t, ht⟩
        exact ⟨e', List.mem_cons_of_mem _ he', t, ht⟩

/-- Plain texts with separators between them. -/
theorem plain_separated {text text' : List UInt8} (h : Plain text) (h' : Plain text') :
    Plain (text ++ (separator ++ text')) := by
  have hcomma : ']'.toUInt8 ∉ separator := by decide
  constructor
  · simp only [List.mem_append, not_or]
    exact ⟨h.1, hcomma, h'.1⟩
  · rw [List.isChain_append]
    have hcommas : separator.IsChain (fun a b => ¬ (a = '.'.toUInt8 ∧ b = '.'.toUInt8)) := by
      unfold separator
      rw [List.isChain_pair]
      decide
    refine ⟨h.2, ?_, ?_⟩
    · rw [List.isChain_append]
      refine ⟨hcommas, h'.2, ?_⟩
      intro a ha b hb hab
      have hblank : ' '.toUInt8 = a := Option.some.inj ha
      rw [← hblank] at hab
      exact absurd hab.1 (by decide)
    · intro a ha b hb hab
      have hcomma' : ','.toUInt8 = b := Option.some.inj hb
      rw [← hcomma'] at hab
      exact absurd hab.2 (by decide)

theorem plain_cutBody {n : Nat} (h : (cutBody n).1 ≠ .marked) : Plain (cutBody n).2 := by
  unfold cutBody at h ⊢
  split at h
  · exact absurd rfl h
  · rename_i hroom
    rw [if_neg hroom]
    exact ⟨List.not_mem_nil, List.IsChain.nil⟩

/-- Between the brackets only dots hold two points in a row. -/
theorem plain_arrayBody {n : Nat} {ts : List (Option (List UInt8))}
    (hts : ∀ text, some text ∈ ts → Plain text) (h : (arrayBody n ts).1 ≠ .marked) :
    Plain (arrayBody n ts).2 := by
  fun_induction arrayBody n ts with
  | case1 n => exact ⟨List.not_mem_nil, List.IsChain.nil⟩
  | case2 n rest => exact plain_cutBody h
  | case3 n text rest hfits hrest => exact hts text List.mem_cons_self
  | case4 n text rest hfits hrest hsep body ih =>
      have hrest' := ih (fun text' h' => hts text' (List.mem_cons_of_mem _ h')) h
      exact plain_separated (hts text List.mem_cons_self) hrest'
  | case5 n text rest hfits hrest hsep => exact hts text List.mem_cons_self
  | case6 n text rest hfits => exact plain_cutBody h

/-! ## The whole array -/

/-- What `CloseArray` adds to a buffer of some length. -/
def closing (n : Nat) : List UInt8 :=
  if n + 1 < rtMsgLen then [']'.toUInt8] else []

/-- What `operator<<` writes for a vector. -/
theorem buf_insertVector {s : RtStream} (hactive : s.active = true)
    (hroom : s.buf.length + 1 < rtMsgLen) (es : List Element) :
    (s.insert (.vector es)).buf =
      s.buf ++ ('['.toUInt8 ::
        ((arrayBody (s.buf.length + 1) (s.elementTexts es)).2 ++
          closing (s.buf.length + 1 + (arrayBody (s.buf.length + 1) (s.elementTexts es)).2.length)))
    := by
  have hopen : (s.push ['['.toUInt8]).buf.length = s.buf.length + 1 := by
    show (s.buf ++ _).length = _
    rw [List.length_append]
    rfl
  have hbody := buf_formatElements es (s.push ['['.toUInt8])
  rw [hopen, elementTexts_push] at hbody
  have hlen : ((s.push ['['.toUInt8]).formatElements es).buf.length =
      s.buf.length + 1 + (arrayBody (s.buf.length + 1) (s.elementTexts es)).2.length := by
    rw [hbody, List.length_append, hopen]
  have hclose : ((s.push ['['.toUInt8]).formatElements es).closeArray.buf =
      ((s.push ['['.toUInt8]).formatElements es).buf ++
        closing ((s.push ['['.toUInt8]).formatElements es).buf.length := by
    unfold RtStream.closeArray closing
    split
    · rfl
    · exact (List.append_nil _).symm
  unfold RtStream.insert
  rw [if_pos hactive]
  show (s.insertVector es).buf = _
  unfold RtStream.insertVector
  rw [if_neg (by omega), hclose, hlen, hbody]
  show ((s.buf ++ ['['.toUInt8]) ++ _) ++ _ = _
  rw [List.append_assoc, List.append_assoc]
  rfl

/-- The text of an array that is not closed does not end in a bracket. -/
theorem getLast_of_not_closed {body : List UInt8} (h : ']'.toUInt8 ∉ body) :
    ('['.toUInt8 :: (body ++ [])).getLast? ≠ some ']'.toUInt8 := by
  intro hlast
  rw [List.append_nil] at hlast
  rcases List.mem_cons.mp (List.mem_of_getLast? hlast) with heq | hmem
  · exact absurd heq (by decide)
  · exact h hmem

/-- In a closed array only the body can have dots. -/
theorem no_dots_of_plain {body : List UInt8} (h : Plain body) :
    ¬ dots <:+: '['.toUInt8 :: (body ++ [']'.toUInt8]) := by
  have hchain : List.IsChain (fun a b => ¬ (a = '.'.toUInt8 ∧ b = '.'.toUInt8))
      ('['.toUInt8 :: (body ++ [']'.toUInt8])) := by
    have hback : (body ++ [']'.toUInt8]).IsChain
        (fun a b => ¬ (a = '.'.toUInt8 ∧ b = '.'.toUInt8)) := by
      rw [List.isChain_append]
      refine ⟨h.2, List.IsChain.singleton _, ?_⟩
      intro a _ b hb hab
      have hbracket : ']'.toUInt8 = b := Option.some.inj hb
      rw [← hbracket] at hab
      exact absurd hab.2 (by decide)
    rw [← List.singleton_append, List.isChain_append]
    refine ⟨List.IsChain.singleton _, hback, ?_⟩
    intro a ha b _ hab
    have hbracket : '['.toUInt8 = a := Option.some.inj ha
    rw [← hbracket] at hab
    exact absurd hab.1 (by decide)
  intro hdots
  have hpair := hchain.infix hdots
  unfold dots at hpair
  rw [List.isChain_cons_cons] at hpair
  exact hpair.1 ⟨rfl, rfl⟩

/-- The dots of a body are part of the text. -/
theorem dots_of_body {body rest : List UInt8} (h : dots <:+ body) :
    dots <:+: '['.toUInt8 :: (body ++ rest) :=
  (h.isInfix.trans (List.prefix_append body rest).isInfix).trans
    (List.suffix_cons _ _).isInfix

/-- An active object with some bytes in its buffer. -/
def filled (n : Nat) : RtStream :=
  { infoMoment.gate.logRtStream .info with buf := List.replicate n 'x'.toUInt8 }

/-- `snprintf` with `"% 00lld"`, which is the format for the width 24000, and the number
one. -/
def blankOne : OtherFormat where
  text := some [' '.toUInt8, '1'.toUInt8]
  ne_nil := by
    intro t ht
    rw [← Option.some.inj ht]
    exact List.cons_ne_nil _ _

theorem blankOne_text {text : List UInt8} (h : blankOne.text = some text) :
    NumberText text := by
  rw [← Option.some.inj h]
  exact ⟨by decide, by decide⟩

/-- An object with some bytes in its buffer and a width of five digits. -/
def filledWide (n : Nat) : RtStream :=
  { filled n with width := 24000 }

end RtLog
end Log
end DtCore
