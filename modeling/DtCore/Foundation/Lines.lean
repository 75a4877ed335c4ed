import Mathlib.Data.List.Basic
import Mathlib.Tactic

/-!
# Cutting a text into lines

A text that arrives in chunks is cut at its newlines: complete lines leave the
buffer and the unterminated rest waits for more.  The newline test is a
parameter, so that the letters may carry anything else as well.

Main results:

- Theorem `cutLines_append`: cutting chunk by chunk gives the lines of the whole
  text, however it was cut into chunks.
- Theorem `textLines_eq_splitOnP`: the lines are the newline separated pieces of
  the text, less an empty last piece.
- Theorem `textLines_flatten`: together the lines hold every letter but the
  newlines, in order.
-/

namespace DtCore
namespace Foundation

universe u v

variable {β : Type u} (nl : β → Bool)

/-- The complete lines of a text and its unterminated rest. -/
def cutLines : List β → List (List β) × List β
  | [] => ([], [])
  | b :: bs =>
      if nl b then ([] :: (cutLines bs).1, (cutLines bs).2)
      else
        match (cutLines bs).1 with
        | [] => ([], b :: (cutLines bs).2)
        | l :: ls => ((b :: l) :: ls, (cutLines bs).2)

/-- All lines of a text; a nonempty unterminated rest is one more line. -/
def textLines (text : List β) : List (List β) :=
  (cutLines nl text).1 ++ if (cutLines nl text).2 = [] then [] else [(cutLines nl text).2]

@[simp]
theorem cutLines_nil : cutLines nl [] = ([], []) :=
  rfl

@[simp]
theorem textLines_nil : textLines nl [] = [] :=
  rfl

/-- A text without a newline is all rest. -/
theorem cutLines_of_no_newline {text : List β} (h : ∀ b ∈ text, nl b = false) :
    cutLines nl text = ([], text) := by
  induction text with
  | nil => rfl
  | cons b bs ih =>
      have hb : nl b = false := h b (by simp)
      have hbs := ih fun x hx => h x (by simp [hx])
      simp [cutLines, hb, hbs]

/-- The first newline ends the first line. -/
theorem cutLines_of_newline {line rest : List β} {b : β} (hline : ∀ x ∈ line, nl x = false)
    (hb : nl b = true) :
    cutLines nl (line ++ b :: rest) =
      (line :: (cutLines nl rest).1, (cutLines nl rest).2) := by
  induction line with
  | nil => simp [cutLines, hb]
  | cons x xs ih =>
      have hx : nl x = false := hline x (by simp)
      have hxs := ih fun y hy => hline y (by simp [hy])
      simp [cutLines, hx, hxs]

/-- A text is its first line, a newline and what follows, or has no newline. -/
theorem exists_newline_or_not (text : List β) :
    (∀ b ∈ text, nl b = false) ∨
      ∃ line b rest, text = line ++ b :: rest ∧ (∀ x ∈ line, nl x = false) ∧ nl b = true := by
  induction text with
  | nil => exact Or.inl (by simp)
  | cons a as ih =>
      by_cases ha : nl a = true
      · exact Or.inr ⟨[], a, as, rfl, by simp, ha⟩
      · have haf : nl a = false := by simpa using ha
        rcases ih with hno | ⟨line, b, rest, rfl, hline, hb⟩
        · left
          intro x hx
          rcases List.mem_cons.mp hx with rfl | hx
          · exact haf
          · exact hno x hx
        · refine Or.inr ⟨a :: line, b, rest, rfl, ?_, hb⟩
          intro x hx
          rcases List.mem_cons.mp hx with rfl | hx
          · exact haf
          · exact hline x hx

/-- Cutting a text that arrives in two chunks: the rest of the first chunk is
prepended to the second. -/
theorem cutLines_append (u v : List β) :
    cutLines nl (u ++ v) =
      ((cutLines nl u).1 ++ (cutLines nl ((cutLines nl u).2 ++ v)).1,
        (cutLines nl ((cutLines nl u).2 ++ v)).2) := by
  induction hn : u.length using Nat.strongRecOn generalizing u with
  | ind n ih =>
      rcases exists_newline_or_not nl u with hno | ⟨line, b, rest, rfl, hline, hb⟩
      · rw [cutLines_of_no_newline nl hno]
        simp
      · have hlt : rest.length < n := by
          rw [← hn]
          simp
          omega
        rw [List.append_assoc, List.cons_append, cutLines_of_newline nl hline hb,
          cutLines_of_newline nl hline hb, ih rest.length hlt rest rfl]
        simp

/-- The first line leaves the lines of what follows. -/
theorem textLines_of_newline {line rest : List β} {b : β} (hline : ∀ x ∈ line, nl x = false)
    (hb : nl b = true) :
    textLines nl (line ++ b :: rest) = line :: textLines nl rest := by
  simp [textLines, cutLines_of_newline nl hline hb]

/-- A nonempty text without a newline is one line. -/
theorem textLines_of_no_newline {text : List β} (h : ∀ b ∈ text, nl b = false)
    (hne : text ≠ []) : textLines nl text = [text] := by
  simp [textLines, cutLines_of_no_newline nl h, hne]

/-- The lines of a text are its complete lines followed by the lines of its
rest. -/
theorem textLines_append (u v : List β) :
    textLines nl (u ++ v) = (cutLines nl u).1 ++ textLines nl ((cutLines nl u).2 ++ v) := by
  simp [textLines, cutLines_append nl u v]

/-- The lines are the newline separated pieces; a newline at the end adds no
empty piece. -/
theorem textLines_eq_splitOnP (text : List β) :
    textLines nl text =
      if ((text.splitOnP nl).getLastD []).isEmpty then (text.splitOnP nl).dropLast
      else text.splitOnP nl := by
  induction hn : text.length using Nat.strongRecOn generalizing text with
  | ind n ih =>
      rcases exists_newline_or_not nl text with hno | ⟨line, b, rest, rfl, hline, hb⟩
      · rw [List.splitOnP_eq_singleton hno]
        by_cases hne : text = []
        · simp [hne]
        · simp [textLines_of_no_newline nl hno hne, hne]
      · have hlt : rest.length < n := by
          rw [← hn]
          simp
          omega
        rw [List.splitOnP_append_cons_of_forall_mem hline b hb,
          textLines_of_newline nl hline hb, ih rest.length hlt rest rfl]
        have hne : rest.splitOnP nl ≠ [] := List.splitOnP_ne_nil nl rest
        cases hpieces : rest.splitOnP nl with
        | nil => exact absurd hpieces hne
        | cons l ls =>
            rw [List.getLastD_cons, List.getLastD_cons, List.getLastD_cons,
              List.dropLast_cons_cons]
            split <;> rfl

/-- Together the lines hold every letter but the newlines, in order. -/
theorem textLines_flatten (text : List β) :
    (textLines nl text).flatten = text.filter fun b => !nl b := by
  induction hn : text.length using Nat.strongRecOn generalizing text with
  | ind n ih =>
      rcases exists_newline_or_not nl text with hno | ⟨line, b, rest, rfl, hline, hb⟩
      · by_cases hne : text = []
        · simp [hne]
        · rw [textLines_of_no_newline nl hno hne, List.flatten_singleton, eq_comm,
            List.filter_eq_self]
          simpa using hno
      · have hlt : rest.length < n := by
          rw [← hn]
          simp
          omega
        have hfilter : line.filter (fun b => !nl b) = line := by
          rw [List.filter_eq_self]
          simpa using hline
        rw [textLines_of_newline nl hline hb, List.flatten_cons, ih rest.length hlt rest rfl,
          List.filter_append, hfilter]
        simp [hb]

/-- Neither a complete line nor the rest is longer than the text. -/
theorem cutLines_length_le (text : List β) :
    (∀ l ∈ (cutLines nl text).1, l.length ≤ text.length) ∧
      (cutLines nl text).2.length ≤ text.length := by
  induction hn : text.length using Nat.strongRecOn generalizing text with
  | ind n ih =>
      rcases exists_newline_or_not nl text with hno | ⟨line, b, rest, rfl, hline, hb⟩
      · rw [cutLines_of_no_newline nl hno]
        simp [hn]
      · have hlen : (line ++ b :: rest).length = line.length + rest.length + 1 := by
          simp
          omega
        obtain ⟨hlines, hrest⟩ := ih rest.length (by omega) rest rfl
        rw [cutLines_of_newline nl hline hb]
        dsimp only
        refine ⟨?_, by omega⟩
        intro l hl
        rcases List.mem_cons.mp hl with rfl | hl
        · omega
        · exact (hlines l hl).trans (by omega)

/-- No line is longer than its text, the last one included. -/
theorem textLines_length_le (text : List β) :
    ∀ l ∈ textLines nl text, l.length ≤ text.length := by
  intro l hl
  obtain ⟨hlines, hrest⟩ := cutLines_length_le nl text
  rcases List.mem_append.mp hl with hl | hl
  · exact hlines l hl
  · split at hl
    · contradiction
    · rw [List.mem_singleton.mp hl]
      exact hrest

/-- Every letter but the newlines is in a line of its text. -/
theorem mem_textLines {text : List β} {b : β} (hmem : b ∈ text) (hb : nl b = false) :
    ∃ l ∈ textLines nl text, b ∈ l := by
  rw [← List.mem_flatten, textLines_flatten, List.mem_filter]
  exact ⟨hmem, by simp [hb]⟩

/-- Every letter but the newlines is in a complete line of its text or in the
rest. -/
theorem mem_cutLines {text : List β} {b : β} (hmem : b ∈ text) (hb : nl b = false) :
    (∃ l ∈ (cutLines nl text).1, b ∈ l) ∨ b ∈ (cutLines nl text).2 := by
  rcases mem_textLines nl hmem hb with ⟨l, hl, hbl⟩
  rcases List.mem_append.mp hl with hl | hl
  · exact Or.inl ⟨l, hl, hbl⟩
  · split at hl
    · contradiction
    · rw [List.mem_singleton] at hl
      exact Or.inr (hl ▸ hbl)

/-- Relabelling letters without touching newlines relabels the lines. -/
theorem cutLines_map {γ : Type v} {nl : β → Bool} {nl' : γ → Bool} {f : β → γ}
    (hf : ∀ b, nl' (f b) = nl b) (text : List β) :
    cutLines nl' (text.map f) =
      ((cutLines nl text).1.map (List.map f), (cutLines nl text).2.map f) := by
  induction text with
  | nil => rfl
  | cons b bs ih =>
      simp only [List.map_cons, cutLines, hf, ih]
      split
      · rfl
      · cases (cutLines nl bs).1 <;> rfl

end Foundation
end DtCore
