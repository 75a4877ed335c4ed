import Mathlib.Data.List.Forall2
import DtCore.Utils.Conf.Yaml

/-!
# Trees in a graph of nodes

A node that holds a document is a tree when no two of the nodes at or below it
refer to the same data.  What a node holds depends on these nodes only.

Main results:

- Theorem `Graph.denotes_congr`: two graphs that agree on a tree give it the same
  document.
- Theorem `findKey_split`: an entry that is found splits the entries, on the nodes
  and on the documents alike.
-/

namespace DtCore
namespace Utils
namespace Conf

/-! ## Related lists -/

theorem forall₂_append_left {α β : Type} {R : α → β → Prop} {l₁ l₂ : List α} {m : List β}
    (h : List.Forall₂ R (l₁ ++ l₂) m) :
    ∃ m₁ m₂, m = m₁ ++ m₂ ∧ List.Forall₂ R l₁ m₁ ∧ List.Forall₂ R l₂ m₂ := by
  induction l₁ generalizing m with
  | nil => exact ⟨[], m, rfl, List.Forall₂.nil, h⟩
  | cons a l₁ ih =>
      cases h with
      | cons hab h =>
          rcases ih h with ⟨m₁, m₂, rfl, h₁, h₂⟩
          exact ⟨_ :: m₁, m₂, rfl, List.Forall₂.cons hab h₁, h₂⟩

theorem forall₂_imp_mem {α β : Type} {R S : α → β → Prop} {l : List α} {m : List β}
    (h : List.Forall₂ R l m) (himp : ∀ a ∈ l, ∀ b ∈ m, R a b → S a b) :
    List.Forall₂ S l m := by
  induction h with
  | nil => exact List.Forall₂.nil
  | cons hab _ ih =>
      apply List.Forall₂.cons
      · exact himp _ List.mem_cons_self _ List.mem_cons_self hab
      · apply ih
        intro a ha b hb
        exact himp a (List.mem_cons_of_mem _ ha) b (List.mem_cons_of_mem _ hb)

theorem forall₂_unique {α β : Type} {R S : α → β → Prop} {l : List α} {m m' : List β}
    (h : List.Forall₂ R l m) (h' : List.Forall₂ S l m')
    (hunique : ∀ a ∈ l, ∀ b b', R a b → S a b' → b = b') : m = m' := by
  induction h generalizing m' with
  | nil => cases h'; rfl
  | cons hab _ ih =>
      cases h' with
      | cons hab' hrest =>
          rw [List.forall_mem_cons] at hunique
          rw [hunique.1 _ _ hab hab', ih hrest hunique.2]

namespace Graph

variable {N R : Type}

/-- Nodes and documents of a map, entry by entry. -/
def EntriesDenote (g : Graph N R) (k : Nat) (es : List (Key × N)) (bs : List (Key × Doc)) :
    Prop :=
  List.Forall₂ (fun e d => e.1 = d.1 ∧ g.Denotes k e.2 d.2) es bs

/-- The nodes at or below the values of a map. -/
def entryCells (g : Graph N R) (k : Nat) (es : List (Key × N)) : List N :=
  es.flatMap (fun e => g.cells k e.2)

/-- A key is missing on the nodes exactly when it is missing on the documents. -/
theorem EntriesDenote.findKey_none {g : Graph N R} {k : Nat} {es : List (Key × N)}
    {bs : List (Key × Doc)} (h : g.EntriesDenote k es bs) {key : String}
    (hkey : findKey key es = none) : findKey key bs = none := by
  induction h with
  | nil => rfl
  | cons hed _ ih =>
      rename_i e d es bs _
      rcases e with ⟨ke, n⟩
      rcases d with ⟨kd, d⟩
      simp only at hed
      rw [← hed.1]
      by_cases hk : ke.matches key = true
      · simp [findKey, hk] at hkey
      · rw [findKey, if_neg hk] at hkey ⊢
        exact ih hkey

/-- A key that is found splits nodes and documents at the same place. -/
theorem EntriesDenote.split {g : Graph N R} {k : Nat} {es : List (Key × N)}
    {bs : List (Key × Doc)} (h : g.EntriesDenote k es bs) {key : String} {t : N}
    (hkey : findKey key es = some t) :
    ∃ pre post preDocs d postDocs,
      es = pre ++ (.scalar key, t) :: post ∧ bs = preDocs ++ (.scalar key, d) :: postDocs ∧
        findKey key pre = none ∧ findKey key preDocs = none ∧ g.EntriesDenote k pre preDocs ∧
          g.Denotes k t d ∧ g.EntriesDenote k post postDocs := by
  rcases findKey_split hkey with ⟨pre, post, rfl, hpre⟩
  rcases forall₂_append_left h with ⟨preDocs, rest, rfl, hpreDocs, hrest⟩
  cases hrest with
  | cons hed hpost =>
      rename_i d postDocs
      rcases d with ⟨kd, d⟩
      simp only at hed
      rcases hed with ⟨rfl, hd⟩
      exact ⟨pre, post, preDocs, d, postDocs, rfl, rfl, hpre,
        EntriesDenote.findKey_none hpreDocs hpre, hpreDocs, hd, hpost⟩

/-! ## What a node holds -/

theorem below_of_map {g : Graph N R} {k : Nat} {n : N} {es : List (Key × N)}
    (h : g.view n = .map es) : g.below (k + 1) n = g.entryCells k es := by
  rw [below, h, View.children, List.flatMap_map]
  rfl

theorem below_of_sequence {g : Graph N R} {k : Nat} {n : N} {items : List N}
    (h : g.view n = .sequence items) : g.below (k + 1) n = items.flatMap (g.cells k) := by
  rw [below, h, View.children]
  rfl

/-- Two graphs agree on some nodes. -/
def Agree (g g' : Graph N R) (l : List N) : Prop :=
  ∀ c ∈ l, g'.ref c = g.ref c ∧ g'.content (g.ref c) = g.content (g.ref c)

theorem Agree.mono {g g' : Graph N R} {l m : List N} (h : Agree g g' l) (hm : ∀ c ∈ m, c ∈ l) :
    Agree g g' m := fun c hc => h c (hm c hc)

theorem Agree.view {g g' : Graph N R} {l : List N} (h : Agree g g' l) {n : N} (hn : n ∈ l) :
    g'.view n = g.view n := by
  rw [Graph.view, Graph.view, (h n hn).1, (h n hn).2]

theorem self_mem_cells (g : Graph N R) (k : Nat) (n : N) : n ∈ g.cells k n :=
  List.mem_cons_self

theorem cells_child {g : Graph N R} {k : Nat} {n c : N} (hc : c ∈ (g.view n).children) :
    ∀ m ∈ g.cells k c, m ∈ g.cells (k + 1) n := by
  intro m hm
  apply List.mem_cons_of_mem
  rw [below]
  exact List.mem_flatMap.mpr ⟨c, hc, hm⟩

theorem below_congr {g g' : Graph N R} {k : Nat} {n : N} (h : Agree g g' (g.cells k n)) :
    g'.below k n = g.below k n := by
  induction k generalizing n with
  | zero => rfl
  | succ k ih =>
      rw [below, below, h.view (g.self_mem_cells _ _)]
      apply List.flatMap_congr
      intro c hc
      rw [ih (h.mono (cells_child hc))]

theorem cells_congr {g g' : Graph N R} {k : Nat} {n : N} (h : Agree g g' (g.cells k n)) :
    g'.cells k n = g.cells k n := by
  rw [cells, cells, below_congr h]

/-- Two graphs that agree on a tree give it the same document. -/
theorem denotes_congr {g g' : Graph N R} {k : Nat} {n : N} {d : Doc}
    (h : Agree g g' (g.cells k n)) (hd : g.Denotes k n d) : g'.Denotes k n d := by
  induction k generalizing n d with
  | zero => exact hd
  | succ k ih =>
      have hview := h.view (g.self_mem_cells _ _)
      unfold Denotes at hd ⊢
      rw [hview]
      have hchild : ∀ c ∈ (g.view n).children, ∀ d', g.Denotes k c d' → g'.Denotes k c d' :=
        fun c hc d' hd' => ih (h.mono (cells_child hc)) hd'
      cases hv : g.view n <;> cases d <;> rw [hv] at hd hchild <;> try exact hd
      · exact forall₂_imp_mem hd (fun c hc d' _ hd' => hchild c hc d' hd')
      · apply forall₂_imp_mem hd
        intro e he d' _ hd'
        exact ⟨hd'.1, hchild e.2 (List.mem_map_of_mem he) d'.2 hd'.2⟩

theorem entryCells_congr {g g' : Graph N R} {k : Nat} {es : List (Key × N)}
    (h : Agree g g' (g.entryCells k es)) : g'.entryCells k es = g.entryCells k es := by
  apply List.flatMap_congr
  intro e he
  exact cells_congr (h.mono (fun c hc => List.mem_flatMap.mpr ⟨e, he, hc⟩))

theorem entriesDenote_congr {g g' : Graph N R} {k : Nat} {es : List (Key × N)}
    {bs : List (Key × Doc)} (h : Agree g g' (g.entryCells k es))
    (hd : g.EntriesDenote k es bs) : g'.EntriesDenote k es bs := by
  apply forall₂_imp_mem hd
  intro e he d _ hed
  exact ⟨hed.1, denotes_congr (h.mono (fun c hc => List.mem_flatMap.mpr ⟨e, he, hc⟩)) hed.2⟩

theorem denotes_map {g : Graph N R} {k : Nat} {n : N} {es : List (Key × N)}
    {bs : List (Key × Doc)} (hview : g.view n = .map es) (h : g.EntriesDenote k es bs) :
    g.Denotes (k + 1) n (.map bs) := by
  unfold Denotes
  rw [hview]
  exact h

theorem denotes_sequence {g : Graph N R} {k : Nat} {n : N} {items : List N} {ds : List Doc}
    (hview : g.view n = .sequence items) (h : List.Forall₂ (g.Denotes k) items ds) :
    g.Denotes (k + 1) n (.sequence ds) := by
  unfold Denotes
  rw [hview]
  exact h

theorem Denotes.map_view {g : Graph N R} {k : Nat} {n : N} {bs : List (Key × Doc)}
    (h : g.Denotes k n (.map bs)) :
    ∃ es l, k = l + 1 ∧ g.view n = .map es ∧ g.EntriesDenote l es bs := by
  cases k with
  | zero => exact h.elim
  | succ k =>
      unfold Denotes at h
      split at h <;> simp_all
      exact h

theorem Denotes.sequence_view {g : Graph N R} {k : Nat} {n : N} {ds : List Doc}
    (h : g.Denotes k n (.sequence ds)) :
    ∃ items l, k = l + 1 ∧ g.view n = .sequence items ∧
      List.Forall₂ (g.Denotes l) items ds := by
  cases k with
  | zero => exact h.elim
  | succ k =>
      unfold Denotes at h
      split at h <;> simp_all

/-- A node and its document have the same type. -/
theorem Denotes.undefined_iff {g : Graph N R} {k : Nat} {n : N} {d : Doc}
    (h : g.Denotes k n d) : g.view n = .undefined ↔ d = .undefined := by
  cases k with
  | zero => exact h.elim
  | succ k =>
      unfold Denotes at h
      split at h <;> simp_all

theorem Denotes.null_iff {g : Graph N R} {k : Nat} {n : N} {d : Doc}
    (h : g.Denotes k n d) : g.view n = .null ↔ d = .null := by
  cases k with
  | zero => exact h.elim
  | succ k =>
      unfold Denotes at h
      split at h <;> simp_all

/-- A node holds one document only. -/
theorem denotes_unique {g : Graph N R} {k j : Nat} {n : N} {d d' : Doc}
    (h : g.Denotes k n d) (h' : g.Denotes j n d') : d = d' := by
  induction k generalizing j n d d' with
  | zero => exact h.elim
  | succ k ih =>
      cases j with
      | zero => exact h'.elim
      | succ j =>
          unfold Denotes at h h'
          cases hv : g.view n <;> cases d <;> rw [hv] at h h' <;> cases d' <;> simp_all
          · exact forall₂_unique h h' (fun a _ b b' hb hb' => ih hb hb')
          · apply forall₂_unique h h'
            intro a _ b b' hb hb'
            rcases b with ⟨kb, b⟩
            rcases b' with ⟨kb', b'⟩
            simp only at hb hb'
            rw [← hb.1, ← hb'.1, ih hb.2 hb'.2]

end Graph

end Conf
end Utils
end DtCore
