import Mathlib.Data.List.Infix
import Mathlib.Logic.Function.Basic

/-!
# Trees of directories

Directories and regular files, addressed by the list of names that lead to them from the
root.  Everything is in a directory, which is a field of the tree.

Main definitions:

- `DirTree`: what there is at the positions.
- `DirTree.addDirectory`: one more directory.
- `DirTree.Grows`: new directories on the way to a position.

Main results:

- Theorem `kind_of_extended`: what is on the way to something is a directory.
-/

namespace DtCore
namespace Foundation

inductive Kind where
  | directory
  | regular
deriving DecidableEq

/-- Directories and regular files, each of them in a directory. -/
structure DirTree (N : Type*) where
  kind : List N → Option Kind
  root : kind [] = some .directory
  parent : ∀ p c, kind (p ++ [c]) ≠ none → kind p = some .directory

namespace DirTree

variable {N : Type*} {t t' t'' : DirTree N} {p q : List N}

/-! ## On the way -/

/-- What is on the way to something is a directory. -/
theorem kind_of_extended (hway : p <+: q) (hne : p ≠ q) (hq : t.kind q ≠ none) :
    t.kind p = some .directory := by
  rcases hway with ⟨rest, rfl⟩
  induction rest using List.reverseRecOn with
  | nil => exact absurd (List.append_nil p).symm hne
  | append_singleton rest c ih =>
      rw [← List.append_assoc] at hq
      have hfront := t.parent _ c hq
      by_cases hrest : rest = []
      · rwa [hrest, List.append_nil] at hfront
      · exact ih (by simpa using hrest) (by rw [hfront]; simp)

theorem none_of_extended (hway : p <+: q) (hp : t.kind p = none) : t.kind q = none := by
  by_contra hq
  by_cases hne : p = q
  · exact hq (hne ▸ hp)
  · rw [kind_of_extended hway hne hq] at hp
    contradiction

/-- Nothing is behind a regular file. -/
theorem none_of_regular (hway : p <+: q) (hne : p ≠ q) (hp : t.kind p = some .regular) :
    t.kind q = none := by
  by_contra hq
  rw [kind_of_extended hway hne hq] at hp
  contradiction

theorem kind_dropLast (hq : t.kind q ≠ none) : t.kind q.dropLast = some .directory := by
  by_cases hnil : q = []
  · rw [hnil]
    exact t.root
  · have hlast := List.dropLast_append_getLast hnil
    rw [← hlast] at hq
    exact t.parent _ _ hq

/-! ## New directories -/

/-- One more directory in a directory. -/
def addDirectory [DecidableEq N] (t : DirTree N) (q : List N)
    (hparent : t.kind q.dropLast = some .directory) : DirTree N where
  kind := Function.update t.kind q (some .directory)
  root := by
    by_cases hnil : [] = q
    · rw [← hnil, Function.update_self]
    · rw [Function.update_of_ne hnil]
      exact t.root
  parent := by
    intro p c hpc
    have hp : t.kind p = some .directory := by
      by_cases heq : p ++ [c] = q
      · rw [← heq, List.dropLast_concat] at hparent
        exact hparent
      · rw [Function.update_of_ne heq] at hpc
        exact t.parent p c hpc
    by_cases heq : p = q
    · rw [heq, Function.update_self]
    · rwa [Function.update_of_ne heq]

/-- The second tree has new directories on the way to a position, and no other
changes. -/
def Grows (t t' : DirTree N) (q : List N) : Prop :=
  ∀ p, t'.kind p ≠ t.kind p →
    t.kind p = none ∧ t'.kind p = some .directory ∧ p <+: q

theorem Grows.refl (t : DirTree N) (q : List N) : Grows t t q :=
  fun _ h => absurd rfl h

/-- What there is stays. -/
theorem Grows.keeps (h : Grows t t' q) {k : Kind} (hp : t.kind p = some k) :
    t'.kind p = some k := by
  by_contra hchanged
  have hnew := (h p (by rw [hp]; exact hchanged)).1
  rw [hp] at hnew
  contradiction

/-- Only directories are new. -/
theorem Grows.regular (h : Grows t t' q) (hp : t'.kind p = some .regular) :
    t.kind p = some .regular := by
  by_contra hchanged
  have hnew := (h p (by rw [hp]; exact fun heq => hchanged heq.symm)).2.1
  rw [hp] at hnew
  contradiction

theorem Grows.trans (h : Grows t t' q) (h' : Grows t' t'' q) : Grows t t'' q := by
  intro p hp
  by_cases hsame : t'.kind p = t.kind p
  · rw [← hsame] at hp ⊢
    exact h' p hp
  · rcases h p hsame with ⟨hnone, hdir, hway⟩
    exact ⟨hnone, h'.keeps hdir, hway⟩

theorem Grows.mono {q' : List N} (h : Grows t t' q) (hq : q <+: q') : Grows t t' q' := by
  intro p hp
  rcases h p hp with ⟨hnone, hdir, hway⟩
  exact ⟨hnone, hdir, hway.trans hq⟩

theorem grows_addDirectory [DecidableEq N] (hnew : t.kind q = none)
    (hparent : t.kind q.dropLast = some .directory) :
    Grows t (t.addDirectory q hparent) q := by
  intro p hp
  have heq : p = q := by
    by_contra hne
    exact hp (Function.update_of_ne hne _ _)
  subst heq
  exact ⟨hnew, Function.update_self _ _ _, List.prefix_refl p⟩

end DirTree
end Foundation
end DtCore
