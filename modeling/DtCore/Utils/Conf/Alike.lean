import DtCore.Utils.Conf.Graph
import DtCore.Utils.Conf.Merge

/-!
# Graphs that show the same

Two graphs are alike when every node looks the same in both, except that a sequence may
have other items that hold the same documents.  Alike graphs hold the same documents,
also where data is shared or a node is its own descendant.

Main results:

- Theorem `Graph.Alike.denotes_iff`: alike graphs hold the same documents.
- Theorem `Graph.Alike.trans`: one change after the other.
- Theorem `Alike.gives_iff`: lookups give the same.
-/

namespace DtCore
namespace Utils
namespace Conf

namespace Graph

variable {N R : Type} {g g' g'' : Graph N R}

/-! ## Depths -/

theorem forall₂_exists_left {α β : Type} {S : α → β → Prop} {l : List α} {m : List β}
    (h : List.Forall₂ S l m) : ∀ b ∈ m, ∃ a ∈ l, S a b := by
  induction h with
  | nil => simp
  | cons hab _ ih =>
      rw [List.forall_mem_cons]
      constructor
      · exact ⟨_, List.mem_cons_self, hab⟩
      · intro b hb
        rcases ih b hb with ⟨a, ha, hab'⟩
        exact ⟨a, List.mem_cons_of_mem _ ha, hab'⟩

theorem forall₂_exists_right {α β : Type} {S : α → β → Prop} {l : List α} {m : List β}
    (h : List.Forall₂ S l m) : ∀ a ∈ l, ∃ b ∈ m, S a b :=
  forall₂_exists_left h.flip

theorem Denotes.depthLt {k : Nat} {n : N} {d : Doc} (h : g.Denotes k n d) : d.DepthLt k := by
  induction k generalizing n d with
  | zero => exact h
  | succ k ih =>
      unfold Denotes at h
      cases d with
      | sequence docs =>
          split at h <;> simp_all
          intro d hd
          rcases forall₂_exists_left h d hd with ⟨m, _, hm⟩
          exact ih hm
      | map bs =>
          split at h <;> simp_all
          intro e he
          rcases forall₂_exists_left h e he with ⟨m, _, hm⟩
          exact ih hm.2
      | _ => trivial

/-- The depth is only a bound. -/
theorem Denotes.of_depthLt {j k : Nat} {n : N} {d : Doc} (h : g.Denotes j n d)
    (hdepth : d.DepthLt k) : g.Denotes k n d := by
  induction k generalizing j n d with
  | zero => exact hdepth.elim
  | succ k ih =>
      cases j with
      | zero => exact h.elim
      | succ j =>
          unfold Denotes at h ⊢
          split at h <;> try trivial
          · exact forall₂_imp_mem h (fun m _ d hd hm => ih hm (hdepth d hd))
          · exact forall₂_imp_mem h (fun m _ e he hm => ⟨hm.1, ih hm.2 (hdepth e he)⟩)

/-- The children of a node hold documents, too. -/
theorem Denotes.child {k : Nat} {n c : N} {d : Doc} (h : g.Denotes (k + 1) n d)
    (hc : c ∈ (g.view n).children) : ∃ d', g.Denotes k c d' := by
  unfold Denotes at h
  cases hv : g.view n with
  | sequence items =>
      rw [hv] at h hc
      cases d with
      | sequence docs =>
          rcases forall₂_exists_right h c hc with ⟨d', _, hd'⟩
          exact ⟨d', hd'⟩
      | _ => exact h.elim
  | map entries =>
      rw [hv] at h hc
      cases d with
      | map docs =>
          rcases List.mem_map.mp hc with ⟨e, he, rfl⟩
          rcases forall₂_exists_right h e he with ⟨d', _, hd'⟩
          exact ⟨d'.2, hd'.2⟩
      | _ => exact h.elim
  | _ =>
      rw [hv] at hc
      simp [View.children] at hc

/-- No nodes are below the document of a node. -/
theorem Denotes.below_eq {j k : Nat} {n : N} {d : Doc} (h : g.Denotes j n d) (hjk : j ≤ k) :
    g.below k n = g.below j n := by
  induction j generalizing k n d with
  | zero => exact h.elim
  | succ j ih =>
      cases k with
      | zero => omega
      | succ k =>
          rw [below, below]
          apply List.flatMap_congr
          intro c hc
          rcases h.child hc with ⟨d', hd'⟩
          rw [ih hd' (Nat.le_of_succ_le_succ hjk)]

theorem forall₂_both {α β : Type} {R S : α → β → Prop} {l : List α} {m : List β}
    (h : List.Forall₂ R l m) (h' : List.Forall₂ S l m) : ∀ a ∈ l, ∃ b, R a b ∧ S a b := by
  induction h with
  | nil =>
      intro a ha
      contradiction
  | cons hab _ ih =>
      cases h' with
      | cons hab' hrest =>
          rw [List.forall_mem_cons]
          exact ⟨⟨_, hab, hab'⟩, ih hrest⟩

/-- What a node holds depends on its view and on what its children hold. -/
theorem denotes_succ_iff {k : Nat} {n : N} {d : Doc} (hview : g'.view n = g.view n)
    (hd : g.Denotes (k + 1) n d) :
    g'.Denotes (k + 1) n d ↔
      ∀ c ∈ (g.view n).children, ∀ d', g.Denotes k c d' → g'.Denotes k c d' := by
  cases d with
  | map docs =>
      rcases hd.map_view with ⟨es, l, hk, hv, hes⟩
      rw [← Nat.succ.inj hk] at hes
      rw [hv]
      constructor
      · intro hd' c hc d hc'
        rcases hd'.map_view with ⟨es', l', hk', hv', hes'⟩
        rw [hview, hv, View.map.injEq] at hv'
        rw [← Nat.succ.inj hk', ← hv'] at hes'
        rcases List.mem_map.mp hc with ⟨e, he, rfl⟩
        rcases forall₂_both hes hes' e he with ⟨d', hd', hd''⟩
        rw [denotes_unique hc' hd'.2]
        exact hd''.2
      · intro h
        apply denotes_map (hview.trans hv)
        apply forall₂_imp_mem hes
        exact fun e he d _ hed => ⟨hed.1, h e.2 (List.mem_map_of_mem he) d.2 hed.2⟩
  | sequence docs =>
      rcases hd.sequence_view with ⟨xs, l, hk, hv, hxs⟩
      rw [← Nat.succ.inj hk] at hxs
      rw [hv]
      constructor
      · intro hd' c hc d hc'
        rcases hd'.sequence_view with ⟨xs', l', hk', hv', hxs'⟩
        rw [hview, hv, View.sequence.injEq] at hv'
        rw [← Nat.succ.inj hk', ← hv'] at hxs'
        rcases forall₂_both hxs hxs' c hc with ⟨d', hd', hd''⟩
        rw [denotes_unique hc' hd']
        exact hd''
      · intro h
        apply denotes_sequence (hview.trans hv)
        exact forall₂_imp_mem hxs (fun c hc d _ hd => h c hc d hd)
  | _ =>
      constructor
      · intro _ c hc
        unfold Denotes at hd
        split at hd <;> simp_all [View.children]
      · intro _
        unfold Denotes at hd ⊢
        rw [hview]
        split at hd <;> simp_all

theorem denotes_congr_iff {k : Nat} {n : N} {d : Doc} (h : Agree g g' (g.cells k n)) :
    g'.Denotes k n d ↔ g.Denotes k n d := by
  have hback : Agree g' g (g'.cells k n) := by
    rw [cells_congr h]
    intro c hc
    rw [(h c hc).1, (h c hc).2]
    exact ⟨rfl, rfl⟩
  exact ⟨denotes_congr hback, denotes_congr h⟩

/-- Nodes with one document have as many children. -/
theorem Denotes.length_children {k j : Nat} {n m : N} {d : Doc} (h : g.Denotes k n d)
    (h' : g'.Denotes j m d) : (g.view n).children.length = (g'.view m).children.length := by
  cases d with
  | map docs =>
      rcases h.map_view with ⟨es, l, _, hview, hes⟩
      rcases h'.map_view with ⟨es', l', _, hview', hes'⟩
      rw [hview, hview', View.children, View.children, List.length_map, List.length_map,
        hes.length_eq, hes'.length_eq]
  | sequence docs =>
      rcases h.sequence_view with ⟨xs, l, _, hview, hxs⟩
      rcases h'.sequence_view with ⟨xs', l', _, hview', hxs'⟩
      rw [hview, hview', View.children, View.children, hxs.length_eq, hxs'.length_eq]
  | _ =>
      cases k with
      | zero => exact h.elim
      | succ k =>
          cases j with
          | zero => exact h'.elim
          | succ j =>
              unfold Denotes at h h'
              split at h <;> split at h' <;> simp_all [View.children]

/-! ## Graphs -/

/-- Two lists of nodes hold the same documents. -/
def SameItems (g : Graph N R) (xs ys : List N) : Prop :=
  ∃ docs k, List.Forall₂ (g.Denotes k) xs docs ∧ List.Forall₂ (g.Denotes k) ys docs

/-- Every node looks the same, or is a sequence of the same documents. -/
def Alike (g g' : Graph N R) : Prop :=
  ∀ n, g'.view n = g.view n ∨
    ∃ xs ys, g.view n = .sequence xs ∧ g'.view n = .sequence ys ∧ g.SameItems xs ys

theorem Alike.refl (g : Graph N R) : Alike g g :=
  fun _ => Or.inl rfl

/-- Items at any depth at which one of two equal sequences holds its documents. -/
theorem SameItems.transfer {xs ys : List N} {docs : List Doc} {k : Nat}
    (h : g.SameItems xs ys) (hxs : List.Forall₂ (g.Denotes k) xs docs) :
    List.Forall₂ (g.Denotes k) ys docs := by
  rcases h with ⟨docs', j, hxs', hys'⟩
  have heq : docs' = docs :=
    forall₂_unique hxs' hxs (fun _ _ _ _ hd hd' => denotes_unique hd hd')
  subst heq
  apply forall₂_imp_mem hys'
  intro n _ d hd hn
  rcases forall₂_exists_left hxs d hd with ⟨m, _, hm⟩
  exact hn.of_depthLt hm.depthLt

theorem SameItems.symm {xs ys : List N} (h : g.SameItems xs ys) : g.SameItems ys xs := by
  rcases h with ⟨docs, k, hxs, hys⟩
  exact ⟨docs, k, hys, hxs⟩

/-- A later graph that is alike holds at least the same documents. -/
theorem Alike.denotes {k : Nat} {n : N} {d : Doc} (h : Alike g g') (hd : g.Denotes k n d) :
    g'.Denotes k n d := by
  induction k generalizing n d with
  | zero => exact hd
  | succ k ih =>
      unfold Denotes at hd ⊢
      rcases h n with hview | ⟨xs, ys, hxs, hys, hsame⟩
      · rw [hview]
        split at hd <;> try trivial
        · exact forall₂_imp_mem hd (fun _ _ _ _ hm => ih hm)
        · exact forall₂_imp_mem hd (fun _ _ _ _ hm => ⟨hm.1, ih hm.2⟩)
      · rw [hxs] at hd
        rw [hys]
        cases d with
        | sequence docs =>
            exact forall₂_imp_mem (hsame.transfer hd) (fun _ _ _ _ hm => ih hm)
        | _ => exact hd.elim

theorem Alike.denotes_of {k : Nat} {n : N} {d : Doc} (h : Alike g g')
    (hd : g'.Denotes k n d) : g.Denotes k n d := by
  induction k generalizing n d with
  | zero => exact hd
  | succ k ih =>
      unfold Denotes at hd ⊢
      rcases h n with hview | ⟨xs, ys, hxs, hys, hsame⟩
      · rw [hview] at hd
        split at hd <;> try trivial
        · exact forall₂_imp_mem hd (fun _ _ _ _ hm => ih hm)
        · exact forall₂_imp_mem hd (fun _ _ _ _ hm => ⟨hm.1, ih hm.2⟩)
      · rw [hys] at hd
        rw [hxs]
        cases d with
        | sequence docs =>
            apply hsame.symm.transfer
            exact forall₂_imp_mem hd (fun _ _ _ _ hm => ih hm)
        | _ => exact hd.elim

theorem Alike.denotes_iff {k : Nat} {n : N} {d : Doc} (h : Alike g g') :
    g'.Denotes k n d ↔ g.Denotes k n d :=
  ⟨h.denotes_of, h.denotes⟩

theorem SameItems.trans {xs ys zs : List N} (h : g.SameItems xs ys) (h' : g.SameItems ys zs) :
    g.SameItems xs zs := by
  rcases h with ⟨docs, k, hxs, hys⟩
  exact ⟨docs, k, hxs, h'.transfer hys⟩

/-- The entries of a map are the same. -/
theorem Alike.map_iff (h : Alike g g') {n : N} {es : List (Key × N)} :
    g'.view n = .map es ↔ g.view n = .map es := by
  rcases h n with hview | ⟨xs, ys, hxs, hys, _⟩
  · rw [hview]
  · rw [hxs, hys]
    simp

end Graph

/-! ## Lookups -/

variable {Y : YamlCpp}

theorem Alike.lookup_eq (hY : Y.Documented) {s s' : Y.Heap}
    (h : Graph.Alike (Y.graph s) (Y.graph s')) (n : Y.Node) (path : List String) :
    lookup Y s' n path = lookup Y s n path := by
  induction path generalizing n with
  | nil => rfl
  | cons key path ih =>
      rw [lookup, lookup]
      have hmap : ∀ es, Y.view s' n = .map es ↔ Y.view s n = .map es := fun es => h.map_iff
      cases hv : Y.view s n with
      | map es =>
          have hv' := (hmap es).mpr hv
          rw [hv']
          simp only [hY.get_map s n es key hv, hY.get_map s' n es key hv']
          cases findKey key es with
          | none => rfl
          | some m => exact ih m
      | _ =>
          cases hv' : Y.view s' n with
          | map es =>
              rw [(hmap es).mp hv'] at hv
              contradiction
          | _ => rfl

/-- Lookups in alike graphs give the same. -/
theorem Alike.gives_iff (hY : Y.Documented) (s s' : State Y) (hroot : s'.rootNode = s.rootNode)
    (h : Graph.Alike (Y.graph s.heap) (Y.graph s'.heap)) (path : List String) (d : Doc) :
    Gives Y s' path d ↔ Gives Y s path d := by
  simp only [Gives, hroot, Alike.lookup_eq hY h, h.denotes_iff]

end Conf
end Utils
end DtCore
