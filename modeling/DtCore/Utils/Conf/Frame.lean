import DtCore.Utils.Conf.Kept

/-!
# The writes of a merge

As long as a merge does not meet again what it has written to, it makes all the writes of
the positions at which the two graphs of nodes meet, and no others.

Main definitions:

- `Wrote`: the writes at some positions were made.

Main results:

- Theorem `mergeEntries_wrote`: the loop over the entries of the override.
- Theorem `mergeNodes_wrote`: the whole merge.
-/

namespace DtCore
namespace Utils
namespace Conf

variable {Y : YamlCpp} {concat : Bool} {s₀ s u : Y.Heap} {b o : Y.Node}

/-! ## Writes at positions -/

/-- The writes at a position can be seen. -/
structure Done (Y : YamlCpp) (concat : Bool) (s : Y.Heap) (b o : Y.Node) (u : Y.Heap)
    (q : List Nat) : Prop where
  replaced : ∀ m v, ReplacedBy Y concat s b o q m v → (Y.graph u).ref m = (Y.graph s).ref v
  added : ∀ r, Adds Y concat s b o q r →
    ((Y.graph s).content r).children.length < ((Y.graph u).content r).children.length

/-- There is nothing to write at a position. -/
def Idle (Y : YamlCpp) (concat : Bool) (s : Y.Heap) (b o : Y.Node) (q : List Nat) : Prop :=
  (∀ m, ¬ Replaces Y concat s b o q m) ∧ ∀ r, ¬ Adds Y concat s b o q r

theorem Idle.done {q : List Nat} (h : Idle Y concat s b o q) : Done Y concat s b o u q :=
  ⟨fun m v hrep => absurd ⟨v, hrep⟩ (h.1 m), fun r hadd => absurd hadd (h.2 r)⟩

/-- The writes at the positions in `P`, after those in `D`. -/
structure Wrote (Y : YamlCpp) (concat : Bool) (s : Y.Heap) (b o : Y.Node)
    (P D : List Nat → Prop) (u u' : Y.Heap) : Prop where
  kept : Kept Y concat s b o (fun q => D q ∨ P q) u'
  mono : Y.Extends u u'
  ref : ∀ m, Y.alive s m → (Y.graph u').ref m = (Y.graph u).ref m ∨
    ∃ q, P q ∧ Replaces Y concat s b o q m
  size : ∀ r, Y.used s r →
    ((Y.graph u).content r).children.length ≤ ((Y.graph u').content r).children.length
  done : ∀ q, P q → Done Y concat s b o u' q

theorem Wrote.idle {P D : List Nat → Prop} (h : Kept Y concat s b o D u)
    (hP : ∀ q, P q → Idle Y concat s b o q) : Wrote Y concat s b o P D u u where
  kept := h.weaken (fun _ => Or.inl)
  mono := YamlCpp.Extends.refl u
  ref := fun _ _ => Or.inl rfl
  size := fun _ _ => Nat.le_refl _
  done := fun q hq => (hP q hq).done

/-- Other positions at which there is nothing to write. -/
theorem Wrote.widen {P Q D : List Nat → Prop} {u' : Y.Heap}
    (h : Wrote Y concat s b o P D u u') (hP : ∀ q, P q → Q q)
    (hQ : ∀ q, Q q → P q ∨ Idle Y concat s b o q) : Wrote Y concat s b o Q D u u' where
  kept := h.kept.weaken (fun q hq => hq.imp_right (hP q))
  mono := h.mono
  ref := by
    intro m hm
    rcases h.ref m hm with href | ⟨q, hq, hrep⟩
    · exact Or.inl href
    · exact Or.inr ⟨q, hP q hq, hrep⟩
  size := h.size
  done := by
    intro q hq
    rcases hQ q hq with hq | hidle
    · exact h.done q hq
    · exact hidle.done

/-- Later writes at other positions leave a write as it is. -/
theorem Done.later (hY : Y.Documented) (hread : ReadsNew Y s₀ s o) (hb : Y.alive s₀ b)
    (honce : Once Y concat s b o) {P D : List Nat → Prop} {u' : Y.Heap} {q : List Nat}
    (h : Done Y concat s b o u q) (hwrote : Wrote Y concat s b o P D u u') (hq : ¬ P q) :
    Done Y concat s b o u' q where
  replaced := by
    intro m v hrep
    have hm : Y.alive s m := hread.mono.alive m (hrep.1.alive_base hY hread hb)
    rcases hwrote.ref m hm with href | ⟨q', hq', hrep'⟩
    · rw [href]
      exact h.replaced m v hrep
    · rw [honce.node q' q m v hrep' hrep.1] at hq
      exact absurd hq' hq
  added := by
    intro r hadd
    have hr : Y.used s r := hread.mono.used r (hadd.used hY hread hb)
    exact Nat.lt_of_lt_of_le (h.added r hadd) (hwrote.size r hr)

theorem Wrote.trans (hY : Y.Documented) (hread : ReadsNew Y s₀ s o) (hb : Y.alive s₀ b)
    (honce : Once Y concat s b o) {P P' Q D : List Nat → Prop} {u' u'' : Y.Heap}
    (h : Wrote Y concat s b o P D u u')
    (h' : Wrote Y concat s b o P' (fun q => D q ∨ P q) u' u'')
    (hQ : ∀ q, Q q ↔ P q ∨ P' q) (hdisj : ∀ q, P q → ¬ P' q) :
    Wrote Y concat s b o Q D u u'' where
  kept := by
    apply h'.kept.weaken
    rintro q ((hq | hq) | hq)
    · exact Or.inl hq
    · exact Or.inr ((hQ q).mpr (Or.inl hq))
    · exact Or.inr ((hQ q).mpr (Or.inr hq))
  mono := h.mono.trans h'.mono
  ref := by
    intro m hm
    rcases h'.ref m hm with href' | ⟨q, hq, hrep⟩
    · rcases h.ref m hm with href | ⟨q, hq, hrep⟩
      · exact Or.inl (href'.trans href)
      · exact Or.inr ⟨q, (hQ q).mpr (Or.inl hq), hrep⟩
    · exact Or.inr ⟨q, (hQ q).mpr (Or.inr hq), hrep⟩
  size := fun r hr => Nat.le_trans (h.size r hr) (h'.size r hr)
  done := by
    intro q hq
    rcases (hQ q).mp hq with hq | hq
    · exact (h.done q hq).later hY hread hb honce h' (hdisj q hq)
    · exact h'.done q hq

/-! ## Entries -/

theorem findKey_append_of_none {α : Type} {key : String} {es : List (Key × α)}
    (h : findKey key es = none) (extra : List (Key × α)) :
    findKey key (es ++ extra) = findKey key extra := by
  induction es with
  | nil => rfl
  | cons e es ih =>
      rcases e with ⟨k, a⟩
      by_cases hk : k.matches key = true
      · rw [findKey, if_pos hk] at h
        contradiction
      · rw [findKey, if_neg hk] at h
        rw [List.cons_append, findKey, if_neg hk, ih h]

/-- What the merge of two child nodes must do for the loop. -/
def MergeWrote (Y : YamlCpp) (concat : Bool) (s : Y.Heap) (b o : Y.Node) (k : Nat) : Prop :=
  ∀ q n v D u u' r, Visit Y s b o q n v → Kept Y concat s b o D u →
    (∀ q', D q' → ¬ q <+: q') → mergeNodes Y concat k u (some n) v = .returned u' r →
      Wrote Y concat s b o (Deeper q) D u u' ∧
        ((r = some n ∧ (hasContent Y s v = true → Combines Y concat s n v)) ∨
          (r = some v ∧ hasContent Y s v = true ∧ ¬ Combines Y concat s n v))

/-- A round of the loop that goes on. -/
theorem mergeEntries_cons_returned (hY : Y.Documented)
    {merge : Y.Heap → Option Y.Node → Y.Node → Outcome Y} {u' : Y.Heap} {n w : Y.Node}
    {r : Option Y.Node} {es os : List (Key × Y.Node)} {k : Key} {key : String}
    (hview : Y.view u n = .map es) (hdefined : isDefined Y u w = true)
    (hkey : Y.keyString k = some key)
    (h : mergeEntries Y merge n u ((k, w) :: os) = .returned u' r) :
    ∃ u₁ x, merge u (findKey key es) w = .returned u₁ (some x) ∧
      mergeEntries Y merge n (Y.assign (Y.subscript u₁ n key).1 (Y.subscript u₁ n key).2 x) os =
        .returned u' r := by
  rw [mergeEntries_cons hY hview hdefined hkey] at h
  cases hmerge : merge u (findKey key es) w with
  | returned u₁ rhs =>
      rw [hmerge] at h
      cases rhs with
      | none => contradiction
      | some x => exact ⟨u₁, x, rfl, h⟩
  | threw u₁ =>
      rw [hmerge] at h
      contradiction
  | tooDeep =>
      rw [hmerge] at h
      contradiction

/-- A handle of a missing key is replaced by an override with content. -/
theorem mergeNodes_none_returned {k : Nat} {w x : Y.Node} {u₁ : Y.Heap}
    (h : mergeNodes Y concat k u none w = .returned u₁ (some x)) : u₁ = u ∧ x = w := by
  cases k with
  | zero => contradiction
  | succ k =>
      rw [mergeNodes] at h
      split at h
      · simp only [Outcome.returned.injEq, Option.some.injEq] at h
        exact ⟨h.1.symm, h.2.symm⟩
      · simp at h

/-- The nodes that meet at a position exist. -/
theorem Visit.alive (hY : Y.Documented) (hread : ReadsNew Y s₀ s o) (hb : Y.alive s₀ b)
    {q : List Nat} {n v : Y.Node} (h : Visit Y s b o q n v) : Y.alive s n ∧ Y.alive s v :=
  ⟨hread.mono.alive n (h.alive_base hY hread hb), h.below_override.alive hY hread⟩

/-- Nothing is written at an entry that meets no node of the base, unless it is added. -/
theorem idle_of_no_child {q q' : List Nat} {i : Nat} {n v : Y.Node}
    {es os : List (Key × Y.Node)} (hvisit : Visit Y s b o q n v) (hn : Y.view s n = .map es)
    (hv : Y.view s v = .map os) (hpre : q ++ [i] <+: q')
    (hno : ∀ k w, os[i]? = some (k, w) → isDefined Y s w = false) :
    Idle Y concat s b o q' := by
  have hchild : ¬ ∃ t w, Visit Y s b o (q ++ [i]) t w := by
    rintro ⟨t, w, h⟩
    rcases h.entry_inv hvisit hn hv with ⟨k, key, hw, hdef, _⟩
    rw [hno k w hw] at hdef
    contradiction
  constructor
  · intro m hrep
    exact hchild (hrep.at_entry hpre)
  · intro r hadd
    rcases hadd.at_entry hpre hvisit hn hv with ⟨_, _, k, w, key, hw, hdef, _⟩ | ⟨_, h⟩
    · rw [hno k w hw] at hdef
      contradiction
    · exact hchild h

/-- The merge of an entry whose key the base has. -/
theorem wrote_found (hY : Y.Documented) (hread : ReadsNew Y s₀ s o) (hb : Y.alive s₀ b)
    (honce : Once Y concat s b o) {k i : Nat} (ih : MergeWrote Y concat s b o k)
    {q : List Nat} {n v t w x : Y.Node} {es os : List (Key × Y.Node)} {k₀ : Key} {key : String}
    {D : List Nat → Prop} {u₁ : Y.Heap} (hvisit : Visit Y s b o q n v)
    (hn : Y.view s n = .map es) (hv : Y.view s v = .map os) (hw : os[i]? = some (k₀, w))
    (hk : Y.keyString k₀ = some key) (ht : findKey key es = some t)
    (hchild : Visit Y s b o (q ++ [i]) t w) (hkept : Kept Y concat s b o D u) (hq : ¬ D q)
    (hD : ∀ q', D q' → ¬ q ++ [i] <+: q')
    (hmerge : mergeNodes Y concat k u (some t) w = .returned u₁ (some x)) :
    Wrote Y concat s b o (fun q' => q ++ [i] <+: q') D u
      (Y.assign (Y.subscript u₁ n key).1 (Y.subscript u₁ n key).2 x) := by
  rcases ih (q ++ [i]) t w D u u₁ (some x) hchild hkept hD hmerge with ⟨hwrote, hx⟩
  have hnotq : ¬ (D q ∨ Deeper (q ++ [i]) q) := by
    rintro (hq' | ⟨hpre, _⟩)
    · exact hq hq'
    · exact (deeper_of_entry hpre).2 rfl
  have hnalive := (hvisit.alive hY hread hb).1
  have htalive := hchild.alive hY hread hb
  have hgrown := hwrote.kept.view_grown hY hnalive
    (hwrote.kept.ref_visit honce hvisit hnalive hnotq)
  rw [hn] at hgrown
  rcases hgrown with ⟨extra, hview, _⟩
  rw [hY.subscript_found u₁ n _ key t hview (findKey_append ht extra)]
  dsimp only
  have htalive' := hwrote.kept.mono.alive t htalive.1
  have hadd : ∀ r, ¬ Adds Y concat s b o (q ++ [i]) r := by
    intro r hadd
    rcases hadd.at_entry (List.prefix_refl _) hvisit hn hv with
      ⟨_, _, k', w', key', hw', _, hk', hkey'⟩ | ⟨hdeep, _⟩
    · rw [hw, Option.some.injEq, Prod.mk.injEq] at hw'
      rw [← hw'.1, hk, Option.some.injEq] at hk'
      rw [← hk', ht] at hkey'
      contradiction
    · exact hdeep.2 rfl
  have hstep : Wrote Y concat s b o (fun q' => q' = q ++ [i])
      (fun q' => D q' ∨ Deeper (q ++ [i]) q') u₁ (Y.assign u₁ t x) := by
    have hkept' : Kept Y concat s b o
        (fun q' => (D q' ∨ Deeper (q ++ [i]) q') ∨ q' = q ++ [i]) u₁ :=
      hwrote.kept.weaken (fun _ => Or.inl)
    rcases hx with ⟨hx, hcomb⟩ | ⟨hx, hcontent, hcomb⟩
    · -- the base is merged in place
      rw [Option.some.inj hx]
      constructor
      · exact hkept'.assign hY htalive' htalive' (fun _ => Or.inl rfl)
      · exact (hY.assign_node u₁ t t htalive' htalive').mono
      · exact fun m _ => Or.inl (assign_ref hY htalive' htalive' (fun _ => rfl))
      · intro r _
        have hcontent := (hY.assign_node u₁ t t htalive' htalive').content_eq
        exact Nat.le_of_eq (by rw [hcontent])
      · rintro q' rfl
        apply Idle.done
        constructor
        · rintro m ⟨w', hvisit', hcontent', hcomb'⟩
          rcases hchild.unique hvisit' with ⟨rfl, rfl⟩
          exact hcomb' (hcomb hcontent')
        · exact hadd
    · -- the node of the base is replaced
      rw [Option.some.inj hx]
      have hrep : Replaces Y concat s b o (q ++ [i]) t := ⟨w, hchild, hcontent, hcomb⟩
      have hwalive := hwrote.kept.mono.alive w htalive.2
      have hassign := hY.assign_node u₁ t w htalive' hwalive
      constructor
      · exact hkept'.assign hY htalive' hwalive
          (fun _ => Or.inr ⟨q ++ [i], Or.inr rfl, hrep⟩)
      · exact hassign.mono
      · intro m _
        by_cases hmt : m = t
        · rw [hmt]
          exact Or.inr ⟨q ++ [i], rfl, hrep⟩
        · exact Or.inl (hassign.ref_eq m hmt)
      · intro r _
        exact Nat.le_of_eq (by rw [hassign.content_eq])
      · rintro q' rfl
        constructor
        · rintro m w' ⟨hvisit', _, _⟩
          rcases hchild.unique hvisit' with ⟨rfl, rfl⟩
          rw [hassign.ref_self]
          exact (hwrote.kept.view_override hY hread hb hchild.below_override).1
        · exact fun r h => absurd h (hadd r)
  apply hwrote.trans hY hread hb honce hstep
  · intro q'
    constructor
    · intro hpre
      by_cases hsame : q' = q ++ [i]
      · exact Or.inr hsame
      · exact Or.inl ⟨hpre, hsame⟩
    · rintro (hdeep | rfl)
      · exact hdeep.1
      · exact List.prefix_refl _
  · exact fun q' hdeep hsame => hdeep.2 hsame

/-- The merge of an entry whose key the base does not have. -/
theorem wrote_missing (hY : Y.Documented) (hread : ReadsNew Y s₀ s o) (hb : Y.alive s₀ b)
    {i : Nat} {q : List Nat} {n v w : Y.Node} {es os es' : List (Key × Y.Node)} {k₀ : Key}
    {key : String} {D : List Nat → Prop} (hvisit : Visit Y s b o q n v)
    (hn : Y.view s n = .map es) (hv : Y.view s v = .map os) (hw : os[i]? = some (k₀, w))
    (hdef : isDefined Y s w = true) (hk : Y.keyString k₀ = some key)
    (ht : findKey key es = none) (hkept : Kept Y concat s b o D u)
    (href : (Y.graph u).ref n = (Y.graph s).ref n) (hview : Y.view u n = .map es')
    (hkey : findKey key es' = none) (hwalive : Y.alive s w) :
    Wrote Y concat s b o (fun q' => q ++ [i] <+: q') D u
      (Y.assign (Y.subscript u n key).1 (Y.subscript u n key).2 w) := by
  have hins : Inserts Y s b o (q ++ [i]) ((Y.graph s).ref n) key :=
    ⟨q, i, n, v, es, os, k₀, w, rfl, hvisit, hn, hv, hw, hdef, hk, ht, rfl⟩
  have hnalive := (hvisit.alive hY hread hb).1
  have hsub := hY.subscript_missing u n es' key (hkept.mono.alive n hnalive) hview hkey
  have hinsert : Kept Y concat s b o (fun q' => D q' ∨ q ++ [i] <+: q')
      (Y.subscript u n key).1 :=
    (hkept.weaken (fun _ => Or.inl)).insert hY hnalive href hview hkey
      (Or.inr (List.prefix_refl _)) hins
  generalize (Y.subscript u n key).1 = u' at hsub hinsert ⊢
  generalize (Y.subscript u n key).2 = e at hsub ⊢
  have hw' := hinsert.mono.alive w hwalive
  have hassign := hY.assign_node u' e w hsub.alive_new hw'
  have hold : ∀ m, Y.alive s m → m ≠ e := by
    rintro m hm rfl
    exact hsub.not_alive (hkept.mono.alive m hm)
  have hbefore : (Y.graph u).content ((Y.graph u).ref n) = .map es' := hview
  have hafter : (Y.graph (Y.assign u' e w)).content ((Y.graph u).ref n) =
      .map (es' ++ [(.scalar key, e)]) := by
    rw [hassign.content_eq]
    exact hsub.content_map
  have hlonger : ((Y.graph u).content ((Y.graph s).ref n)).children.length <
      ((Y.graph (Y.assign u' e w)).content ((Y.graph s).ref n)).children.length := by
    rw [← href, hbefore, hafter]
    simp [View.children]
  constructor
  · apply hinsert.assign hY hsub.alive_new hw'
    exact fun he => absurd rfl (hold e he)
  · exact hsub.mono.trans hassign.mono
  · intro m hm
    left
    rw [hassign.ref_eq m (hold m hm)]
    exact hsub.ref_eq m (hkept.mono.alive m hm)
  · intro r hr
    by_cases hrn : r = (Y.graph s).ref n
    · rw [hrn]
      exact Nat.le_of_lt hlonger
    · have hcontent := hsub.content_eq r (hkept.mono.used r hr) (by rw [href]; exact hrn)
      exact Nat.le_of_eq (by rw [hassign.content_eq, hcontent])
  · intro q' hq'
    have hchild : ¬ ∃ t w, Visit Y s b o (q ++ [i]) t w := by
      rintro ⟨t, w', h⟩
      rcases h.entry_inv hvisit hn hv with ⟨k', key', hw₁, _, hk₁, hkey₁⟩
      rw [hw, Option.some.injEq, Prod.mk.injEq] at hw₁
      rw [← hw₁.1, hk, Option.some.injEq] at hk₁
      rw [← hk₁, ht] at hkey₁
      contradiction
    constructor
    · exact fun m v hrep => absurd (Replaces.at_entry ⟨v, hrep⟩ hq') hchild
    · intro r hadd
      rcases hadd.at_entry hq' hvisit hn hv with ⟨_, hr, _⟩ | ⟨_, h⟩
      · rw [← hr]
        have hsize := (hkept.content _ (hY.used_ref s n hnalive)).size_le
        exact Nat.lt_of_le_of_lt hsize hlonger
      · exact absurd h hchild

/-- Merging one entry of the override makes the writes at its position.  Whether the base
has the entry is the same as at the start: another position would have added it. -/
theorem wrote_entry (hY : Y.Documented) (hread : ReadsNew Y s₀ s o) (hb : Y.alive s₀ b)
    (honce : Once Y concat s b o) {k i : Nat} (ih : MergeWrote Y concat s b o k)
    {q : List Nat} {n v w x : Y.Node} {es os extra : List (Key × Y.Node)} {k₀ : Key}
    {key : String} {D : List Nat → Prop} {u₁ : Y.Heap} (hvisit : Visit Y s b o q n v)
    (hn : Y.view s n = .map es) (hv : Y.view s v = .map os) (hw : os[i]? = some (k₀, w))
    (hdef : isDefined Y s w = true) (hk : Y.keyString k₀ = some key)
    (hkept : Kept Y concat s b o D u) (hq : ¬ D q) (hD : ∀ q', D q' → ¬ q ++ [i] <+: q')
    (href : (Y.graph u).ref n = (Y.graph s).ref n) (hview : Y.view u n = .map (es ++ extra))
    (hextra : ∀ e ∈ extra, ∃ q' key', D q' ∧ e.1 = .scalar key' ∧
      Inserts Y s b o q' ((Y.graph s).ref n) key') (hwalive : Y.alive s w)
    (hmerge : mergeNodes Y concat k u (findKey key (es ++ extra)) w = .returned u₁ (some x)) :
    Wrote Y concat s b o (fun q' => q ++ [i] <+: q') D u
      (Y.assign (Y.subscript u₁ n key).1 (Y.subscript u₁ n key).2 x) := by
  cases ht : findKey key es with
  | some t =>
      rw [findKey_append ht] at hmerge
      exact wrote_found hY hread hb honce ih hvisit hn hv hw hk ht
        (Visit.entry hvisit hn hv hw hdef hk ht) hkept hq hD hmerge
  | none =>
      cases ht' : findKey key (es ++ extra) with
      | some t =>
          have hins : Inserts Y s b o (q ++ [i]) ((Y.graph s).ref n) key :=
            ⟨q, i, n, v, es, os, k₀, w, rfl, hvisit, hn, hv, hw, hdef, hk, ht, rfl⟩
          rw [findKey_append_of_none ht] at ht'
          rcases hextra _ (mem_of_findKey ht') with ⟨q', key', hq', hkey', hins'⟩
          rw [← Key.scalar.inj hkey'] at hins'
          rw [honce.entry _ _ _ _ hins hins'] at hq'
          exact absurd (List.prefix_refl _) (hD _ hq')
      | none =>
          rw [ht'] at hmerge
          rcases mergeNodes_none_returned hmerge with ⟨rfl, hx⟩
          cases hx
          exact wrote_missing hY hread hb hvisit hn hv hw hdef hk ht hkept href hview ht' hwalive

/-- The loop makes the writes of the entries that are left. -/
theorem mergeEntries_wrote (hY : Y.Documented) (hread : ReadsNew Y s₀ s o) (hb : Y.alive s₀ b)
    (honce : Once Y concat s b o) {k : Nat} (ih : MergeWrote Y concat s b o k)
    {q : List Nat} {n v : Y.Node} {es os rest : List (Key × Y.Node)} {i : Nat}
    {D : List Nat → Prop} {u' : Y.Heap} {r : Option Y.Node} (hvisit : Visit Y s b o q n v)
    (hn : Y.view s n = .map es) (hv : Y.view s v = .map os) (hrest : os.drop i = rest)
    (hkept : Kept Y concat s b o D u) (hq : ¬ D q) (hD : ∀ q', D q' → ¬ FromEntry q i q')
    (hrun : mergeEntries Y (mergeNodes Y concat k) n u rest = .returned u' r) :
    Wrote Y concat s b o (FromEntry q i) D u u' ∧ r = some n := by
  induction rest generalizing i D u with
  | nil =>
      simp only [mergeEntries, Outcome.returned.injEq] at hrun
      rw [← hrun.1, ← hrun.2]
      constructor
      · apply Wrote.idle hkept
        rintro q' ⟨j, hj, hpre⟩
        apply idle_of_no_child hvisit hn hv hpre
        intro k' w hw
        have hlt := (List.getElem?_eq_some_iff.mp hw).1
        have hle := List.drop_eq_nil_iff.mp hrest
        omega
      · rfl
  | cons e rest ihrest =>
      rcases e with ⟨k₀, w⟩
      have hw : os[i]? = some (k₀, w) := by
        rw [← List.head?_drop, hrest]
        rfl
      have hrest' : os.drop (i + 1) = rest := by
        rw [← List.tail_drop, hrest]
        rfl
      have hbelow : Below Y s o w := by
        apply hvisit.below_override.child
        rw [hv]
        exact List.mem_map_of_mem (List.mem_of_getElem? hw)
      have hwview := (hkept.view_override hY hread hb hbelow).2
      have hwdef : isDefined Y u w = isDefined Y s w := by
        rw [isDefined, isDefined, hwview]
      by_cases hdef : isDefined Y s w = true
      · rw [← hwdef] at hdef
        cases hk : Y.keyString k₀ with
        | none =>
            rw [mergeEntries, if_pos hdef, hk] at hrun
            contradiction
        | some key =>
            have hnalive := (hvisit.alive hY hread hb).1
            have href := hkept.ref_visit honce hvisit hnalive hq
            have hgrown := hkept.view_grown hY hnalive href
            rw [hn] at hgrown
            rcases hgrown with ⟨extra, hview, hextra⟩
            rcases mergeEntries_cons_returned hY hview hdef hk hrun with ⟨u₁, x, hmerge, hrun'⟩
            rw [hwdef] at hdef
            have hfresh : ∀ q', D q' → ¬ q ++ [i] <+: q' :=
              fun q' hq' hpre => hD q' hq' ⟨i, Nat.le_refl i, hpre⟩
            have hentry : Wrote Y concat s b o (fun q' => q ++ [i] <+: q') D u
                (Y.assign (Y.subscript u₁ n key).1 (Y.subscript u₁ n key).2 x) :=
              wrote_entry hY hread hb honce ih hvisit hn hv hw hdef hk hkept hq hfresh href hview
                hextra (hbelow.alive hY hread) hmerge
            have hq' : ¬ (D q ∨ q ++ [i] <+: q) := by
              rintro (hq' | hpre)
              · exact hq hq'
              · exact (deeper_of_entry hpre).2 rfl
            have hlater : ∀ q', q ++ [i] <+: q' → ¬ FromEntry q (i + 1) q' := by
              rintro q' hpre ⟨j, hj, hpre'⟩
              have hij := entry_of_prefix hpre hpre'
              omega
            have hD' : ∀ q', (D q' ∨ q ++ [i] <+: q') → ¬ FromEntry q (i + 1) q' := by
              rintro q' (hq' | hpre) hfrom
              · exact hD q' hq' (fromEntry_succ.mpr (Or.inr hfrom))
              · exact hlater q' hpre hfrom
            rcases ihrest hrest' hentry.kept hq' hD' hrun' with ⟨hwrote, hr⟩
            constructor
            · exact hentry.trans hY hread hb honce hwrote (fun _ => fromEntry_succ) hlater
            · exact hr
      · -- not defined: the iteration skips the entry
        rw [mergeEntries, if_neg (by rw [hwdef]; exact hdef)] at hrun
        have hD' : ∀ q', D q' → ¬ FromEntry q (i + 1) q' :=
          fun q' hq' hfrom => hD q' hq' (fromEntry_succ.mpr (Or.inr hfrom))
        rcases ihrest hrest' hkept hq hD' hrun with ⟨hwrote, hr⟩
        constructor
        · apply hwrote.widen
          · exact fun q' hfrom => fromEntry_succ.mpr (Or.inr hfrom)
          · intro q' hfrom
            rcases fromEntry_succ.mp hfrom with hpre | hfrom
            · right
              apply idle_of_no_child hvisit hn hv hpre
              intro k' w' hw'
              rw [hw, Option.some.injEq, Prod.mk.injEq] at hw'
              rw [← hw'.2]
              exact Bool.eq_false_iff.mpr hdef
            · exact Or.inl hfrom
        · exact hr

/-! ## The merge -/

/-- Two nodes that do not combine. -/
theorem mergeNodes_not_combines {k : Nat} {n v : Y.Node} (hv : hasContent Y u v = true)
    (hcomb : ¬ Combines Y concat u n v) :
    mergeNodes Y concat (k + 1) u (some n) v = .returned u (some v) := by
  unfold Combines at hcomb
  rw [mergeNodes, if_pos hv]
  cases hn : Y.view u n <;> cases hvv : Y.view u v <;> simp_all

/-- `mergeNodes` on two sequences that are concatenated. -/
theorem mergeNodes_sequences {k : Nat} {n v : Y.Node} {xs ys : List Y.Node}
    (hn : Y.view u n = .sequence xs) (hv : Y.view u v = .sequence ys) :
    mergeNodes Y true (k + 1) u (some n) v = .returned (pushItems Y n u ys) (some n) := by
  simp [mergeNodes, hasContent, hn, hv]

/-- Whether two nodes combine does not change. -/
theorem Grown.combines_iff {D : List Nat → Prop} {r : Y.Ref} {n v : Y.Node}
    (h : Grown Y concat s b o D r (Y.view s n) (Y.view u n)) (hv : Y.view u v = Y.view s v) :
    Combines Y concat u n v ↔ Combines Y concat s n v := by
  unfold Combines
  rw [hv]
  cases hn : Y.view s n with
  | map es =>
      rw [hn] at h
      rcases h with ⟨extra, hview, _⟩
      rw [hview]
      cases Y.view s v <;> exact Iff.rfl
  | sequence xs =>
      rw [hn] at h
      rcases h with ⟨extra, hview, _⟩
      rw [hview]
      cases Y.view s v <;> exact Iff.rfl
  | _ =>
      rw [hn] at h
      rw [show Y.view u n = _ from h]

/-- Where nodes meet that are not merged in place, nothing is written below. -/
theorem idle_of_not_combines {q q' : List Nat} {n v : Y.Node} (hvisit : Visit Y s b o q n v)
    (hno : hasContent Y s v = true → ¬ Combines Y concat s n v) (hq : Deeper q q') :
    Idle Y concat s b o q' := by
  have hmaps : ¬ ∃ es os, Y.view s n = .map es ∧ Y.view s v = .map os := by
    rintro ⟨es, os, hn, hv⟩
    apply hno
    · rw [hasContent, hv]
    · rw [Combines, hn, hv]
      trivial
  constructor
  · rintro m ⟨w, hvisit', _⟩
    exact hmaps (hvisit'.maps_above hq hvisit).1
  · intro r hadd
    rcases hadd.above hq hvisit with h | ⟨xs, ys, hn, hv, _, hconcat, _⟩
    · exact hmaps h
    · apply hno
      · rw [hasContent, hv]
      · rw [Combines, hn, hv]
        exact hconcat

/-- Below two sequences that are concatenated, items are added to the base. -/
theorem wrote_pushItems (hY : Y.Documented) (hread : ReadsNew Y s₀ s o) (hb : Y.alive s₀ b)
    {q : List Nat} {n v : Y.Node} {xs xs' ys : List Y.Node} {D : List Nat → Prop}
    (hvisit : Visit Y s b o q n v) (hn : Y.view s n = .sequence xs)
    (hv : Y.view s v = .sequence ys) (hkept : Kept Y true s b o D u)
    (href : (Y.graph u).ref n = (Y.graph s).ref n) (hview : Y.view u n = .sequence xs') :
    Wrote Y true s b o (Deeper q) D u (pushItems Y n u ys) := by
  have hnalive := (hvisit.alive hY hread hb).1
  have hys : ∀ y ∈ ys, Y.alive u y := by
    intro y hy
    apply hkept.mono.alive
    apply Below.alive hY hread
    apply hvisit.below_override.child
    rw [hv]
    exact hy
  rcases hkept.push hY hnalive href hview hys
    (fun hne => ⟨q ++ [0], q, n, v, xs, ys, rfl, hvisit, hn, hv, hne, rfl, rfl⟩) with
    ⟨hpush, hrefs⟩
  rcases pushItems_spec hY hview (hkept.mono.alive n hnalive) hys with
    ⟨hmono, _, hseq, hcontent⟩
  have hbefore : (Y.graph u).content ((Y.graph u).ref n) = .sequence xs' := hview
  constructor
  · exact hpush.weaken (fun _ => Or.inl)
  · exact hmono
  · exact fun m _ => Or.inl (hrefs m)
  · intro r _
    by_cases hrn : r = (Y.graph u).ref n
    · rw [hrn, hseq, hbefore]
      simp [View.children]
    · exact Nat.le_of_eq (by rw [hcontent r hrn])
  · intro q' hq'
    constructor
    · rintro m w ⟨hvisit', _⟩
      rcases (hvisit'.maps_above hq' hvisit).1 with ⟨es, os, hn', _⟩
      rw [hn] at hn'
      contradiction
    · intro r hadd
      rcases hadd.above hq' hvisit with ⟨es, os, hn', _⟩ | ⟨_, ys', _, hv', hne, _, hr⟩
      · rw [hn] at hn'
        contradiction
      · rw [hv, View.sequence.injEq] at hv'
        subst hv'
        have hsize := (hkept.content _ (hY.used_ref s n hnalive)).size_le
        rw [← hr, ← href, hseq]
        rw [← href, hbefore] at hsize
        apply Nat.lt_of_le_of_lt hsize
        rw [View.children, View.children, List.length_append]
        exact Nat.lt_add_of_pos_right (List.length_pos_iff.mpr hne)

/-- A merge makes the writes below its position, and returns the override where the
base is to be replaced. -/
theorem mergeNodes_wrote (hY : Y.Documented) (hread : ReadsNew Y s₀ s o) (hb : Y.alive s₀ b)
    (honce : Once Y concat s b o) (k : Nat) : MergeWrote Y concat s b o k := by
  induction k with
  | zero =>
      intro q n v D u u' r hvisit hkept hD hrun
      contradiction
  | succ k ih =>
      intro q n v D u u' r hvisit hkept hD hrun
      have hq : ¬ D q := fun hq => hD q hq (List.prefix_refl q)
      have hnalive := (hvisit.alive hY hread hb).1
      have href := hkept.ref_visit honce hvisit hnalive hq
      have hgrown := hkept.view_grown hY hnalive href
      have hvview := (hkept.view_override hY hread hb hvisit.below_override).2
      have hvcontent : hasContent Y u v = hasContent Y s v := by
        rw [hasContent, hasContent, hvview]
      by_cases hcontent : hasContent Y s v = true
      · by_cases hcomb : Combines Y concat s n v
        · have hcases := hcomb
          unfold Combines at hcases
          split at hcases
          · rename_i es os hn hv
            rw [hn] at hgrown
            rcases hgrown with ⟨extra, hview, _⟩
            rw [mergeNodes_maps hview (hvview.trans hv)] at hrun
            have hfresh : ∀ q', D q' → ¬ FromEntry q 0 q' :=
              fun q' hq' hfrom => hD q' hq' (deeper_iff.mpr hfrom).1
            rcases mergeEntries_wrote hY hread hb honce ih hvisit hn hv List.drop_zero hkept hq
              hfresh hrun with ⟨hwrote, hr⟩
            constructor
            · apply hwrote.widen
              · exact fun _ => deeper_iff.mpr
              · exact fun q' hdeep => Or.inl (deeper_iff.mp hdeep)
            · exact Or.inl ⟨hr, fun _ => hcomb⟩
          · rename_i xs ys hn hv
            subst hcases
            rw [hn] at hgrown
            rcases hgrown with ⟨extra, hview, _⟩
            rw [mergeNodes_sequences hview (hvview.trans hv)] at hrun
            simp only [Outcome.returned.injEq] at hrun
            rw [← hrun.1, ← hrun.2]
            constructor
            · exact wrote_pushItems hY hread hb hvisit hn hv hkept href hview
            · exact Or.inl ⟨rfl, fun _ => hcomb⟩
          · exact hcases.elim
        · rw [mergeNodes_not_combines (hvcontent.trans hcontent)
            (mt (hgrown.combines_iff hvview).mp hcomb)] at hrun
          simp only [Outcome.returned.injEq] at hrun
          rw [← hrun.1, ← hrun.2]
          constructor
          · apply Wrote.idle hkept
            exact fun q' => idle_of_not_combines hvisit (fun _ => hcomb)
          · exact Or.inr ⟨rfl, hcontent, hcomb⟩
      · rw [mergeNodes, hvcontent, if_neg hcontent] at hrun
        simp only [Outcome.returned.injEq] at hrun
        rw [← hrun.1, ← hrun.2]
        constructor
        · apply Wrote.idle hkept
          exact fun q' => idle_of_not_combines hvisit (fun h => absurd h hcontent)
        · exact Or.inl ⟨rfl, fun h => absurd h hcontent⟩

end Conf
end Utils
end DtCore
