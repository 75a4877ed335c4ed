import DtCore.Utils.Conf.Visits

/-!
# What a merge keeps

While a merge runs, the nodes that it has not replaced refer to what they referred to
before, and data has at most got entries and items at its end.

Main definitions:

- `Kept`: only the writes at some positions were made.

Main results:

- Theorems `Kept.assign`, `Kept.insert`, `Kept.push`: the writes of a merge.
- Theorem `Kept.lookup_eq`: the paths that still lead to their nodes.
-/

namespace DtCore
namespace Utils
namespace Conf

section Positions

variable (Y : YamlCpp) (concat : Bool) (s : Y.Heap) (b o : Y.Node)

/-! ## What a merge keeps -/

/-- The content of data before and after the writes at some positions. -/
def Grown (D : List Nat → Prop) (r : Y.Ref) : View Y.Node → View Y.Node → Prop
  | .map es, v => ∃ extra, v = .map (es ++ extra) ∧
      ∀ e ∈ extra, ∃ q key, D q ∧ e.1 = .scalar key ∧ Inserts Y s b o q r key
  | .sequence xs, v => ∃ extra, v = .sequence (xs ++ extra) ∧
      (extra ≠ [] → ∃ q, Pushes Y concat s b o q r)
  | w, v => v = w

/-- Only the writes at some positions were made. -/
structure Kept (D : List Nat → Prop) (u : Y.Heap) : Prop where
  mono : Y.Extends s u
  ref : ∀ n, Y.alive s n → (Y.graph u).ref n = (Y.graph s).ref n ∨
    ∃ q, D q ∧ Replaces Y concat s b o q n
  content : ∀ r, Y.used s r →
    Grown Y concat s b o D r ((Y.graph s).content r) ((Y.graph u).content r)

end Positions

variable {Y : YamlCpp} {concat : Bool} {s₀ s u : Y.Heap} {b o : Y.Node}

/-! ## What is kept -/

theorem Grown.refl (D : List Nat → Prop) (r : Y.Ref) (v : View Y.Node) :
    Grown Y concat s b o D r v v := by
  cases v with
  | map es => exact ⟨[], by simp, by simp⟩
  | sequence xs => exact ⟨[], by simp, by simp⟩
  | _ => rfl

theorem Grown.weaken {D D' : List Nat → Prop} {r : Y.Ref} {v w : View Y.Node}
    (h : Grown Y concat s b o D r v w) (hD : ∀ q, D q → D' q) :
    Grown Y concat s b o D' r v w := by
  cases v with
  | map es =>
      rcases h with ⟨extra, hw, hextra⟩
      apply Exists.intro extra
      constructor
      · exact hw
      · intro e he
        rcases hextra e he with ⟨q, key, hq, hkey, hins⟩
        exact ⟨q, key, hD q hq, hkey, hins⟩
  | _ => exact h

theorem Grown.size_le {D : List Nat → Prop} {r : Y.Ref} {v w : View Y.Node}
    (h : Grown Y concat s b o D r v w) : v.children.length ≤ w.children.length := by
  cases v with
  | map es =>
      rcases h with ⟨extra, rfl, _⟩
      simp [View.children]
  | sequence xs =>
      rcases h with ⟨extra, rfl, _⟩
      simp [View.children]
  | _ => exact Nat.zero_le _

/-- Data that nothing is added to. -/
theorem Grown.eq {D : List Nat → Prop} {r : Y.Ref} {v w : View Y.Node}
    (h : Grown Y concat s b o D r v w) (hnot : ∀ q, ¬ Adds Y concat s b o q r) : w = v := by
  cases v with
  | map es =>
      rcases h with ⟨extra, hw, hextra⟩
      cases extra with
      | nil => rw [hw, List.append_nil]
      | cons e extra =>
          rcases hextra e List.mem_cons_self with ⟨q, key, _, _, h⟩
          exact absurd (Or.inl ⟨key, h⟩) (hnot q)
  | sequence xs =>
      rcases h with ⟨extra, hw, hextra⟩
      cases extra with
      | nil => rw [hw, List.append_nil]
      | cons e extra =>
          rcases hextra (List.cons_ne_nil _ _) with ⟨q, hpush⟩
          exact absurd (Or.inr hpush) (hnot q)
  | _ => exact h

/-- Only a map grows into a map. -/
theorem Grown.of_map {D : List Nat → Prop} {r : Y.Ref} {v : View Y.Node}
    {es : List (Key × Y.Node)} (h : Grown Y concat s b o D r v (.map es)) :
    ∃ es₀ extra, v = .map es₀ ∧ es = es₀ ++ extra ∧
      ∀ e ∈ extra, ∃ q key, D q ∧ e.1 = .scalar key ∧ Inserts Y s b o q r key := by
  cases v with
  | map es₀ =>
      rcases h with ⟨extra, hes, hextra⟩
      exact ⟨es₀, extra, rfl, View.map.inj hes, hextra⟩
  | sequence xs =>
      rcases h with ⟨extra, hes, _⟩
      contradiction
  | _ => contradiction

/-- Only a sequence grows into a sequence. -/
theorem Grown.of_sequence {D : List Nat → Prop} {r : Y.Ref} {v : View Y.Node}
    {xs : List Y.Node} (h : Grown Y concat s b o D r v (.sequence xs)) :
    ∃ xs₀ extra, v = .sequence xs₀ ∧ xs = xs₀ ++ extra ∧
      (extra ≠ [] → ∃ q, Pushes Y concat s b o q r) := by
  cases v with
  | sequence xs₀ =>
      rcases h with ⟨extra, hxs, hextra⟩
      exact ⟨xs₀, extra, rfl, View.sequence.inj hxs, hextra⟩
  | map es =>
      rcases h with ⟨extra, hes, _⟩
      contradiction
  | _ => contradiction

theorem Kept.refl (D : List Nat → Prop) : Kept Y concat s b o D s where
  mono := YamlCpp.Extends.refl s
  ref := fun _ _ => Or.inl rfl
  content := fun _ _ => Grown.refl _ _ _

theorem Kept.weaken {D D' : List Nat → Prop} (h : Kept Y concat s b o D u)
    (hD : ∀ q, D q → D' q) : Kept Y concat s b o D' u where
  mono := h.mono
  ref := by
    intro n hn
    rcases h.ref n hn with href | ⟨q, hq, hrep⟩
    · exact Or.inl href
    · exact Or.inr ⟨q, hD q hq, hrep⟩
  content := fun r hr => (h.content r hr).weaken hD

/-- The override keeps its nodes and data. -/
theorem Kept.view_override (hY : Y.Documented) (hread : ReadsNew Y s₀ s o) (hb : Y.alive s₀ b)
    {D : List Nat → Prop} (h : Kept Y concat s b o D u) {v : Y.Node} (hv : Below Y s o v) :
    (Y.graph u).ref v = (Y.graph s).ref v ∧ Y.view u v = Y.view s v := by
  have halive := hv.alive hY hread
  have href : (Y.graph u).ref v = (Y.graph s).ref v := by
    rcases h.ref v halive with href | ⟨q, _, hrep⟩
    · exact href
    · exact absurd (hread.used hY (hrep.alive_base hY hread hb)) (hv.not_used hread)
  constructor
  · exact href
  · rw [YamlCpp.view, YamlCpp.view, Graph.view, Graph.view, href]
    apply (h.content _ (hY.used_ref s v halive)).eq
    intro q hadd
    exact hv.not_used hread (hadd.used hY hread hb)

/-- A position that was not written at yet still has its node. -/
theorem Kept.ref_visit (honce : Once Y concat s b o) {D : List Nat → Prop}
    (h : Kept Y concat s b o D u) {q : List Nat} {n v : Y.Node} (hvisit : Visit Y s b o q n v)
    (hn : Y.alive s n) (hD : ¬ D q) : (Y.graph u).ref n = (Y.graph s).ref n := by
  rcases h.ref n hn with href | ⟨q', hq', hrep⟩
  · exact href
  · rw [honce.node q' q n v hrep hvisit] at hD
    exact absurd hq' hD

/-- The data of a node that was not replaced has only grown. -/
theorem Kept.view_grown (hY : Y.Documented) {D : List Nat → Prop}
    (h : Kept Y concat s b o D u) {n : Y.Node} (hn : Y.alive s n)
    (href : (Y.graph u).ref n = (Y.graph s).ref n) :
    Grown Y concat s b o D ((Y.graph s).ref n) (Y.view s n) (Y.view u n) := by
  have hgrown := h.content _ (hY.used_ref s n hn)
  have hview : Y.view u n = (Y.graph u).content ((Y.graph s).ref n) := by
    rw [← href]
    rfl
  rw [hview]
  exact hgrown

/-! ## Writes -/

/-- An assignment that changes nothing, that is to a new entry, or that replaces. -/
theorem Kept.assign (hY : Y.Documented) {D : List Nat → Prop} (h : Kept Y concat s b o D u)
    {t r : Y.Node} (ht : Y.alive u t) (hr : Y.alive u r)
    (hwrite : Y.alive s t → (Y.graph u).ref r = (Y.graph u).ref t ∨
      ∃ q, D q ∧ Replaces Y concat s b o q t) :
    Kept Y concat s b o D (Y.assign u t r) := by
  have hassign := hY.assign_node u t r ht hr
  constructor
  · exact h.mono.trans hassign.mono
  · intro n hn
    by_cases hnt : n = t
    · subst hnt
      rcases hwrite hn with hsame | hrep
      · rw [hassign.ref_self, hsame]
        exact h.ref n hn
      · exact Or.inr hrep
    · rw [hassign.ref_eq n hnt]
      exact h.ref n hn
  · intro r' hr'
    rw [hassign.content_eq]
    exact h.content r' hr'

/-- Nodes that existed keep what they refer to, unless they are assigned to. -/
theorem assign_ref (hY : Y.Documented) {t r n : Y.Node} (ht : Y.alive u t) (hr : Y.alive u r)
    (hn : n = t → (Y.graph u).ref r = (Y.graph u).ref t) :
    (Y.graph (Y.assign u t r)).ref n = (Y.graph u).ref n := by
  have hassign := hY.assign_node u t r ht hr
  by_cases hnt : n = t
  · rw [hnt, hassign.ref_self, hn hnt]
  · exact hassign.ref_eq n hnt

/-- A new entry of a map of the base. -/
theorem Kept.insert (hY : Y.Documented) {D : List Nat → Prop} (h : Kept Y concat s b o D u)
    {n : Y.Node} {es : List (Key × Y.Node)} {key : String} {q : List Nat}
    (hn : Y.alive s n) (href : (Y.graph u).ref n = (Y.graph s).ref n)
    (hview : Y.view u n = .map es) (hkey : findKey key es = none) (hq : D q)
    (hins : Inserts Y s b o q ((Y.graph s).ref n) key) :
    Kept Y concat s b o D (Y.subscript u n key).1 := by
  have hsub := hY.subscript_missing u n es key (h.mono.alive n hn) hview hkey
  constructor
  · exact h.mono.trans hsub.mono
  · intro m hm
    rw [hsub.ref_eq m (h.mono.alive m hm)]
    exact h.ref m hm
  · intro r hr
    by_cases hrn : r = (Y.graph s).ref n
    · subst hrn
      have hgrown := h.view_grown hY hn href
      rw [← href, hsub.content_map, href]
      have hnview : Y.view s n = (Y.graph s).content ((Y.graph s).ref n) := rfl
      rw [← hnview]
      rw [hview] at hgrown
      rcases hgrown.of_map with ⟨es₀, extra, hv, hes, hextra⟩
      rw [hv, hes]
      apply Exists.intro (extra ++ [(.scalar key, (Y.subscript u n key).2)])
      constructor
      · rw [List.append_assoc]
      · intro e he
        rcases List.mem_append.mp he with he | he
        · exact hextra e he
        · rw [List.mem_singleton.mp he]
          exact ⟨q, key, hq, rfl, hins⟩
    · rw [hsub.content_eq r (h.mono.used r hr) (by rw [href]; exact hrn)]
      exact h.content r hr

/-- Items at the end of a sequence of the base. -/
theorem Kept.push (hY : Y.Documented) {D : List Nat → Prop} (h : Kept Y concat s b o D u)
    {n : Y.Node} {xs ys : List Y.Node} (hn : Y.alive s n)
    (href : (Y.graph u).ref n = (Y.graph s).ref n) (hview : Y.view u n = .sequence xs)
    (hys : ∀ y ∈ ys, Y.alive u y)
    (hpush : ys ≠ [] → ∃ q, Pushes Y concat s b o q ((Y.graph s).ref n)) :
    Kept Y concat s b o D (pushItems Y n u ys) ∧
      ∀ m, (Y.graph (pushItems Y n u ys)).ref m = (Y.graph u).ref m := by
  rcases pushItems_spec hY hview (h.mono.alive n hn) hys with ⟨hmono, hrefs, hseq, hcontent⟩
  generalize pushItems Y n u ys = u' at hmono hrefs hseq hcontent
  constructor
  · constructor
    · exact h.mono.trans hmono
    · intro m hm
      rw [hrefs]
      exact h.ref m hm
    · intro r hr
      by_cases hrn : r = (Y.graph s).ref n
      · subst hrn
        have hgrown := h.view_grown hY hn href
        rw [← href, hseq, href]
        have hnview : Y.view s n = (Y.graph s).content ((Y.graph s).ref n) := rfl
        rw [← hnview]
        rw [hview] at hgrown
        rcases hgrown.of_sequence with ⟨xs₀, extra, hv, hxs, hextra⟩
        rw [hv, hxs]
        apply Exists.intro (extra ++ ys)
        constructor
        · rw [List.append_assoc]
        · intro hne
          cases ys with
          | nil =>
              rw [List.append_nil] at hne
              exact hextra hne
          | cons y ys => exact hpush (List.cons_ne_nil _ _)
      · rw [hcontent r (by rw [href]; exact hrn)]
        exact h.content r hr
  · exact hrefs

/-! ## Paths -/

theorem findKey_append {α : Type} {key : String} {a : α} {es : List (Key × α)}
    (h : findKey key es = some a) (extra : List (Key × α)) :
    findKey key (es ++ extra) = some a := by
  rcases findKey_split h with ⟨pre, post, rfl, hpre⟩
  rw [List.append_assoc, List.cons_append]
  exact findKey_of_split hpre

/-- A path leads through an entry of a map. -/
theorem lookup_cons (hY : Y.Documented) {n m : Y.Node} {key : String} {path : List String} :
    lookup Y s n (key :: path) = some m ↔
      ∃ es t, Y.view s n = .map es ∧ findKey key es = some t ∧ lookup Y s t path = some m := by
  rw [lookup]
  cases hv : Y.view s n with
  | map es =>
      dsimp only
      rw [hY.get_map s n es key hv, Option.bind_eq_some_iff]
      constructor
      · rintro ⟨t, ht, hm⟩
        exact ⟨es, t, rfl, ht, hm⟩
      · rintro ⟨es', t, hes, ht, hm⟩
        rw [View.map.inj hes]
        exact ⟨t, ht, hm⟩
  | _ =>
      constructor
      · intro hm
        contradiction
      · rintro ⟨es, t, hes, _⟩
        contradiction

/-- A path that passes through no node that was replaced still leads to its node. -/
theorem Kept.lookup_eq (hY : Y.Documented) {D : List Nat → Prop} (h : Kept Y concat s b o D u)
    {n m : Y.Node} {path : List String} (hn : Y.alive s n) (hm : lookup Y s n path = some m)
    (hpath : ∀ p c, p <+: path → p ≠ path → lookup Y s n p = some c →
      ∀ q, ¬ Replaces Y concat s b o q c) :
    lookup Y u n path = some m := by
  induction path generalizing n with
  | nil => exact hm
  | cons key path ih =>
      have href : (Y.graph u).ref n = (Y.graph s).ref n := by
        rcases h.ref n hn with href | ⟨q, _, hrep⟩
        · exact href
        · exact absurd hrep (hpath [] n List.nil_prefix (List.cons_ne_nil _ _).symm rfl q)
      have hgrown := h.view_grown hY hn href
      rcases (lookup_cons hY).mp hm with ⟨es, t, hv, ht, hm⟩
      rw [hv] at hgrown
      rcases hgrown with ⟨extra, hes, _⟩
      apply (lookup_cons hY).mpr
      apply Exists.intro _
      apply Exists.intro t
      constructor
      · exact hes
      · constructor
        · exact findKey_append ht extra
        · apply ih (entries_alive hY hn hv _ (mem_of_findKey ht)) hm
          intro p c hp hne hc
          apply hpath (key :: p) c (List.cons_prefix_cons.mpr ⟨rfl, hp⟩)
          · exact fun heq => hne (List.cons.inj heq).2
          · exact (lookup_cons hY).mpr ⟨es, t, hv, ht, hc⟩

/-- Nodes that hold nothing that changes. -/
theorem Kept.agree (hY : Y.Documented) {D : List Nat → Prop} (h : Kept Y concat s b o D u)
    {l : List Y.Node} (hl : ∀ c ∈ l, Y.alive s c ∧ ∀ q, ¬ Replaces Y concat s b o q c ∧
      ¬ Adds Y concat s b o q ((Y.graph s).ref c)) :
    Graph.Agree (Y.graph s) (Y.graph u) l := by
  intro c hc
  rcases hl c hc with ⟨halive, hnot⟩
  constructor
  · rcases h.ref c halive with href | ⟨q, _, hrep⟩
    · exact href
    · exact absurd hrep (hnot q).1
  · apply (h.content _ (hY.used_ref s c halive)).eq
    exact fun q => (hnot q).2

theorem lookup_alive (hY : Y.Documented) {n m : Y.Node} {path : List String}
    (hn : Y.alive s n) (hm : lookup Y s n path = some m) : Y.alive s m := by
  induction path generalizing n with
  | nil =>
      rw [← Option.some.inj hm]
      exact hn
  | cons key path ih =>
      rcases (lookup_cons hY).mp hm with ⟨es, t, hv, ht, hm⟩
      exact ih (entries_alive hY hn hv _ (mem_of_findKey ht)) hm

end Conf
end Utils
end DtCore
