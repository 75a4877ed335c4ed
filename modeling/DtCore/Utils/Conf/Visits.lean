import DtCore.Utils.Conf.Atomic

/-!
# Where a merge writes

`mergeNodes` walks over the override and the base side by side and writes into the base:
it makes nodes of the base refer to the data of the override, adds entries to maps and
items to sequences.  Where it writes is determined by the two graphs of nodes before the
merge, as long as it does not meet again what it has written to.

Positions are the lists of indices of the entries of the override that lead to a node.

Main definitions:

- `Visit`: the override and the base meet at a position.
- `Replaces`, `Adds`: what the merge writes at a position.
- `Mentions`: the override decides about a path of keys.
- `Once`: the override writes to no node and to no key twice.
- `Apart`: the merge changes no document at a path that is not mentioned.

Main results:

- Theorem `Visit.unique`: at most two nodes meet at a position.
- Theorems `Replaces.at_entry`, `Adds.at_entry`: what is written at an entry of two maps.
-/

namespace DtCore
namespace Utils
namespace Conf

section Positions

variable (Y : YamlCpp) (concat : Bool) (s : Y.Heap) (b o : Y.Node)

/-! ## Positions -/

/-- The node of the base and the node of the override that meet at a position. -/
inductive Visit : List Nat → Y.Node → Y.Node → Prop where
  | root : Visit [] b o
  | entry {q : List Nat} {n v t w : Y.Node} {es os : List (Key × Y.Node)} {i : Nat} {k : Key}
      {key : String} : Visit q n v → Y.view s n = .map es → Y.view s v = .map os →
      os[i]? = some (k, w) → isDefined Y s w = true → Y.keyString k = some key →
      findKey key es = some t → Visit (q ++ [i]) t w

/-- Two maps are merged in place, and two sequences when they are concatenated. -/
def Combines (n v : Y.Node) : Prop :=
  match Y.view s n, Y.view s v with
  | .map _, .map _ => True
  | .sequence _, .sequence _ => concat = true
  | _, _ => False

/-- The node `n` of the base will refer to the data of the node `v` of the override. -/
def ReplacedBy (q : List Nat) (n v : Y.Node) : Prop :=
  Visit Y s b o q n v ∧ hasContent Y s v = true ∧ ¬ Combines Y concat s n v

def Replaces (q : List Nat) (n : Y.Node) : Prop :=
  ∃ v, ReplacedBy Y concat s b o q n v

/-- The map with data `r` will get an entry at a key. -/
def Inserts (q : List Nat) (r : Y.Ref) (key : String) : Prop :=
  ∃ q₀ i n v es os k w, q = q₀ ++ [i] ∧ Visit Y s b o q₀ n v ∧ Y.view s n = .map es ∧
    Y.view s v = .map os ∧ os[i]? = some (k, w) ∧ isDefined Y s w = true ∧
      Y.keyString k = some key ∧ findKey key es = none ∧ (Y.graph s).ref n = r

/-- The sequence with data `r` will get items, from the one at position `q` on. -/
def Pushes (q : List Nat) (r : Y.Ref) : Prop :=
  ∃ q₀ n v xs ys, q = q₀ ++ [0] ∧ Visit Y s b o q₀ n v ∧ Y.view s n = .sequence xs ∧
    Y.view s v = .sequence ys ∧ ys ≠ [] ∧ concat = true ∧ (Y.graph s).ref n = r

/-- The data `r` will get entries or items. -/
def Adds (q : List Nat) (r : Y.Ref) : Prop :=
  (∃ key, Inserts Y s b o q r key) ∨ Pushes Y concat s b o q r

/-- The override has a value at a path, or something other than a map before its end. -/
def Mentions : List String → Y.Node → Prop
  | [], n => isDefined Y s n = true
  | key :: path, n =>
      match Y.view s n with
      | .undefined => False
      | .map es => ∃ e ∈ es, Y.keyString e.1 = some key ∧ Mentions path e.2
      | _ => True

/-- No two positions meet at a node that is replaced or at a key that is added. -/
structure Once : Prop where
  node : ∀ q q' n v, Replaces Y concat s b o q n → Visit Y s b o q' n v → q' = q
  entry : ∀ q q' r key, Inserts Y s b o q r key → Inserts Y s b o q' r key → q' = q

/-- Down to a depth the document of a node will be the same: below nodes that are not
replaced nothing is added, and those that are replaced get the document that they have. -/
def Unchanged : Nat → Y.Node → Prop
  | 0, _ => True
  | k + 1, n =>
      (∀ q v, ReplacedBy Y concat s b o q n v →
        ∃ d, (Y.graph s).Denotes (k + 1) n d ∧ (Y.graph s).Denotes (k + 1) v d) ∧
      ((∀ q, ¬ Replaces Y concat s b o q n) → (∀ q, ¬ Adds Y concat s b o q ((Y.graph s).ref n)) ∧
        ∀ c ∈ (Y.view s n).children, Unchanged k c)

/-- A path of the base that the override does not mention passes through no node that is
replaced, and leads to a node whose document will be the same. -/
structure Apart : Prop where
  passes : ∀ path d p n, ¬ Mentions Y s path o → Gives Y { heap := s, rootNode := b } path d →
    p <+: path → p ≠ path → lookup Y s b p = some n → ∀ q, ¬ Replaces Y concat s b o q n
  holds : ∀ path n k d, ¬ Mentions Y s path o → lookup Y s b path = some n →
    (Y.graph s).Denotes k n d → Unchanged Y concat s b o k n

end Positions

/-- The override was read into new nodes, which refer to new data. -/
structure ReadsNew (Y : YamlCpp) (s s' : Y.Heap) (o : Y.Node) : Prop extends Reads Y s s' o where
  fresh : ∀ k, ∀ c ∈ (Y.graph s').cells k o, ¬ Y.used s ((Y.graph s').ref c)

variable {Y : YamlCpp} {concat : Bool} {s₀ s u : Y.Heap} {b o : Y.Node}

/-! ## The nodes at a position -/

/-- What existed before the override was read looks the same behind it. -/
theorem ReadsNew.view_eq (hY : Y.Documented) (hread : ReadsNew Y s₀ s o) {n : Y.Node}
    (hn : Y.alive s₀ n) : Y.view s n = Y.view s₀ n := by
  rw [YamlCpp.view, YamlCpp.view, Graph.view, Graph.view, hread.ref_eq n hn,
    hread.content_eq _ (hY.used_ref _ _ hn)]

theorem ReadsNew.used (hY : Y.Documented) (hread : ReadsNew Y s₀ s o) {n : Y.Node}
    (hn : Y.alive s₀ n) : Y.used s₀ ((Y.graph s).ref n) := by
  rw [hread.ref_eq n hn]
  exact hY.used_ref _ _ hn

theorem ReadsNew.cells_alive (hY : Y.Documented) (hread : ReadsNew Y s₀ s o) {n : Y.Node}
    (hn : Y.alive s₀ n) (k : Nat) : ∀ c ∈ (Y.graph s).cells k n, Y.alive s₀ c := by
  have hagree : Graph.Agree (Y.graph s₀) (Y.graph s) ((Y.graph s₀).cells k n) := by
    intro c hc
    have hc' := Conf.cells_alive hY hn k c hc
    exact ⟨hread.ref_eq c hc', hread.content_eq _ (hY.used_ref s₀ c hc')⟩
  rw [Graph.cells_congr hagree]
  exact Conf.cells_alive hY hn k

/-- The base side of a position belongs to the base. -/
theorem Visit.alive_base (hY : Y.Documented) (hread : ReadsNew Y s₀ s o) (hb : Y.alive s₀ b)
    {q : List Nat} {n v : Y.Node} (h : Visit Y s b o q n v) : Y.alive s₀ n := by
  induction h with
  | root => exact hb
  | @entry q n v t w es os i k key hvisit hn hv hw hdef hk hkey ih =>
      have hview : Y.view s₀ n = .map es := by
        rw [← hread.view_eq hY ih]
        exact hn
      exact entries_alive hY ih hview _ (mem_of_findKey hkey)

/-- A node at or below another one. -/
def Below (Y : YamlCpp) (s : Y.Heap) (o c : Y.Node) : Prop :=
  ∃ k, c ∈ (Y.graph s).cells k o

theorem Below.trans {c m : Y.Node} (h : Below Y s o c) (hm : Below Y s c m) : Below Y s o m := by
  rcases h with ⟨k, hc⟩
  induction k generalizing o with
  | zero =>
      rw [Graph.cells, Graph.below, List.mem_singleton] at hc
      rw [← hc]
      exact hm
  | succ k ih =>
      rcases List.mem_cons.mp hc with rfl | hc
      · exact hm
      · rw [Graph.below, List.mem_flatMap] at hc
        rcases hc with ⟨d, hd, hc⟩
        rcases ih hc with ⟨j, hj⟩
        exact ⟨j + 1, Graph.cells_child hd m hj⟩

theorem Below.child {c m : Y.Node} (h : Below Y s o c) (hm : m ∈ (Y.view s c).children) :
    Below Y s o m :=
  h.trans ⟨1, Graph.cells_child hm m (Graph.self_mem_cells _ _ _)⟩

/-- The override side of a position belongs to the override. -/
theorem Visit.below_override {q : List Nat} {n v : Y.Node} (h : Visit Y s b o q n v) :
    Below Y s o v := by
  induction h with
  | root => exact ⟨0, Graph.self_mem_cells _ _ _⟩
  | @entry q n v t w es os i k key hvisit hn hv hw hdef hk hkey ih =>
      apply ih.child
      rw [hv]
      exact List.mem_map_of_mem (List.mem_of_getElem? hw)

theorem Below.alive (hY : Y.Documented) (hread : ReadsNew Y s₀ s o) {c : Y.Node}
    (h : Below Y s o c) : Y.alive s c := by
  rcases h with ⟨k, hc⟩
  exact cells_alive hY hread.alive_new k c hc

/-- The override shares no data with the base. -/
theorem Below.not_used (hread : ReadsNew Y s₀ s o) {c : Y.Node} (h : Below Y s o c) :
    ¬ Y.used s₀ ((Y.graph s).ref c) := by
  rcases h with ⟨k, hc⟩
  exact hread.fresh k c hc

theorem Inserts.used (hY : Y.Documented) (hread : ReadsNew Y s₀ s o) (hb : Y.alive s₀ b)
    {q : List Nat} {r : Y.Ref} {key : String} (h : Inserts Y s b o q r key) : Y.used s₀ r := by
  rcases h with ⟨q₀, i, n, v, es, os, k, w, hq, hvisit, hn, hv, hw, hdef, hk, hkey, href⟩
  rw [← href]
  exact hread.used hY (hvisit.alive_base hY hread hb)

theorem Pushes.used (hY : Y.Documented) (hread : ReadsNew Y s₀ s o) (hb : Y.alive s₀ b)
    {q : List Nat} {r : Y.Ref} (h : Pushes Y concat s b o q r) : Y.used s₀ r := by
  rcases h with ⟨q₀, n, v, xs, ys, hq, hvisit, hn, hv, hys, hc, href⟩
  rw [← href]
  exact hread.used hY (hvisit.alive_base hY hread hb)

theorem Replaces.alive_base (hY : Y.Documented) (hread : ReadsNew Y s₀ s o)
    (hb : Y.alive s₀ b) {q : List Nat} {n : Y.Node} (h : Replaces Y concat s b o q n) :
    Y.alive s₀ n := by
  rcases h with ⟨v, hvisit, hv, hcomb⟩
  exact hvisit.alive_base hY hread hb

/-! ## Positions below a position -/

theorem visit_nil {n v : Y.Node} (h : Visit Y s b o [] n v) : n = b ∧ v = o := by
  generalize hq : ([] : List Nat) = q at h
  cases h with
  | root => exact ⟨rfl, rfl⟩
  | entry => simp at hq

/-- The two maps above a position. -/
theorem visit_concat {q : List Nat} {i : Nat} {t w : Y.Node} (h : Visit Y s b o (q ++ [i]) t w) :
    ∃ n v es os k key, Visit Y s b o q n v ∧ Y.view s n = .map es ∧ Y.view s v = .map os ∧
      os[i]? = some (k, w) ∧ isDefined Y s w = true ∧ Y.keyString k = some key ∧
        findKey key es = some t := by
  generalize hq : q ++ [i] = q' at h
  cases h with
  | root => simp at hq
  | @entry q₁ n v t w es os j k key hvisit hn hv hw hdef hk hkey =>
      rcases List.append_inj' hq rfl with ⟨rfl, hij⟩
      rw [← List.singleton_inj.mp hij] at hw
      exact ⟨n, v, es, os, k, key, hvisit, hn, hv, hw, hdef, hk, hkey⟩

/-- Two nodes meet at a position at most. -/
theorem Visit.unique {q : List Nat} {n n' v v' : Y.Node} (h : Visit Y s b o q n v)
    (h' : Visit Y s b o q n' v') : n' = n ∧ v' = v := by
  induction h generalizing n' v' with
  | root => exact visit_nil h'
  | @entry q n v t w es os i k key hvisit hn hv hw hdef hk hkey ih =>
      rcases visit_concat h' with
        ⟨n₁, v₁, es₁, os₁, k₁, key₁, hvisit₁, hn₁, hv₁, hw₁, hdef₁, hk₁, hkey₁⟩
      rcases ih hvisit₁ with ⟨rfl, rfl⟩
      rw [hn, View.map.injEq] at hn₁
      rw [hv, View.map.injEq] at hv₁
      subst hn₁ hv₁
      rw [hw, Option.some.injEq, Prod.mk.injEq] at hw₁
      rcases hw₁ with ⟨rfl, rfl⟩
      rw [hk, Option.some.injEq] at hk₁
      subst hk₁
      rw [hkey, Option.some.injEq] at hkey₁
      exact ⟨hkey₁.symm, rfl⟩

/-- Proper extensions of a position. -/
def Deeper (q q' : List Nat) : Prop :=
  q <+: q' ∧ q' ≠ q

/-- Positions at or below an entry from the `i`-th on. -/
def FromEntry (q : List Nat) (i : Nat) (q' : List Nat) : Prop :=
  ∃ j, i ≤ j ∧ q ++ [j] <+: q'

theorem deeper_iff {q q' : List Nat} : Deeper q q' ↔ FromEntry q 0 q' := by
  constructor
  · rintro ⟨⟨rest, rfl⟩, hne⟩
    cases rest with
    | nil =>
        rw [List.append_nil] at hne
        contradiction
    | cons j rest =>
        apply Exists.intro j
        constructor
        · exact Nat.zero_le j
        · exact ⟨rest, List.append_assoc q [j] rest⟩
  · rintro ⟨j, _, hpre⟩
    constructor
    · exact (List.prefix_append q [j]).trans hpre
    · intro heq
      have hlen := hpre.length_le
      rw [heq, List.length_append, List.length_singleton] at hlen
      omega

theorem deeper_of_entry {q q' : List Nat} {j : Nat} (h : q ++ [j] <+: q') : Deeper q q' :=
  deeper_iff.mpr ⟨j, Nat.zero_le j, h⟩

theorem fromEntry_succ {q q' : List Nat} {i : Nat} :
    FromEntry q i q' ↔ q ++ [i] <+: q' ∨ FromEntry q (i + 1) q' := by
  constructor
  · rintro ⟨j, hj, hpre⟩
    rcases Nat.eq_or_lt_of_le hj with rfl | hlt
    · exact Or.inl hpre
    · exact Or.inr ⟨j, hlt, hpre⟩
  · rintro (hpre | ⟨j, hj, hpre⟩)
    · exact ⟨i, Nat.le_refl i, hpre⟩
    · exact ⟨j, Nat.le_of_succ_le hj, hpre⟩

theorem entry_of_prefix {q q' : List Nat} {i j : Nat} (hi : q ++ [i] <+: q')
    (hj : q ++ [j] <+: q') : i = j := by
  have hlen : (q ++ [i]).length = (q ++ [j]).length := by
    rw [List.length_append, List.length_append]
    rfl
  have heq := List.prefix_of_prefix_length_le hi hj (Nat.le_of_eq hlen)
  exact List.singleton_inj.mp (List.append_cancel_left (heq.eq_of_length hlen))

/-- Above a position every shorter one meets, too. -/
theorem Visit.above {q q' : List Nat} {m w : Y.Node} (h : Visit Y s b o q' m w)
    (hq : Deeper q q') :
    ∃ n v i t x, Visit Y s b o q n v ∧ Visit Y s b o (q ++ [i]) t x ∧ q ++ [i] <+: q' := by
  induction h with
  | root =>
      rcases hq with ⟨hpre, hne⟩
      exact absurd (List.prefix_nil.mp hpre).symm hne
  | @entry q₁ n v t w es os i k key hvisit hn hv hw hdef hk hkey ih =>
      rcases List.prefix_concat_iff.mp hq.1 with heq | hpre
      · exact absurd heq.symm hq.2
      · by_cases hsame : q₁ = q
        · subst hsame
          exact ⟨n, v, i, t, w, hvisit, Visit.entry hvisit hn hv hw hdef hk hkey,
            List.prefix_refl _⟩
        · rcases ih ⟨hpre, hsame⟩ with ⟨n', v', j, t', x, hvisit', hchild, hbelow⟩
          exact ⟨n', v', j, t', x, hvisit', hchild, hbelow.trans (List.prefix_append _ _)⟩

/-- Below a position where nodes meet, both are maps. -/
theorem Visit.maps_above {q q' : List Nat} {n v m w : Y.Node} (h : Visit Y s b o q' m w)
    (hq : Deeper q q') (hvisit : Visit Y s b o q n v) :
    (∃ es os, Y.view s n = .map es ∧ Y.view s v = .map os) ∧
      ∃ i t x, Visit Y s b o (q ++ [i]) t x ∧ q ++ [i] <+: q' := by
  rcases h.above hq with ⟨n', v', i, t, x, _, hchild, hbelow⟩
  rcases visit_concat hchild with ⟨n₁, v₁, es, os, k, key, hvisit₁, hn, hv, _⟩
  rcases hvisit.unique hvisit₁ with ⟨rfl, rfl⟩
  exact ⟨⟨es, os, hn, hv⟩, i, t, x, hchild, hbelow⟩

/-- Entries and items are added below the position of a map or a sequence. -/
theorem Adds.above {q q' : List Nat} {n v : Y.Node} {r : Y.Ref}
    (h : Adds Y concat s b o q' r) (hq : Deeper q q') (hvisit : Visit Y s b o q n v) :
    (∃ es os, Y.view s n = .map es ∧ Y.view s v = .map os) ∨
      (∃ xs ys, Y.view s n = .sequence xs ∧ Y.view s v = .sequence ys ∧ ys ≠ [] ∧
        concat = true ∧ (Y.graph s).ref n = r) := by
  rcases h with ⟨key, q₀, i, n₀, v₀, es, os, k, w, rfl, hvisit₀, hn, hv, _⟩ |
    ⟨q₀, n₀, v₀, xs, ys, rfl, hvisit₀, hn, hv, hys, hconcat, href⟩
  · rcases List.prefix_concat_iff.mp hq.1 with heq | hpre
    · exact absurd heq.symm hq.2
    · by_cases hsame : q₀ = q
      · subst hsame
        rcases hvisit.unique hvisit₀ with ⟨rfl, rfl⟩
        exact Or.inl ⟨es, os, hn, hv⟩
      · exact Or.inl (hvisit₀.maps_above ⟨hpre, hsame⟩ hvisit).1
  · rcases List.prefix_concat_iff.mp hq.1 with heq | hpre
    · exact absurd heq.symm hq.2
    · by_cases hsame : q₀ = q
      · subst hsame
        rcases hvisit.unique hvisit₀ with ⟨rfl, rfl⟩
        exact Or.inr ⟨xs, ys, hn, hv, hys, hconcat, href⟩
      · exact Or.inl (hvisit₀.maps_above ⟨hpre, hsame⟩ hvisit).1

/-- The node of the base at an entry of two maps. -/
theorem Visit.entry_inv {q : List Nat} {i : Nat} {n v t w : Y.Node}
    {es os : List (Key × Y.Node)} (h : Visit Y s b o (q ++ [i]) t w)
    (hvisit : Visit Y s b o q n v) (hn : Y.view s n = .map es) (hv : Y.view s v = .map os) :
    ∃ k key, os[i]? = some (k, w) ∧ isDefined Y s w = true ∧ Y.keyString k = some key ∧
      findKey key es = some t := by
  rcases visit_concat h with ⟨n', v', es', os', k, key, hvisit', hn', hv', hw, hdef, hk, hkey⟩
  rcases hvisit.unique hvisit' with ⟨rfl, rfl⟩
  rw [hn, View.map.injEq] at hn'
  rw [hv, View.map.injEq] at hv'
  subst hn' hv'
  exact ⟨k, key, hw, hdef, hk, hkey⟩

/-- A replacement at or below an entry needs a node of the base there. -/
theorem Replaces.at_entry {q q' : List Nat} {i : Nat} {m : Y.Node}
    (h : Replaces Y concat s b o q' m) (hq : q ++ [i] <+: q') :
    ∃ t w, Visit Y s b o (q ++ [i]) t w := by
  rcases h with ⟨w, hvisit, _⟩
  by_cases hsame : q' = q ++ [i]
  · rw [hsame] at hvisit
    exact ⟨m, w, hvisit⟩
  · rcases hvisit.above ⟨hq, hsame⟩ with ⟨t, x, _, _, _, hentry, _⟩
    exact ⟨t, x, hentry⟩

/-- An entry or item that is added at or below an entry of two maps is added to the map
itself, or there is a node of the base at the entry. -/
theorem Adds.at_entry {q q' : List Nat} {i : Nat} {n v : Y.Node} {r : Y.Ref}
    {es os : List (Key × Y.Node)} (h : Adds Y concat s b o q' r) (hq : q ++ [i] <+: q')
    (hvisit : Visit Y s b o q n v) (hn : Y.view s n = .map es) (hv : Y.view s v = .map os) :
    (q' = q ++ [i] ∧ (Y.graph s).ref n = r ∧ ∃ k w key, os[i]? = some (k, w) ∧
        isDefined Y s w = true ∧ Y.keyString k = some key ∧ findKey key es = none) ∨
      (Deeper (q ++ [i]) q' ∧ ∃ t w, Visit Y s b o (q ++ [i]) t w) := by
  have hdeeper : ∀ q₀ j n₀ v₀, Visit Y s b o q₀ n₀ v₀ → q ++ [i] <+: q₀ →
      Deeper (q ++ [i]) (q₀ ++ [j]) ∧ ∃ t w, Visit Y s b o (q ++ [i]) t w := by
    intro q₀ j n₀ v₀ hvisit₀ hpre
    constructor
    · constructor
      · exact hpre.trans (List.prefix_append _ _)
      · intro heq
        have hlen := hpre.length_le
        rw [← heq, List.length_append, List.length_singleton] at hlen
        omega
    · by_cases hsame : q₀ = q ++ [i]
      · rw [hsame] at hvisit₀
        exact ⟨n₀, v₀, hvisit₀⟩
      · rcases hvisit₀.above ⟨hpre, hsame⟩ with ⟨t, x, _, _, _, hentry, _⟩
        exact ⟨t, x, hentry⟩
  rcases h with ⟨key, q₀, j, n₀, v₀, es₀, os₀, k, w, rfl, hvisit₀, hn₀, hv₀, hw, hdef, hk, hkey,
      href⟩ | ⟨q₀, n₀, v₀, xs, ys, rfl, hvisit₀, hn₀, hv₀, _, _, href⟩
  · rcases List.prefix_concat_iff.mp hq with heq | hpre
    · rcases List.append_inj' heq rfl with ⟨rfl, hij⟩
      rw [List.singleton_inj.mp hij]
      rcases hvisit.unique hvisit₀ with ⟨rfl, rfl⟩
      rw [hn, View.map.injEq] at hn₀
      rw [hv, View.map.injEq] at hv₀
      subst hn₀ hv₀
      exact Or.inl ⟨rfl, href, k, w, key, hw, hdef, hk, hkey⟩
    · exact Or.inr (hdeeper q₀ j n₀ v₀ hvisit₀ hpre)
  · rcases List.prefix_concat_iff.mp hq with heq | hpre
    · rcases List.append_inj' heq rfl with ⟨rfl, hij⟩
      rcases hvisit.unique hvisit₀ with ⟨rfl, rfl⟩
      rw [hn] at hn₀
      contradiction
    · exact Or.inr (hdeeper q₀ 0 n₀ v₀ hvisit₀ hpre)

theorem Adds.used (hY : Y.Documented) (hread : ReadsNew Y s₀ s o) (hb : Y.alive s₀ b)
    {q : List Nat} {r : Y.Ref} (h : Adds Y concat s b o q r) : Y.used s₀ r := by
  rcases h with ⟨key, hins⟩ | hpush
  · exact hins.used hY hread hb
  · exact hpush.used hY hread hb

end Conf
end Utils
end DtCore
