import DtCore.Utils.Conf.Layers
import DtCore.Utils.Conf.Failure

/-!
# `Append` without override

Without `override` the merge appends the items of a sequence, but the values of all other
kinds are still replaced.  What the root has is kept exactly when the two documents do
not clash.

Main definitions:

- `Doc.Extends`: a document still has the scalars and the sequences of another one.
- `Doc.Clashes`: the override would replace a scalar or a sequence.

Main results:

- Theorem `extends_map`, `clashes_map`: both go key by key.
- Theorem `extends_iff`: one merge keeps what the base has when nothing clashes.
- Theorem `append_extends_iff`: the same for `Append`.
-/

namespace DtCore
namespace Utils
namespace Conf

/-! ## Two documents -/

/-- Every path to a scalar leads to that scalar, and every path to a sequence to a
sequence that begins with it. -/
def Doc.Extends (d r : Doc) : Prop :=
  (∀ path text, d.at path = some (.scalar text) → r.at path = some (.scalar text)) ∧
    ∀ path xs, d.at path = some (.sequence xs) → ∃ ys, r.at path = some (.sequence (xs ++ ys))

/-- Something is lost when a value gives way to another one. -/
def Doc.Lost : Doc → Doc → Prop
  | .scalar text, y => y ≠ .scalar text
  | .sequence _, y => ∀ ys, y ≠ .sequence ys
  | .map es, y => ¬ y.IsMap ∧ ∃ path v, (Doc.map es).at path = some v ∧ v.IsLeaf
  | _, _ => False

/-- The override has content at a path where the base loses something to it. -/
def Doc.Clashes (d o : Doc) : Prop :=
  ∃ path x y, d.at path = some x ∧ o.at path = some y ∧ y.HasContent ∧ x.Lost y

theorem Doc.Extends.refl (d : Doc) : d.Extends d := by
  constructor
  · intro path text h
    exact h
  · intro path xs h
    exact ⟨[], by rw [List.append_nil, h]⟩

/-- A map keeps what it has when the value of every key does. -/
theorem extends_map {bs bs' : List (Key × Doc)}
    (hkeys : ∀ key x, findKey key bs = some x → ∃ x', findKey key bs' = some x') :
    (Doc.map bs).Extends (.map bs') ↔
      ∀ key x x', findKey key bs = some x → findKey key bs' = some x' → x.Extends x' := by
  constructor
  · rintro ⟨hscalar, hseq⟩ key x x' hx hx'
    constructor
    · intro path text h
      have hat := hscalar (key :: path) text (by rw [at_map_cons, hx]; exact h)
      rwa [at_map_cons, hx'] at hat
    · intro path xs h
      rcases hseq (key :: path) xs (by rw [at_map_cons, hx]; exact h) with ⟨ys, hat⟩
      rw [at_map_cons, hx'] at hat
      exact ⟨ys, hat⟩
  · intro h
    have hstep : ∀ key path v, (Doc.map bs).at (key :: path) = some v →
        ∃ x x', findKey key bs = some x ∧ findKey key bs' = some x' ∧ x.Extends x' ∧
          x.at path = some v := by
      intro key path v hv
      rw [at_map_cons, Option.bind_eq_some_iff] at hv
      rcases hv with ⟨x, hx, hv⟩
      rcases hkeys key x hx with ⟨x', hx'⟩
      exact ⟨x, x', hx, hx', h key x x' hx hx', hv⟩
    constructor
    · intro path text hat
      cases path with
      | nil => simp [Doc.at] at hat
      | cons key path =>
          rcases hstep key path _ hat with ⟨x, x', _, hx', hext, hv⟩
          rw [at_map_cons, hx']
          exact hext.1 path text hv
    · intro path xs hat
      cases path with
      | nil => simp [Doc.at] at hat
      | cons key path =>
          rcases hstep key path _ hat with ⟨x, x', _, hx', hext, hv⟩
          rw [at_map_cons, hx']
          exact hext.2 path xs hv

/-- Two maps clash when the values of some key do. -/
theorem clashes_map {bs os : List (Key × Doc)} :
    (Doc.map bs).Clashes (.map os) ↔
      ∃ key x y, findKey key bs = some x ∧ findKey key os = some y ∧ x.Clashes y := by
  constructor
  · rintro ⟨path, x, y, hx, hy, hcontent, hlost⟩
    cases path with
    | nil =>
        simp only [Doc.at, Option.some.injEq] at hx hy
        subst hx hy
        exact absurd trivial hlost.1
    | cons key path =>
        rw [at_map_cons, Option.bind_eq_some_iff] at hx hy
        rcases hx with ⟨x', hx', hx⟩
        rcases hy with ⟨y', hy', hy⟩
        exact ⟨key, x', y', hx', hy', path, x, y, hx, hy, hcontent, hlost⟩
  · rintro ⟨key, x', y', hx', hy', path, x, y, hx, hy, hcontent, hlost⟩
    exact ⟨key :: path, x, y, by rw [at_map_cons, hx']; exact hx,
      by rw [at_map_cons, hy']; exact hy, hcontent, hlost⟩

/-- Outside of two maps only the values themselves can clash. -/
theorem clashes_of_not_maps {d o : Doc} (hmaps : ¬ (d.IsMap ∧ o.IsMap)) :
    d.Clashes o ↔ o.HasContent ∧ d.Lost o := by
  constructor
  · rintro ⟨path, x, y, hx, hy, hcontent, hlost⟩
    cases path with
    | nil =>
        simp only [Doc.at, Option.some.injEq] at hx hy
        subst hx hy
        exact ⟨hcontent, hlost⟩
    | cons key path =>
        exfalso
        apply hmaps
        constructor
        · by_contra hd
          rw [not_at_of_not_isMap hd] at hx
          contradiction
        · by_contra ho
          rw [not_at_of_not_isMap ho] at hy
          contradiction
  · rintro ⟨hcontent, hlost⟩
    exact ⟨[], d, o, rfl, rfl, hcontent, hlost⟩

theorem extends_of_not_isMap {d o : Doc} (hd : ¬ d.IsMap) :
    d.Extends o ↔
      (∀ text, d = .scalar text → o = .scalar text) ∧
        ∀ xs, d = .sequence xs → ∃ ys, o = .sequence (xs ++ ys) := by
  constructor
  · rintro ⟨hscalar, hseq⟩
    constructor
    · rintro text rfl
      exact Option.some.inj (hscalar [] text rfl)
    · rintro xs rfl
      rcases hseq [] xs rfl with ⟨ys, hys⟩
      exact ⟨ys, Option.some.inj hys⟩
  · rintro ⟨hscalar, hseq⟩
    constructor
    · intro path text hat
      cases path with
      | nil => exact congrArg some (hscalar text (Option.some.inj hat))
      | cons key path =>
          rw [not_at_of_not_isMap hd] at hat
          contradiction
    · intro path xs hat
      cases path with
      | nil =>
          rcases hseq xs (Option.some.inj hat) with ⟨ys, hys⟩
          exact ⟨ys, congrArg some hys⟩
      | cons key path =>
          rw [not_at_of_not_isMap hd] at hat
          contradiction

/-- A map that gives way to something else loses its leaves. -/
theorem extends_of_map {es : List (Key × Doc)} {o : Doc} (ho : ¬ o.IsMap) :
    (Doc.map es).Extends o ↔ ¬ ∃ path v, (Doc.map es).at path = some v ∧ v.IsLeaf := by
  have hnone : ∀ path v, (Doc.map es).at path = some v → v.IsLeaf → o.at path = none := by
    intro path v hat hleaf
    cases path with
    | nil =>
        simp only [Doc.at, Option.some.injEq] at hat
        subst hat
        exact hleaf.elim
    | cons key path => exact not_at_of_not_isMap ho key path
  constructor
  · rintro ⟨hscalar, hseq⟩ ⟨path, v, hat, hleaf⟩
    have ho' := hnone path v hat hleaf
    cases v with
    | scalar text =>
        rw [hscalar path text hat] at ho'
        contradiction
    | sequence xs =>
        rcases hseq path xs hat with ⟨ys, hys⟩
        rw [hys] at ho'
        contradiction
    | _ => exact hleaf.elim
  · intro h
    constructor
    · intro path text hat
      exact absurd ⟨path, _, hat, trivial⟩ h
    · intro path xs hat
      exact absurd ⟨path, _, hat, trivial⟩ h

/-- A value that gives way to another one. -/
theorem extends_of_taken {d o : Doc} (hmaps : ¬ (d.IsMap ∧ o.IsMap))
    (hseqs : ∀ xs ys, ¬ (d = .sequence xs ∧ o = .sequence ys)) : d.Extends o ↔ ¬ d.Lost o := by
  cases d with
  | sequence xs =>
      have hnot : ∀ ys, o ≠ .sequence ys := fun ys ho => hseqs xs ys ⟨rfl, ho⟩
      rw [extends_of_not_isMap (by simp [Doc.IsMap])]
      simp [Doc.Lost, hnot]
  | map es =>
      have ho : ¬ o.IsMap := fun ho => hmaps ⟨trivial, ho⟩
      rw [extends_of_map ho, Doc.Lost, and_iff_right ho]
  | _ =>
      rw [extends_of_not_isMap (by simp [Doc.IsMap])]
      simp [Doc.Lost]

/-! ## One merge -/

variable {keyString : Key → Option String}

/-- Outside of two maps and of two sequences a merge returns the override. -/
theorem mergeDoc_takes_whole {n : Nat} {d o : Doc} {e : DocEnd}
    (h : mergeDoc keyString true n (some d) o = some e) (ho : o.HasContent)
    (hmaps : ¬ (d.IsMap ∧ o.IsMap))
    (hseqs : ∀ xs ys, ¬ (d = .sequence xs ∧ o = .sequence ys)) : e.result o = some o := by
  cases n with
  | zero => simp [mergeDoc] at h
  | succ n =>
      unfold mergeDoc at h
      split at h <;> simp_all [Doc.HasContent, Doc.IsMap, DocEnd.result]
      subst h
      rfl

theorem not_clashes_of_not_hasContent {d o : Doc} (ho : ¬ o.HasContent) : ¬ d.Clashes o := by
  have hmaps : ¬ (d.IsMap ∧ o.IsMap) := by
    rintro ⟨_, hmap⟩
    cases o <;> simp_all [Doc.IsMap, Doc.HasContent]
  rw [clashes_of_not_maps hmaps]
  exact fun hclash => ho hclash.1

/-- Two maps keep and clash key by key. -/
theorem extends_iff_of_maps {merge : Option Doc → Doc → Option DocEnd}
    (hks : ∀ text, keyString (.scalar text) = some text) {bs os bs' : List (Key × Doc)}
    (hunique : (Doc.map os).UniqueKeys)
    (hloop : mergeEntriesDoc keyString merge bs os = some (bs', true))
    (hresult : ∀ x v e, merge (some x) v = some e → e.takes ≠ .threw →
      ∃ x', e.result v = some x')
    (ih : ∀ x v e x', merge (some x) v = some e → e.takes ≠ .threw → e.result v = some x' →
      v.UniqueKeys → (x.Extends x' ↔ ¬ x.Clashes v)) :
    (Doc.map bs).Extends (.map bs') ↔ ¬ (Doc.map bs).Clashes (.map os) := by
  -- what the loop makes of the value of a key
  have hvalue : ∀ key x, findKey key bs = some x →
      ∃ x', findKey key bs' = some x' ∧
        (x.Extends x' ↔ ¬ ∃ v, findKey key os = some v ∧ x.Clashes v) := by
    intro key x hx
    have hfind := mergeEntriesDoc_find hks hunique.entries.1 hunique.entries.2 hloop key
    cases hv : findKey key os with
    | none =>
        rw [hv] at hfind
        simp only [hx] at hfind
        exact ⟨x, hfind, iff_of_true (Doc.Extends.refl x) (by simp)⟩
    | some v =>
        rw [hv] at hfind
        by_cases hundef : v = .undefined
        · subst hundef
          simp only [hx] at hfind
          have hno := not_clashes_of_not_hasContent (d := x) (o := .undefined) (fun h => h)
          exact ⟨x, hfind, iff_of_true (Doc.Extends.refl x) (by simpa using hno)⟩
        · have hmerged : ∃ e, merge (some x) v = some e ∧ e.takes ≠ .threw ∧
              findKey key bs' = e.result v := by
            rw [hx] at hfind
            cases v <;> first | contradiction | exact hfind
          rcases hmerged with ⟨e, hm, htakes, hbs'⟩
          rcases hresult x v e hm htakes with ⟨x', hx'⟩
          apply Exists.intro x'
          rw [hbs', hx', ih x v e x' hm htakes hx' (hunique.child hv)]
          simp
  have hkeys : ∀ key x, findKey key bs = some x → ∃ x', findKey key bs' = some x' := by
    intro key x hx
    rcases hvalue key x hx with ⟨x', hx', _⟩
    exact ⟨x', hx'⟩
  rw [extends_map hkeys, clashes_map]
  constructor
  · rintro h ⟨key, x, v, hx, hv, hclash⟩
    rcases hvalue key x hx with ⟨x', hx', hiff⟩
    exact hiff.1 (h key x x' hx hx') ⟨v, hv, hclash⟩
  · intro h key x x' hx hx'
    rcases hvalue key x hx with ⟨x'', hx'', hiff⟩
    rw [hx', Option.some.injEq] at hx''
    subst hx''
    apply hiff.2
    rintro ⟨v, hv, hclash⟩
    exact h ⟨key, x, v, hx, hv, hclash⟩

/-- A merge without override keeps what the base has exactly when nothing clashes. -/
theorem extends_iff (hks : ∀ text, keyString (.scalar text) = some text) {n : Nat}
    {d o r : Doc} {e : DocEnd} (h : mergeDoc keyString true n (some d) o = some e)
    (htakes : e.takes ≠ .threw) (hr : e.result o = some r) (hunique : o.UniqueKeys) :
    d.Extends r ↔ ¬ d.Clashes o := by
  induction n generalizing d o r e with
  | zero => simp [mergeDoc] at h
  | succ n ih =>
      by_cases ho : o.HasContent
      · by_cases hmaps : d.IsMap ∧ o.IsMap
        · cases d with
          | map bs =>
              cases o with
              | map os =>
                  simp only [mergeDoc, Option.map_eq_some_iff, Prod.exists] at h
                  rcases h with ⟨bs', ok, hloop, rfl⟩
                  cases ok with
                  | false => simp at htakes
                  | true =>
                      rw [DocEnd.result, if_pos rfl, Option.some.injEq] at hr
                      subst hr
                      exact extends_iff_of_maps hks hunique hloop
                        (fun x v e => exists_result) (fun x v e x' => ih)
              | _ => exact hmaps.2.elim
          | _ => exact hmaps.1.elim
        · rw [clashes_of_not_maps hmaps, and_iff_right ho]
          by_cases hseqs : ∃ xs ys, d = .sequence xs ∧ o = .sequence ys
          · rcases hseqs with ⟨xs, ys, rfl, rfl⟩
            rw [mergeDoc, if_pos rfl, Option.some.injEq] at h
            subst h
            rw [DocEnd.result, Option.some.injEq] at hr
            subst hr
            rw [extends_of_not_isMap (by simp [Doc.IsMap])]
            simp [Doc.Lost]
          · have hseqs' : ∀ xs ys, ¬ (d = .sequence xs ∧ o = .sequence ys) :=
              fun xs ys hxy => hseqs ⟨xs, ys, hxy⟩
            rw [mergeDoc_takes_whole h ho hmaps hseqs', Option.some.injEq] at hr
            subst hr
            exact extends_of_taken hmaps hseqs'
      · have hend : e = { base := some d, takes := .base } := by
          cases o with
          | undefined => exact (Option.some.inj h).symm
          | null => exact (Option.some.inj h).symm
          | _ => exact absurd trivial ho
        rw [hend, DocEnd.result, Option.some.injEq] at hr
        subst hr
        exact iff_of_true (Doc.Extends.refl d) (not_clashes_of_not_hasContent ho)

/-! ## `Append` -/

variable {Y : YamlCpp}

/-- Lookups still give the scalars and the sequences that they gave before. -/
def KeepsValues (Y : YamlCpp) (s s' : State Y) : Prop :=
  (∀ path text, Gives Y s path (.scalar text) → Gives Y s' path (.scalar text)) ∧
    ∀ path xs, Gives Y s path (.sequence xs) → ∃ ys, Gives Y s' path (.sequence (xs ++ ys))

theorem keepsValues_iff (hY : Y.Documented) {s s' : State Y} {k k' : Nat} {d d' : Doc}
    (h : (Y.graph s.heap).Denotes k s.rootNode d)
    (h' : (Y.graph s'.heap).Denotes k' s'.rootNode d') : KeepsValues Y s s' ↔ d.Extends d' := by
  simp only [KeepsValues, Doc.Extends, gives_iff hY h, gives_iff hY h']

/-- An `Append` without override that returns keeps every scalar and extends every sequence
exactly when the documents do not clash. -/
theorem append_extends_iff (hY : Y.Documented) {s s' : State Y} {k : Nat} {root o : Doc}
    (hroot : Tree Y s.heap k s.rootNode root) (hdepth : o.DepthLt k) (hunique : o.UniqueKeys)
    (hreturns : append Y k s (some o) false = .returned s') :
    KeepsValues Y s s' ↔ ¬ root.Clashes o := by
  rcases append_refines hY hroot hdepth false with
    ⟨e, he, ⟨u, r, hu, htakes, hr, htree⟩ | ⟨u, d, hu, _⟩⟩
  · rw [hreturns, Ended.returned.injEq] at hu
    subst hu
    rw [keepsValues_iff hY hroot.denotes htree.denotes]
    by_cases hundef : root = .undefined
    · subst hundef
      rw [appendDoc, Option.some.injEq] at he
      subst he
      rw [DocEnd.result, Option.some.injEq] at hr
      subst hr
      rw [clashes_of_not_maps (by simp [Doc.IsMap]), extends_of_not_isMap (by simp [Doc.IsMap])]
      simp [Doc.Lost]
    · have hmerge : mergeDoc Y.keyString true k (some root) o = some e := by
        cases root <;> first | contradiction | exact he
      exact extends_iff hY.keyString_scalar hmerge htakes hr hunique
  · rw [hreturns] at hu
    contradiction

/-- The documents `a: 1` and `b: 2`. -/
def numberA (text : String) : Doc := .map [(.scalar "a", .scalar text)]

def numberB : Doc := .map [(.scalar "b", .scalar "2")]

theorem append_extends_iff_new_key :
    ∃ s', append cellYaml 3 (construct cellYaml Heap.empty (numberA "1")) (some numberB) false =
        .returned s' ∧
      KeepsValues cellYaml (construct cellYaml Heap.empty (numberA "1")) s' := by
  have htree := construct_tree cellYaml_documented Heap.empty (k := 3) (d := numberA "1")
    (by simp [numberA, Doc.DepthLt])
  have hunique : numberB.UniqueKeys := by
    apply uniqueKeys_map
    · simp
    · simp
    · intro e he
      rw [List.mem_singleton] at he
      rw [he]
      exact uniqueKeys_of_not_isMap (fun h => h)
  have hclash : ¬ (numberA "1").Clashes numberB := by
    unfold numberA numberB
    rw [clashes_map]
    rintro ⟨key, x, y, hx, hy, -⟩
    by_cases ha : "a" = key
    · simp [findKey, Key.matches_iff, ← ha] at hy
    · simp [findKey, Key.matches_iff, ha] at hx
  exact ⟨_, rfl, (append_extends_iff cellYaml_documented htree
    (by simp [numberB, Doc.DepthLt]) hunique rfl).mpr hclash⟩

/-- Without override the later of two scalars wins all the same. -/
theorem append_replaces_scalar :
    ∃ s', append cellYaml 3 (construct cellYaml Heap.empty (numberA "1")) (some (numberA "2"))
        false = .returned s' ∧
      ¬ KeepsValues cellYaml (construct cellYaml Heap.empty (numberA "1")) s' := by
  have hrun : ∃ s', append cellYaml 3 (construct cellYaml Heap.empty (numberA "1"))
      (some (numberA "2")) false = .returned s' ∧
      ∃ n, lookup cellYaml s'.heap s'.rootNode ["a"] = some n ∧
        cellYaml.view s'.heap n = .scalar "2" := ⟨_, rfl, _, rfl, rfl⟩
  rcases hrun with ⟨s', hs', n, hn, hview⟩
  apply Exists.intro s'
  apply And.intro hs'
  rintro ⟨hscalar, _⟩
  have htree := construct_tree cellYaml_documented Heap.empty (k := 3) (d := numberA "1")
    (by simp [numberA, Doc.DepthLt])
  have hbefore : Gives cellYaml (construct cellYaml Heap.empty (numberA "1")) ["a"]
      (.scalar "1") := by
    rw [gives_iff cellYaml_documented htree.denotes]
    simp [numberA, Doc.at, findKey, Key.matches]
  have htext := scalar_of_gives cellYaml hn hview (hscalar ["a"] "1" hbefore)
  exact absurd htext (by decide)

end Conf
end Utils
end DtCore
