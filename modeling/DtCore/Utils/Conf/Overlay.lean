import DtCore.Utils.Conf.Doc

/-!
# The override wins path by path

A merge of trees that returns is an overlay: a path of keys leads to a scalar or
a sequence of the override, or to one of the base about which the override does
not decide.

Main results:

- Theorem `mergeEntriesDoc_find`: the loop over the entries merges key by key.
- Theorem `overlay`: one merge.
- Theorem `layerDocs_at`: a list of documents.
-/

namespace DtCore
namespace Utils
namespace Conf

variable {keyString : Key → Option String} {v : Doc}

/-! ## Lookups -/

theorem not_at_of_not_isMap {d : Doc} (hd : ¬ d.IsMap) (key : String) (path : List String) :
    d.at (key :: path) = none := by
  cases d <;> simp_all [Doc.at, Doc.IsMap]

theorem at_map_cons (entries : List (Key × Doc)) (key : String) (path : List String) :
    (Doc.map entries).at (key :: path) = (findKey key entries).bind (fun d => d.at path) :=
  rfl

theorem Doc.UniqueKeys.entries {os : List (Key × Doc)} (h : (Doc.map os).UniqueKeys) :
    (∀ e ∈ os, ∃ text, e.1 = .scalar text) ∧ (os.map Prod.fst).Nodup :=
  h [] os rfl

theorem Doc.UniqueKeys.child {os : List (Key × Doc)} (h : (Doc.map os).UniqueKeys)
    {key : String} {v : Doc} (hv : findKey key os = some v) : v.UniqueKeys := by
  intro path es hes
  apply h (key :: path) es
  rw [at_map_cons, hv]
  exact hes

theorem uniqueKeys_of_not_isMap {d : Doc} (hd : ¬ d.IsMap) : d.UniqueKeys := by
  intro path es hes
  cases path with
  | nil =>
      simp only [Doc.at, Option.some.injEq] at hes
      subst hes
      simp [Doc.IsMap] at hd
  | cons key path =>
      rw [not_at_of_not_isMap hd] at hes
      contradiction

theorem mem_of_findKey {α : Type} {key : String} {a : α} {es : List (Key × α)}
    (h : findKey key es = some a) : (.scalar key, a) ∈ es := by
  rcases findKey_split h with ⟨pre, post, rfl, -⟩
  exact List.mem_append_right pre List.mem_cons_self

theorem uniqueKeys_map {os : List (Key × Doc)}
    (hscalar : ∀ e ∈ os, ∃ text, e.1 = .scalar text) (hnodup : (os.map Prod.fst).Nodup)
    (hchildren : ∀ e ∈ os, e.2.UniqueKeys) : (Doc.map os).UniqueKeys := by
  intro path es hes
  cases path with
  | nil =>
      simp only [Doc.at, Option.some.injEq, Doc.map.injEq] at hes
      subst hes
      exact ⟨hscalar, hnodup⟩
  | cons key path =>
      rw [at_map_cons, Option.bind_eq_some_iff] at hes
      rcases hes with ⟨v, hv, hes⟩
      exact hchildren _ (mem_of_findKey hv) path es hes

/-- A document with content decides about its own path. -/
theorem blocks_nil {o : Doc} (ho : o.HasContent) : o.Blocks [] :=
  Or.inl ⟨o, rfl, ho⟩

/-- A document that is no map decides about everything below. -/
theorem blocks_of_not_isMap {o : Doc} (ho : o.HasContent) (hmap : ¬ o.IsMap) (path : List String) :
    o.Blocks path := by
  cases path with
  | nil => exact blocks_nil ho
  | cons key path => exact Or.inr ⟨[], key :: path, rfl, List.cons_ne_nil _ _, o, rfl, ho, hmap⟩

/-- A null decides about nothing. -/
theorem not_blocks_of_not_hasContent {o : Doc} (ho : ¬ o.HasContent) (path : List String) :
    ¬ o.Blocks path := by
  have hat : ∀ p d, o.at p = some d → d.HasContent → False := by
    intro p d hd hcontent
    cases p with
    | nil =>
        simp only [Doc.at, Option.some.injEq] at hd
        exact ho (hd ▸ hcontent)
    | cons key p =>
        have hmap : ¬ o.IsMap := by
          cases o <;> simp_all [Doc.IsMap, Doc.HasContent]
        rw [not_at_of_not_isMap hmap] at hd
        contradiction
  rintro (⟨d, hd, hcontent⟩ | ⟨p, q, _, _, d, hd, hcontent, _⟩)
  · exact hat path d hd hcontent
  · exact hat p d hd hcontent

/-- A map decides about a path below it as the child at the first key does. -/
theorem blocks_map_cons (os : List (Key × Doc)) (key : String) (path : List String) :
    (Doc.map os).Blocks (key :: path) ↔ ∃ v, findKey key os = some v ∧ v.Blocks path := by
  constructor
  · rintro (⟨d, hd, hcontent⟩ | ⟨p, q, hpq, hq, d, hd, hcontent, hmap⟩)
    · rw [at_map_cons, Option.bind_eq_some_iff] at hd
      rcases hd with ⟨v, hv, hd⟩
      exact ⟨v, hv, Or.inl ⟨d, hd, hcontent⟩⟩
    · cases p with
      | nil =>
          simp only [Doc.at, Option.some.injEq] at hd
          subst hd
          simp [Doc.IsMap] at hmap
      | cons key' p =>
          simp only [List.cons_append, List.cons.injEq] at hpq
          rcases hpq with ⟨rfl, hpq⟩
          rw [at_map_cons, Option.bind_eq_some_iff] at hd
          rcases hd with ⟨v, hv, hd⟩
          exact ⟨v, hv, Or.inr ⟨p, q, hpq, hq, d, hd, hcontent, hmap⟩⟩
  · rintro ⟨v, hv, ⟨d, hd, hcontent⟩ | ⟨p, q, hpq, hq, d, hd, hcontent, hmap⟩⟩
    · left
      exact ⟨d, by rw [at_map_cons, hv, Option.bind_some, hd], hcontent⟩
    · right
      exact ⟨key :: p, q, by rw [hpq]; rfl, hq, d,
        by rw [at_map_cons, hv, Option.bind_some, hd], hcontent, hmap⟩

/-! ## The loop -/

/-- An entry of a loop that goes on was merged, and the loop goes on with the
result at its key. -/
theorem mergeEntriesDoc_cons_ok {merge : Option Doc → Doc → Option DocEnd}
    {bs os bs' : List (Key × Doc)} {k : Key} {v : Doc} {key : String} (hv : v ≠ .undefined)
    (hk : keyString k = some key)
    (h : mergeEntriesDoc keyString merge bs ((k, v) :: os) = some (bs', true)) :
    ∃ e d, merge (findKey key bs) v = some e ∧ e.takes ≠ .threw ∧ e.result v = some d ∧
      mergeEntriesDoc keyString merge (setKey key d bs) os = some (bs', true) := by
  rcases mergeEntriesDoc_cons_cases hv h with
    ⟨_, _, hok⟩ | ⟨key', e, hk', hm, ⟨_, _, hok⟩ | ⟨_, _, _, hok⟩ | ⟨d, htakes, hd, hrest⟩⟩
  · contradiction
  · contradiction
  · contradiction
  · rw [hk, Option.some.injEq] at hk'
    subst hk'
    exact ⟨e, d, hm, htakes, hd, hrest⟩

/-- The loop merges key by key. -/
theorem mergeEntriesDoc_find {merge : Option Doc → Doc → Option DocEnd}
    (hks : ∀ text, keyString (.scalar text) = some text) {bs os bs' : List (Key × Doc)}
    (hscalar : ∀ e ∈ os, ∃ text, e.1 = .scalar text) (hnodup : (os.map Prod.fst).Nodup)
    (h : mergeEntriesDoc keyString merge bs os = some (bs', true)) (key : String) :
    match findKey key os with
    | none => findKey key bs' = findKey key bs
    | some .undefined => findKey key bs' = findKey key bs
    | some v => ∃ e, merge (findKey key bs) v = some e ∧ e.takes ≠ .threw ∧
        findKey key bs' = e.result v := by
  induction os generalizing bs with
  | nil =>
      simp only [mergeEntriesDoc, Option.some.injEq, Prod.mk.injEq] at h
      simp [findKey, h.1]
  | cons entry os ih =>
      rcases entry with ⟨k, v⟩
      rw [List.forall_mem_cons] at hscalar
      rw [List.map_cons, List.nodup_cons] at hnodup
      rcases hscalar with ⟨⟨text, htext⟩, hscalar⟩
      simp only at htext
      subst htext
      have hfresh : findKey text os = none := findKey_eq_none.mpr hnodup.1
      by_cases hv : v = .undefined
      · subst hv
        have hrest := ih hscalar hnodup.2 h
        by_cases hkey : key = text
        · rw [hkey, hfresh] at hrest
          simp only [findKey, Key.matches, hkey, decide_true, if_true]
          exact hrest
        · simpa [findKey, Key.matches, Ne.symm hkey] using hrest
      · rcases mergeEntriesDoc_cons_ok hv (hks text) h with ⟨e, d, hm, htakes, hresult, hrest⟩
        have hfind := ih hscalar hnodup.2 hrest
        rw [findKey_setKey] at hfind
        by_cases hkey : key = text
        · rw [hkey, hfresh, if_pos rfl] at hfind
          simp only [findKey, Key.matches, hkey, decide_true, if_true]
          have hgoal : ∃ e, merge (findKey text bs) v = some e ∧ e.takes ≠ .threw ∧
              findKey text bs' = e.result v :=
            ⟨e, hm, htakes, hfind.trans hresult.symm⟩
          cases v <;> first | contradiction | exact hgoal
        · rw [if_neg hkey] at hfind
          simpa [findKey, Key.matches, Ne.symm hkey] using hfind

/-! ## One merge -/

/-- Outside of two maps a merge returns the override unless that is a null. -/
theorem mergeDoc_takes_override {n : Nat} {b : Option Doc} {o : Doc} {e : DocEnd}
    (h : mergeDoc keyString false n b o = some e) (ho : o.HasContent)
    (hmaps : ¬ (o.IsMap ∧ ∃ d, b = some d ∧ d.IsMap)) : e.result o = some o := by
  cases n with
  | zero => simp [mergeDoc] at h
  | succ n =>
      unfold mergeDoc at h
      split at h <;> simp_all [Doc.HasContent, Doc.IsMap, DocEnd.result]
      · subst h
        rfl
      · subst h
        rfl

/-- Without content the path leads to no leaf. -/
theorem not_at_leaf {d : Doc} (hd : ¬ d.HasContent) (hleaf : v.IsLeaf) (path : List String) :
    d.at path ≠ some v := by
  cases path with
  | nil =>
      intro hat
      simp only [Doc.at, Option.some.injEq] at hat
      subst hat
      cases d <;> simp_all [Doc.HasContent, Doc.IsLeaf]
  | cons key path =>
      have hmap : ¬ d.IsMap := by cases d <;> simp_all [Doc.IsMap, Doc.HasContent]
      rw [not_at_of_not_isMap hmap]
      simp

/-- Nothing of the base shows through an override that is returned whole. -/
theorem blocks_of_taken {b : Option Doc} {o : Doc} (ho : o.HasContent)
    (hmaps : ¬ (o.IsMap ∧ ∃ d, b = some d ∧ d.IsMap)) {path : List String}
    (hat : b.bind (fun d => d.at path) = some v) : o.Blocks path := by
  by_cases hmap : o.IsMap
  · cases path with
    | nil => exact blocks_nil ho
    | cons key path =>
        rw [Option.bind_eq_some_iff] at hat
        rcases hat with ⟨d, hd, hat⟩
        have hnot : ¬ d.IsMap := fun hd' => hmaps ⟨hmap, d, hd, hd'⟩
        rw [not_at_of_not_isMap hnot] at hat
        contradiction
  · exact blocks_of_not_isMap ho hmap path

/-- Two maps merge key by key, so that the law of the children is the law of the
maps. -/
theorem overlay_map (hks : ∀ text, keyString (.scalar text) = some text)
    {merge : Option Doc → Doc → Option DocEnd}
    (ih : ∀ {b : Option Doc} {o : Doc} {e : DocEnd}, merge b o = some e → e.takes ≠ .threw →
      o.UniqueKeys → ∀ path : List String,
        ((e.result o).bind (fun d => d.at path) = some v ↔
          o.at path = some v ∨ (b.bind (fun d => d.at path) = some v ∧ ¬ o.Blocks path)))
    {bs os bs' : List (Key × Doc)} (hunique : (Doc.map os).UniqueKeys)
    (hloop : mergeEntriesDoc keyString merge bs os = some (bs', true)) (path : List String)
    (hleaf : v.IsLeaf) :
    (Doc.map bs').at path = some v ↔
      (Doc.map os).at path = some v ∨
        ((Doc.map bs).at path = some v ∧ ¬ (Doc.map os).Blocks path) := by
  cases path with
  | nil =>
      have hmap : ∀ es, Doc.map es ≠ v := by
        rintro es rfl
        simp [Doc.IsLeaf] at hleaf
      simp [Doc.at, hmap]
  | cons key path =>
      have hfind := mergeEntriesDoc_find hks hunique.entries.1 hunique.entries.2 hloop key
      rw [at_map_cons, at_map_cons, at_map_cons, blocks_map_cons]
      cases hv : findKey key os with
      | none =>
          rw [hv] at hfind
          simp [hfind]
      | some w =>
          rw [hv] at hfind
          by_cases hw : w = .undefined
          · subst hw
            have hat := not_at_leaf (d := .undefined) (by simp [Doc.HasContent]) hleaf path
            have hblocks := not_blocks_of_not_hasContent (o := .undefined)
              (by simp [Doc.HasContent]) path
            simp only at hfind
            simp [hfind, hat, hblocks]
          · have hmerged : ∃ e, merge (findKey key bs) w = some e ∧ e.takes ≠ .threw ∧
                findKey key bs' = e.result w := by
              cases w <;> first | contradiction | exact hfind
            rcases hmerged with ⟨e, hm, htakes, hresult⟩
            have hlaw := ih hm htakes (hunique.child hv) path
            rw [hresult, hlaw]
            simp

/-- A merge that returns lets the override win path by path. -/
theorem overlay (hks : ∀ text, keyString (.scalar text) = some text) {n : Nat}
    {b : Option Doc} {o : Doc} {e : DocEnd} (h : mergeDoc keyString false n b o = some e)
    (htakes : e.takes ≠ .threw) (hunique : o.UniqueKeys) (path : List String)
    (hleaf : v.IsLeaf) :
    (e.result o).bind (fun d => d.at path) = some v ↔
      o.at path = some v ∨ (b.bind (fun d => d.at path) = some v ∧ ¬ o.Blocks path) := by
  induction n generalizing b o e path with
  | zero => simp [mergeDoc] at h
  | succ n ih =>
      by_cases ho : o.HasContent
      · by_cases hmaps : o.IsMap ∧ ∃ d, b = some d ∧ d.IsMap
        · rcases hmaps with ⟨hmap, d, rfl, hmap'⟩
          cases o with
          | map os =>
              cases d with
              | map bs =>
                  simp only [mergeDoc, Option.map_eq_some_iff, Prod.exists] at h
                  rcases h with ⟨bs', ok, hloop, rfl⟩
                  cases ok with
                  | false => simp at htakes
                  | true => exact overlay_map hks ih hunique hloop path hleaf
              | _ => simp [Doc.IsMap] at hmap'
          | _ => simp [Doc.IsMap] at hmap
        · rw [mergeDoc_takes_override h ho hmaps, Option.bind_some]
          constructor
          · exact Or.inl
          · rintro (hat | ⟨hat, hblocks⟩)
            · exact hat
            · exact absurd (blocks_of_taken ho hmaps hat) hblocks
      · have hresult : e.result o = b := by
          cases o <;> simp_all [Doc.HasContent, mergeDoc] <;> subst h <;> rfl
        rw [hresult]
        have hat := not_at_leaf ho hleaf path
        have hblocks := not_blocks_of_not_hasContent ho path
        simp [hat, hblocks]

/-! ## A list of documents -/

/-- Some document has the value at the path and no later one decides about it. -/
def Wins (docs : List Doc) (path : List String) (v : Doc) : Prop :=
  ∃ (i : Nat) (d : Doc), docs[i]? = some d ∧ d.at path = some v ∧
    ∀ (j : Nat) (d' : Doc), i < j → docs[j]? = some d' → ¬ d'.Blocks path

theorem wins_cons (d : Doc) (ds : List Doc) (path : List String) (v : Doc) :
    Wins (d :: ds) path v ↔
      Wins ds path v ∨ (d.at path = some v ∧ ∀ d' ∈ ds, ¬ d'.Blocks path) := by
  constructor
  · rintro ⟨i, w, hi, hw, hlater⟩
    cases i with
    | zero =>
        simp only [List.getElem?_cons_zero, Option.some.injEq] at hi
        subst hi
        right
        constructor
        · exact hw
        · intro d' hd'
          rcases List.mem_iff_getElem?.mp hd' with ⟨j, hj⟩
          exact hlater (j + 1) d' (Nat.succ_pos j) (by simpa using hj)
    | succ i =>
        left
        apply Exists.intro i
        apply Exists.intro w
        constructor
        · simpa using hi
        · constructor
          · exact hw
          · intro j d' hij hj
            exact hlater (j + 1) d' (Nat.succ_lt_succ hij) (by simpa using hj)
  · rintro (⟨i, w, hi, hw, hlater⟩ | ⟨hw, hlater⟩)
    · apply Exists.intro (i + 1)
      apply Exists.intro w
      constructor
      · simpa using hi
      · constructor
        · exact hw
        · intro j d' hij hj
          cases j with
          | zero => omega
          | succ j => exact hlater j d' (by omega) (by simpa using hj)
    · apply Exists.intro 0
      apply Exists.intro d
      constructor
      · rfl
      · constructor
        · exact hw
        · intro j d' hij hj
          cases j with
          | zero => omega
          | succ j =>
              rw [List.getElem?_cons_succ] at hj
              exact hlater d' (List.mem_of_getElem? hj)

theorem appendDoc_at (hks : ∀ text, keyString (.scalar text) = some text) {n : Nat}
    {root o r : Doc} (h : (appendDoc keyString false n root o).bind (fun e => e.result o) = some r)
    (hunique : o.UniqueKeys) (path : List String) (hleaf : v.IsLeaf) :
    r.at path = some v ↔
      o.at path = some v ∨ (root.at path = some v ∧ ¬ o.Blocks path) := by
  rw [Option.bind_eq_some_iff] at h
  rcases h with ⟨e, he, hr⟩
  by_cases hroot : root = .undefined
  · subst hroot
    simp only [appendDoc, Option.some.injEq] at he
    subst he
    simp only [DocEnd.result, Option.some.injEq] at hr
    subst hr
    have hat := not_at_leaf (d := .undefined) (by simp [Doc.HasContent]) hleaf path
    simp [hat]
  · have hmerge : mergeDoc keyString false n (some root) o = some e := by
      cases root <;> first | contradiction | exact he
    have htakes : e.takes ≠ .threw := by
      intro hthrew
      simp [DocEnd.result, hthrew] at hr
    have hlaw := overlay hks hmerge htakes hunique path hleaf
    rwa [hr, Option.bind_some, Option.bind_some] at hlaw

/-- The value at a path comes from the last document that decides about it. -/
theorem layerDocs_at (hks : ∀ text, keyString (.scalar text) = some text) {n : Nat}
    {root r : Doc} {ds : List Doc} (h : layerDocs keyString false n root ds = some r)
    (hunique : ∀ d ∈ ds, d.UniqueKeys) (path : List String) (hleaf : v.IsLeaf) :
    r.at path = some v ↔
      Wins ds path v ∨ (root.at path = some v ∧ ∀ d ∈ ds, ¬ d.Blocks path) := by
  induction ds generalizing root with
  | nil =>
      simp only [layerDocs, Option.some.injEq] at h
      subst h
      simp [Wins]
  | cons d ds ih =>
      rw [List.forall_mem_cons] at hunique
      rw [layerDocs, Option.bind_eq_some_iff] at h
      rcases h with ⟨r', hr', h⟩
      have hlaw := appendDoc_at hks hr' hunique.1 path hleaf
      rw [ih h hunique.2, hlaw, wins_cons, List.forall_mem_cons]
      tauto

end Conf
end Utils
end DtCore
