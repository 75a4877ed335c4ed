import DtCore.Utils.Conf.Atomic

/-!
# Merging ordinary documents

A null of the override gives back the handle of the base entry before anybody asks
whether there is such an entry, and assigning the handle of a missing entry throws.
So the merge of two documents throws exactly when a map of the override has a null for a
key that the map of the base at the same path lacks.  Any other null for a missing key
changes nothing else.

Main definitions:

- `Doc.cut`: a document without the entry at a path.
- `NullForMissing`: a null meets a map that lacks its key.

Main results:

- Theorem `at_cut`, `at_of_cut`: what is at the paths of a document that was cut.
- Theorem `fails_iff_nullForMissing`: what makes a merge of trees throw.
- Theorem `result_cut`: a merge of trees does not need a null for a missing key.
- Theorem `mergeNodes_ordinary_iff`: the same for `mergeNodes`.
-/

namespace DtCore
namespace Utils
namespace Conf

/-! ## A document without an entry -/

/-- The entries of a map after a cut at a key. -/
def cutEntries (key : String) (cut : Doc → Option Doc) (es : List (Key × Doc)) :
    List (Key × Doc) :=
  es.filterMap (fun e => if e.1.matches key then (cut e.2).map (fun d => (e.1, d)) else some e)

/-- Leave out what is at a path of keys; nothing is left without the root. -/
def Doc.cut : List String → Doc → Option Doc
  | [], _ => none
  | key :: path, .map es => some (.map (cutEntries key (Doc.cut path) es))
  | _ :: _, d => some d

theorem cut_map (key : String) (path : List String) (es : List (Key × Doc)) :
    Doc.cut (key :: path) (.map es) = some (.map (cutEntries key (Doc.cut path) es)) :=
  rfl

theorem cut_of_not_isMap {d : Doc} (hd : ¬ d.IsMap) (key : String) (path : List String) :
    Doc.cut (key :: path) d = some d := by
  cases d <;> simp_all [Doc.cut, Doc.IsMap]

/-- Below a key something is left, however deep the cut is. -/
theorem exists_cut {path : List String} (hpath : path ≠ []) (d : Doc) :
    ∃ d', Doc.cut path d = some d' := by
  cases path with
  | nil => exact absurd rfl hpath
  | cons key path =>
      by_cases hd : d.IsMap
      · cases d with
        | map es => exact ⟨_, cut_map key path es⟩
        | _ => exact hd.elim
      · exact ⟨d, cut_of_not_isMap hd key path⟩

/-- An entry of another key stays. -/
theorem cutEntries_of_not_matches {key : String} (cut : Doc → Option Doc) {k : Key} (v : Doc)
    (es : List (Key × Doc)) (hk : ¬ k.matches key = true) :
    cutEntries key cut ((k, v) :: es) = (k, v) :: cutEntries key cut es := by
  simp [cutEntries, hk]

/-- An entry of which nothing is left goes. -/
theorem cutEntries_of_none {key : String} {cut : Doc → Option Doc} {k : Key} {v : Doc}
    (es : List (Key × Doc)) (hk : k.matches key = true) (hv : cut v = none) :
    cutEntries key cut ((k, v) :: es) = cutEntries key cut es := by
  simp [cutEntries, hk, hv]

theorem cutEntries_of_some {key : String} {cut : Doc → Option Doc} {k : Key} {v d : Doc}
    (es : List (Key × Doc)) (hk : k.matches key = true) (hv : cut v = some d) :
    cutEntries key cut ((k, v) :: es) = (k, d) :: cutEntries key cut es := by
  simp [cutEntries, hk, hv]

/-- Of all values something is left, or of none. -/
theorem cut_eq_none_iff {path : List String} {d : Doc} : Doc.cut path d = none ↔ path = [] := by
  constructor
  · intro h
    by_contra hpath
    rcases exists_cut hpath d with ⟨d', hd'⟩
    rw [h] at hd'
    contradiction
  · rintro rfl
    rfl

/-- The value of a key in a map that was cut. -/
theorem findKey_cutEntries (key : String) (path : List String) (es : List (Key × Doc))
    (key' : String) :
    findKey key' (cutEntries key (Doc.cut path) es) =
      if key' = key then (findKey key es).bind (Doc.cut path) else findKey key' es := by
  induction es with
  | nil => simp [cutEntries, findKey]
  | cons e es ih =>
      rcases e with ⟨k, v⟩
      by_cases hk : k.matches key = true
      · cases hv : Doc.cut path v with
        | none =>
            -- so are the entries of the same key behind it
            have hpath := cut_eq_none_iff.mp hv
            rw [cutEntries_of_none es hk hv, ih, findKey, if_pos hk]
            by_cases hkey : key' = key
            · rw [if_pos hkey, if_pos hkey, Option.bind_some, hv, hpath]
              cases findKey key es with
              | none => rfl
              | some w => rfl
            · have hk' : ¬ k.matches key' = true := by
                rw [Key.matches_iff] at hk ⊢
                rw [hk, Key.scalar.injEq]
                exact Ne.symm hkey
              rw [if_neg hkey, if_neg hkey, findKey, if_neg hk']
        | some d =>
            rw [cutEntries_of_some es hk hv, findKey, findKey, findKey, if_pos hk]
            by_cases hkey : key' = key
            · subst hkey
              rw [if_pos hk, if_pos rfl, Option.bind_some, hv]
            · have hk' : ¬ k.matches key' = true := by
                rw [Key.matches_iff] at hk ⊢
                rw [hk, Key.scalar.injEq]
                exact Ne.symm hkey
              rw [if_neg hk', if_neg hk', if_neg hkey, ih, if_neg hkey]
      · rw [cutEntries_of_not_matches _ v es hk, findKey, findKey, findKey, if_neg hk, ih]
        by_cases hk' : k.matches key' = true
        · have hkey : key' ≠ key := by
            rintro rfl
            exact hk hk'
          rw [if_pos hk', if_pos hk', if_neg hkey]
        · rw [if_neg hk', if_neg hk']

/-- The keys that are left stand in their order. -/
theorem keys_cutEntries (key : String) (path : List String) (es : List (Key × Doc)) :
    ((cutEntries key (Doc.cut path) es).map Prod.fst).Sublist (es.map Prod.fst) := by
  induction es with
  | nil => exact List.Sublist.slnil
  | cons e es ih =>
      rcases e with ⟨k, v⟩
      by_cases hk : k.matches key = true
      · cases hv : Doc.cut path v with
        | none =>
            rw [cutEntries_of_none es hk hv]
            exact ih.cons _
        | some d =>
            rw [cutEntries_of_some es hk hv]
            exact ih.cons_cons _
      · rw [cutEntries_of_not_matches _ v es hk]
        exact ih.cons_cons _

/-! ## Paths -/

/-- Cutting out a null leaves every path alone that does not lead to it. -/
theorem at_cut {d d' : Doc} {p q : List String} (h : Doc.cut p d = some d')
    (hnull : d.at p = some .null) (hq : ¬ q <+: p) : d'.at q = d.at q := by
  induction p generalizing d d' q with
  | nil => contradiction
  | cons key path ih =>
      cases q with
      | nil => exact absurd (List.nil_prefix) hq
      | cons key' q =>
          by_cases hd : d.IsMap
          · cases d with
            | map es =>
                rw [cut_map, Option.some.injEq] at h
                subst h
                rw [at_map_cons, at_map_cons, findKey_cutEntries]
                by_cases hkey : key' = key
                · subst hkey
                  rw [at_map_cons] at hnull
                  rw [if_pos rfl]
                  have hq' : ¬ q <+: path := by
                    intro hfront
                    exact hq ((List.prefix_cons_inj key').mpr hfront)
                  cases hv : findKey key' es with
                  | none => rfl
                  | some v =>
                      rw [hv, Option.bind_some] at hnull
                      rw [Option.bind_some, Option.bind_some]
                      cases hcut : Doc.cut path v with
                      | none =>
                          -- the null itself: nothing is below it
                          have hpath := cut_eq_none_iff.mp hcut
                          rw [hpath, Doc.at, Option.some.injEq] at hnull
                          subst hnull
                          cases q with
                          | nil => exact absurd List.nil_prefix hq'
                          | cons key₂ q => rfl
                      | some v' => exact ih hcut hnull hq'
                · rw [if_neg hkey]
            | _ => exact hd.elim
          · rw [cut_of_not_isMap hd, Option.some.injEq] at h
            rw [h]

/-- What is left at a path was there before, or something of which a part was cut. -/
theorem at_of_cut {d d' w : Doc} {p q : List String} (h : Doc.cut p d = some d')
    (hw : d'.at q = some w) : ∃ x, d.at q = some x ∧ (w = x ∨ ∃ p', Doc.cut p' x = some w) := by
  induction p generalizing d d' q with
  | nil => contradiction
  | cons key path ih =>
      cases q with
      | nil =>
          rw [Doc.at, Option.some.injEq] at hw
          subst hw
          exact ⟨d, rfl, Or.inr ⟨key :: path, h⟩⟩
      | cons key' q =>
          by_cases hd : d.IsMap
          · cases d with
            | map es =>
                rw [cut_map, Option.some.injEq] at h
                subst h
                rw [at_map_cons, findKey_cutEntries] at hw
                rw [at_map_cons]
                by_cases hkey : key' = key
                · subst hkey
                  rw [if_pos rfl, Option.bind_eq_some_iff] at hw
                  rcases hw with ⟨v', hv', hw⟩
                  rw [Option.bind_eq_some_iff] at hv'
                  rcases hv' with ⟨v, hv, hcut⟩
                  rw [hv]
                  exact ih hcut hw
                · rw [if_neg hkey] at hw
                  exact ⟨w, hw, Or.inl rfl⟩
            | _ => exact hd.elim
          · rw [cut_of_not_isMap hd, Option.some.injEq] at h
            rw [h]
            exact ⟨w, hw, Or.inl rfl⟩

theorem at_null_of_cut {d d' : Doc} {p q : List String} (h : Doc.cut p d = some d')
    (hnull : d'.at q = some .null) : d.at q = some .null := by
  rcases at_of_cut h hnull with ⟨x, hx, rfl | ⟨p', hcut⟩⟩
  · exact hx
  · cases p' with
    | nil => contradiction
    | cons key path =>
        cases x <;> simp_all [Doc.cut]

theorem Doc.UniqueKeys.cut {d d' : Doc} {p : List String} (hunique : d.UniqueKeys)
    (h : Doc.cut p d = some d') : d'.UniqueKeys := by
  intro path es hes
  rcases at_of_cut h hes with ⟨x, hx, rfl | ⟨p', hcut⟩⟩
  · exact hunique path es hx
  · cases p' with
    | nil => contradiction
    | cons key path' =>
        cases x with
        | map xs =>
            rw [cut_map, Option.some.injEq, Doc.map.injEq] at hcut
            subst hcut
            rcases hunique path xs hx with ⟨hscalar, hnodup⟩
            have hkeys := keys_cutEntries key path' xs
            constructor
            · intro e he
              rcases List.mem_map.mp (hkeys.subset (List.mem_map_of_mem he)) with ⟨e', he', heq⟩
              rw [← heq]
              exact hscalar e' he'
            · exact hnodup.sublist hkeys
        | _ => simp [Doc.cut] at hcut

/-! ## Merging trees -/

/-- At the path of a map of the override stands a map of the base, and the override has
a null for a key that the map of the base lacks. -/
def NullForMissing (base ov : Doc) : Prop :=
  ∃ path key bs, base.at path = some (.map bs) ∧ findKey key bs = none ∧
    ov.at (path ++ [key]) = some .null

theorem NullForMissing.isMap {base ov : Doc} (h : NullForMissing base ov) :
    base.IsMap ∧ ov.IsMap := by
  rcases h with ⟨path, key, bs, hbase, _, hover⟩
  constructor
  · cases path with
    | nil =>
        rw [Doc.at, Option.some.injEq] at hbase
        rw [hbase]
        trivial
    | cons key' path =>
        by_contra hd
        rw [not_at_of_not_isMap hd] at hbase
        contradiction
  · by_contra ho
    cases path with
    | nil =>
        rw [List.nil_append, not_at_of_not_isMap ho] at hover
        contradiction
    | cons key' path =>
        rw [List.cons_append, not_at_of_not_isMap ho] at hover
        contradiction

/-- Two maps: a null meets a missing key at one of the keys of the override. -/
theorem nullForMissing_map {bs os : List (Key × Doc)} :
    NullForMissing (.map bs) (.map os) ↔
      ∃ key v, findKey key os = some v ∧
        ((findKey key bs = none ∧ v = .null) ∨
          ∃ x, findKey key bs = some x ∧ NullForMissing x v) := by
  constructor
  · rintro ⟨path, key, bs', hbase, hmissing, hover⟩
    cases path with
    | nil =>
        rw [Doc.at, Option.some.injEq, Doc.map.injEq] at hbase
        subst hbase
        rw [List.nil_append, at_map_cons, Option.bind_eq_some_iff] at hover
        rcases hover with ⟨v, hv, hnull⟩
        exact ⟨key, v, hv, Or.inl ⟨hmissing, Option.some.inj hnull⟩⟩
    | cons key' path =>
        rw [at_map_cons, Option.bind_eq_some_iff] at hbase
        rw [List.cons_append, at_map_cons, Option.bind_eq_some_iff] at hover
        rcases hbase with ⟨x, hx, hbase⟩
        rcases hover with ⟨v, hv, hover⟩
        exact ⟨key', v, hv, Or.inr ⟨x, hx, path, key, bs', hbase, hmissing, hover⟩⟩
  · rintro ⟨key, v, hv, ⟨hmissing, rfl⟩ | ⟨x, hx, path, key', bs', hbase, hmissing, hover⟩⟩
    · exact ⟨[], key, bs, rfl, hmissing, by rw [List.nil_append, at_map_cons, hv]; rfl⟩
    · refine ⟨key :: path, key', bs', ?_, hmissing, ?_⟩
      · rw [at_map_cons, hx]
        exact hbase
      · rw [List.cons_append, at_map_cons, hv]
        exact hover

section Trees

variable {keyString : Key → Option String} {concat : Bool}

theorem findKey_of_mem {es : List (Key × Doc)} {text : String} {v : Doc}
    (hnodup : (es.map Prod.fst).Nodup) (h : (.scalar text, v) ∈ es) :
    findKey text es = some v := by
  induction es with
  | nil => contradiction
  | cons e es ih =>
      rcases e with ⟨k, w⟩
      rw [List.map_cons, List.nodup_cons] at hnodup
      rcases List.mem_cons.mp h with heq | hmem
      · rw [← heq]
        simp [findKey, Key.matches]
      · have hne : ¬ k.matches text = true := by
          rw [Key.matches_iff]
          intro hk
          apply hnodup.1
          rw [hk]
          exact List.mem_map.mpr ⟨_, hmem, rfl⟩
        rw [findKey, if_neg hne]
        exact ih hnodup.2 hmem

theorem keyStrings_of_scalar (hks : ∀ text, keyString (.scalar text) = some text)
    {es : List (Key × Doc)} (hscalar : ∀ e ∈ es, ∃ text, e.1 = .scalar text) :
    (keyStrings keyString es).map Key.scalar = es.map Prod.fst := by
  induction es with
  | nil => rfl
  | cons e es ih =>
      rw [List.forall_mem_cons] at hscalar
      rcases hscalar with ⟨⟨text, htext⟩, hscalar⟩
      have hcons : keyStrings keyString (e :: es) = text :: keyStrings keyString es := by
        simp [keyStrings, htext, hks]
      rw [hcons, List.map_cons, List.map_cons, ih hscalar, htext]

/-- Unique scalar keys are unique strings. -/
theorem uniqueStrings_of_uniqueKeys (hks : ∀ text, keyString (.scalar text) = some text) (n : Nat)
    {d : Doc} (h : d.UniqueKeys) : UniqueStrings keyString n d := by
  induction n generalizing d with
  | zero => trivial
  | succ n ih =>
      by_cases hd : d.IsMap
      · cases d with
        | map es =>
            rcases h.entries with ⟨hscalar, hnodup⟩
            constructor
            · apply List.Nodup.of_map Key.scalar
              rw [keyStrings_of_scalar hks hscalar]
              exact hnodup
            · intro e he
              rcases hscalar e he with ⟨text, htext⟩
              have hmem : (Key.scalar text, e.2) ∈ es := by
                rw [← htext]
                exact he
              exact ih (h.child (findKey_of_mem hnodup hmem))
        | _ => exact hd.elim
      · cases d <;> first | trivial | exact absurd trivial hd

/-- A merge of documents with unique scalar keys throws exactly when a null meets a map
that lacks its key. -/
theorem fails_iff_nullForMissing (hks : ∀ text, keyString (.scalar text) = some text) {n : Nat}
    {d o : Doc} (hdepth : o.DepthLt n) (hunique : o.UniqueKeys) :
    Fails keyString n d o ↔ NullForMissing d o := by
  induction n generalizing d o with
  | zero => exact hdepth.elim
  | succ n ih =>
      by_cases hmaps : d.IsMap ∧ o.IsMap
      · cases d with
        | map bs =>
            cases o with
            | map os =>
                rcases hunique.entries with ⟨hscalar, hnodup⟩
                have hentry : ∀ text v, (Key.scalar text, v) ∈ os →
                    (EntryFails keyString (Fails keyString n) bs (.scalar text, v) ↔
                      (findKey text bs = none ∧ v = .null) ∨
                        ∃ x, findKey text bs = some x ∧ NullForMissing x v) := by
                  intro text v hmem
                  have hv : v.UniqueKeys := hunique.child (findKey_of_mem hnodup hmem)
                  simp only [EntryFails, hks]
                  cases hx : findKey text bs with
                  | none => cases v <;> simp [Doc.HasContent]
                  | some x =>
                      have hiff : Fails keyString n x v ↔ NullForMissing x v :=
                        ih (hdepth (.scalar text, v) hmem) hv
                      have hdefined : NullForMissing x v → v ≠ .undefined := by
                        rintro h rfl
                        exact h.isMap.2
                      simp only [hiff]
                      simpa using hdefined
                rw [Fails, nullForMissing_map]
                constructor
                · rintro ⟨⟨k, v⟩, he, hfails⟩
                  rcases hscalar _ he with ⟨text, htext⟩
                  simp only at htext
                  subst htext
                  exact ⟨text, v, findKey_of_mem hnodup he, (hentry text v he).mp hfails⟩
                · rintro ⟨text, v, hv, h⟩
                  have hmem := mem_of_findKey hv
                  exact ⟨_, hmem, (hentry text v hmem).mpr h⟩
            | _ => exact hmaps.2.elim
        | _ => exact hmaps.1.elim
      · constructor
        · intro hfails
          exfalso
          apply hmaps
          unfold Fails at hfails
          split at hfails
          · exact ⟨trivial, trivial⟩
          · exact hfails.elim
        · exact fun h => absurd h.isMap hmaps

/-- What a loop that returns leaves at a key depends only on what the override has there. -/
theorem mergeEntriesDoc_congr (hks : ∀ text, keyString (.scalar text) = some text)
    {merge : Option Doc → Doc → Option DocEnd} {bs os os' bs₁ bs₂ : List (Key × Doc)}
    (hunique : (Doc.map os).UniqueKeys) (hunique' : (Doc.map os').UniqueKeys)
    (h : mergeEntriesDoc keyString merge bs os = some (bs₁, true))
    (h' : mergeEntriesDoc keyString merge bs os' = some (bs₂, true)) {key : String}
    (hkey : findKey key os' = findKey key os) : findKey key bs₁ = findKey key bs₂ := by
  have hfind := mergeEntriesDoc_find hks hunique.entries.1 hunique.entries.2 h key
  have hfind' := mergeEntriesDoc_find hks hunique'.entries.1 hunique'.entries.2 h' key
  rw [hkey] at hfind'
  cases hv : findKey key os with
  | none =>
      rw [hv] at hfind hfind'
      exact hfind.trans hfind'.symm
  | some v =>
      rw [hv] at hfind hfind'
      cases v with
      | undefined => exact hfind.trans hfind'.symm
      | _ =>
          rcases hfind with ⟨e, hm, _, hbs⟩
          rcases hfind' with ⟨e', hm', _, hbs'⟩
          rw [hm, Option.some.injEq] at hm'
          rw [hbs, hbs', hm']

/-- The merge of a map into something that is no map returns the map. -/
theorem mergeDoc_takes_map {n : Nat} {b : Option Doc} {os : List (Key × Doc)} {e : DocEnd}
    (h : mergeDoc keyString concat n b (.map os) = some e) (hb : ∀ d, b = some d → ¬ d.IsMap) :
    e.result (.map os) = some (.map os) := by
  cases n with
  | zero => simp [mergeDoc] at h
  | succ n =>
      cases b with
      | none =>
          rw [mergeDoc, Option.some.injEq] at h
          · rw [← h]
            rfl
          all_goals simp
      | some d =>
          have hd := hb d rfl
          cases d with
          | map es => exact absurd trivial hd
          | _ =>
              simp only [mergeDoc, Option.some.injEq] at h
              rw [← h]
              rfl

/-- Two merges of trees, of an override and of what is left of it without a null for a
missing key, agree off the path of the null. -/
def CutAgrees (keyString : Key → Option String) (concat : Bool) (n : Nat) : Prop :=
  ∀ (d o o' r r' : Doc) (e e' : DocEnd) (p q : List String),
    mergeDoc keyString concat n (some d) o = some e → e.takes ≠ .threw → e.result o = some r →
    mergeDoc keyString concat n (some d) o' = some e' → e'.takes ≠ .threw →
    e'.result o' = some r' → o.UniqueKeys → Doc.cut p o = some o' → o.at p = some .null →
    d.at p = none → ¬ q <+: p → r'.at q = r.at q

/-- What the two loops leave at the key below which the null is. -/
theorem value_cut (hks : ∀ text, keyString (.scalar text) = some text) {n : Nat}
    (ih : CutAgrees keyString concat n) {bs os bs₁ bs₂ : List (Key × Doc)} {key : String}
    {path q : List String} {v : Doc} (hunique : (Doc.map os).UniqueKeys)
    (hloop : mergeEntriesDoc keyString (mergeDoc keyString concat n) bs os = some (bs₁, true))
    (hloop' : mergeEntriesDoc keyString (mergeDoc keyString concat n) bs
      (cutEntries key (Doc.cut path) os) = some (bs₂, true))
    (hv : findKey key os = some v) (hnull : v.at path = some .null)
    (hmissing : (findKey key bs).bind (fun d => d.at path) = none) (hq : ¬ q <+: path) :
    (findKey key bs₂).bind (fun d => d.at q) = (findKey key bs₁).bind (fun d => d.at q) := by
  have hunique' : (Doc.map (cutEntries key (Doc.cut path) os)).UniqueKeys :=
    hunique.cut (cut_map key path os)
  have hfind := mergeEntriesDoc_find hks hunique.entries.1 hunique.entries.2 hloop key
  have hfind' := mergeEntriesDoc_find hks hunique'.entries.1 hunique'.entries.2 hloop' key
  rw [findKey_cutEntries, if_pos rfl, hv, Option.bind_some] at hfind'
  rw [hv] at hfind
  cases path with
  | nil =>
      -- the null stands at the key, which the base does not have
      rw [Doc.at, Option.some.injEq] at hnull
      subst hnull
      have hnone : findKey key bs = none := by
        cases hx : findKey key bs with
        | none => rfl
        | some x =>
            rw [hx] at hmissing
            contradiction
      rw [hnone] at hfind hfind'
      rcases hfind with ⟨e, hm, htakes, hbs⟩
      rcases mergeDoc_none hm with ⟨hbase, htake, _⟩
      have hresult : e.result .null = none := by
        rw [DocEnd.result, htake.mpr (fun h => h), hbase]
      have hbs' : findKey key bs₂ = none := hfind'
      rw [hbs, hresult, hbs']
  | cons key₂ path =>
      have hmap : v.IsMap := by
        by_contra hmap
        rw [not_at_of_not_isMap hmap] at hnull
        contradiction
      cases v with
      | map vs =>
          rw [cut_map] at hfind'
          rcases hfind with ⟨e, hm, htakes, hbs⟩
          rcases hfind' with ⟨e', hm', htakes', hbs'⟩
          rw [hbs, hbs']
          cases hx : findKey key bs with
          | none =>
              rw [hx] at hm hm'
              rw [mergeDoc_takes_map hm (by simp), mergeDoc_takes_map hm' (by simp)]
              exact at_cut (cut_map key₂ path vs) hnull hq
          | some x =>
              rw [hx] at hm hm' hmissing
              rcases exists_result hm htakes with ⟨r, hr⟩
              rcases exists_result hm' htakes' with ⟨r', hr'⟩
              rw [hr, hr']
              exact ih x _ _ r r' e e' _ q hm htakes hr hm' htakes' hr' (hunique.child hv)
                (cut_map key₂ path vs) hnull hmissing hq
      | _ => exact hmap.elim

theorem result_cut_maps (hks : ∀ text, keyString (.scalar text) = some text) {n : Nat}
    (ih : CutAgrees keyString concat n) {bs os bs₁ bs₂ : List (Key × Doc)} {key key' : String}
    {path q : List String} (hunique : (Doc.map os).UniqueKeys)
    (hloop : mergeEntriesDoc keyString (mergeDoc keyString concat n) bs os = some (bs₁, true))
    (hloop' : mergeEntriesDoc keyString (mergeDoc keyString concat n) bs
      (cutEntries key (Doc.cut path) os) = some (bs₂, true))
    (hnull : (Doc.map os).at (key :: path) = some .null)
    (hmissing : (Doc.map bs).at (key :: path) = none) (hq : ¬ key' :: q <+: key :: path) :
    (Doc.map bs₂).at (key' :: q) = (Doc.map bs₁).at (key' :: q) := by
  rw [at_map_cons, at_map_cons]
  by_cases hkey : key' = key
  · subst hkey
    rw [at_map_cons, Option.bind_eq_some_iff] at hnull
    rcases hnull with ⟨v, hv, hnull⟩
    have hq' : ¬ q <+: path := by
      intro hfront
      exact hq ((List.prefix_cons_inj key').mpr hfront)
    exact value_cut hks ih hunique hloop hloop' hv hnull hmissing hq'
  · have hsame : findKey key' (cutEntries key (Doc.cut path) os) = findKey key' os := by
      rw [findKey_cutEntries, if_neg hkey]
    rw [mergeEntriesDoc_congr hks hunique (hunique.cut (cut_map key path os)) hloop hloop' hsame]

/-- The merge of trees does not need a null for a key that the base does not have. -/
theorem result_cut (hks : ∀ text, keyString (.scalar text) = some text) (n : Nat) :
    CutAgrees keyString concat n := by
  induction n with
  | zero =>
      intro d o o' r r' e e' p q h
      simp [mergeDoc] at h
  | succ n ih =>
      intro d o o' r r' e e' p q h htakes hr h' htakes' hr' hunique hcut hnull hmissing hq
      cases p with
      | nil => contradiction
      | cons key path =>
          cases q with
          | nil => exact absurd List.nil_prefix hq
          | cons key' q =>
              have ho : o.IsMap := by
                by_contra ho
                rw [not_at_of_not_isMap ho] at hnull
                contradiction
              cases o with
              | map os =>
                  rw [cut_map, Option.some.injEq] at hcut
                  subst hcut
                  by_cases hd : d.IsMap
                  · cases d with
                    | map bs =>
                        simp only [mergeDoc, Option.map_eq_some_iff, Prod.exists] at h h'
                        rcases h with ⟨bs₁, ok, hloop, rfl⟩
                        rcases h' with ⟨bs₂, ok', hloop', rfl⟩
                        cases ok with
                        | false => simp at htakes
                        | true =>
                            cases ok' with
                            | false => simp at htakes'
                            | true =>
                                rw [DocEnd.result, if_pos rfl, Option.some.injEq] at hr hr'
                                rw [← hr, ← hr']
                                exact result_cut_maps hks ih hunique hloop hloop' hnull hmissing
                                  hq
                    | _ => exact hd.elim
                  · -- the override is returned whole
                    have hno : ∀ d', some d = some d' → ¬ d'.IsMap := by
                      intro d' hd'
                      rw [← Option.some.inj hd']
                      exact hd
                    rw [mergeDoc_takes_map h hno, Option.some.injEq] at hr
                    rw [mergeDoc_takes_map h' hno, Option.some.injEq] at hr'
                    rw [← hr, ← hr']
                    exact at_cut (cut_map key path os) hnull hq
              | _ => exact ho.elim

end Trees

/-! ## Merging nodes -/

variable {Y : YamlCpp} {concat : Bool}

/-- Two documents that share nothing, in one heap. -/
structure Ordinary (Y : YamlCpp) (s : Y.Heap) (k : Nat) (b o : Y.Node) (base ov : Doc) :
    Prop where
  base : Tree Y s k b base
  ov : Tree Y s k o ov
  disjoint : ((Y.graph s).refs k b ++ (Y.graph s).refs k o).Nodup

/-- The merge returns a node below which a path leads to a document. -/
def MergeGives (Y : YamlCpp) (concat : Bool) (k : Nat) (s : Y.Heap) (b o : Y.Node)
    (path : List String) (d : Doc) : Prop :=
  ∃ heap n, mergeNodes Y concat k s (some b) o = .returned heap (some n) ∧
    Gives Y { heap := heap, rootNode := n } path d

/-- The merge returns, and a null for a key that the base does not have leaves every other
lookup as in the merge without that key. -/
structure MergesOrdinarily (Y : YamlCpp) (concat : Bool) (k : Nat) (s : Y.Heap) (b o : Y.Node)
    (base ov : Doc) : Prop where
  returns : ∃ heap n, mergeNodes Y concat k s (some b) o = .returned heap (some n)
  ignores : ∀ p ov', ov.at p = some .null → base.at p = none → Doc.cut p ov = some ov' →
    ∀ s' b' o', Ordinary Y s' k b' o' base ov' →
      (∃ heap n, mergeNodes Y concat k s' (some b') o' = .returned heap (some n)) ∧
        ∀ path d, ¬ path <+: p →
          (MergeGives Y concat k s b o path d ↔ MergeGives Y concat k s' b' o' path d)

/-- How the merge of two trees ends. -/
theorem Ordinary.merge (hY : Y.Documented) {s : Y.Heap} {k : Nat} {b o : Y.Node}
    {base ov : Doc} (h : Ordinary Y s k b o base ov) (concat : Bool) :
    ∃ e, mergeDoc Y.keyString concat k (some base) ov = some e ∧
      ((e.takes = .threw ∧ ∃ heap, mergeNodes Y concat k s (some b) o = .threw heap) ∨
        (e.takes ≠ .threw ∧ ∃ heap n r,
          mergeNodes Y concat k s (some b) o = .returned heap (some n) ∧
            e.result ov = some r ∧ (Y.graph heap).Denotes k n r)) := by
  rcases mergeNodes_refines hY concat k s b o base ov h.base h.ov h.disjoint with
    ⟨⟨base', takes⟩, heap, d', he, hbase, hrebuilt, hoverride, hrun⟩
  simp only at hbase hoverride hrun
  subst hbase
  apply Exists.intro _
  apply And.intro he
  cases takes with
  | base =>
      right
      exact ⟨by simp, heap, b, d', hrun, rfl, hrebuilt.tree.denotes⟩
  | override =>
      right
      rcases hoverride rfl with ⟨rfl, _⟩
      exact ⟨by simp, heap, o, ov, hrun, rfl, h.ov.denotes⟩
  | threw =>
      left
      exact ⟨rfl, heap, hrun⟩

/-- The merge of two trees returns exactly when no null meets a map that lacks its key. -/
theorem Ordinary.returns_iff (hY : Y.Documented) {s : Y.Heap} {k : Nat} {b o : Y.Node}
    {base ov : Doc} (h : Ordinary Y s k b o base ov) (hunique : ov.UniqueKeys)
    (concat : Bool) :
    (∃ heap n, mergeNodes Y concat k s (some b) o = .returned heap (some n)) ↔
      ¬ NullForMissing base ov := by
  have hks := hY.keyString_scalar
  rcases h.merge hY concat with ⟨e, he, hend⟩
  have hstrings := uniqueStrings_of_uniqueKeys hks k hunique
  rw [← fails_iff_nullForMissing hks h.ov.denotes.depthLt hunique,
    ← mergeDoc_fails_iff hstrings he]
  rcases hend with ⟨hthrew, heap, hrun⟩ | ⟨hreturns, heap, n, r, hrun, _⟩
  · simp [hthrew, hrun]
  · simp [hreturns, hrun]

/-- Two merges of trees that agree at a path give the same there. -/
theorem mergeGives_iff (hY : Y.Documented) {s : Y.Heap} {k : Nat} {b o : Y.Node}
    {base ov r : Doc} {e : DocEnd} (h : Ordinary Y s k b o base ov)
    (he : mergeDoc Y.keyString concat k (some base) ov = some e) (htakes : e.takes ≠ .threw)
    (hr : e.result ov = some r) (path : List String) (d : Doc) :
    MergeGives Y concat k s b o path d ↔ r.at path = some d := by
  rcases h.merge hY concat with ⟨e', he', ⟨hthrew, _⟩ | ⟨_, heap, n, r', hrun, hr', hn⟩⟩
  · rw [he, Option.some.injEq] at he'
    rw [he'] at htakes
    exact absurd hthrew htakes
  · rw [he, Option.some.injEq] at he'
    subst he'
    rw [hr, Option.some.injEq] at hr'
    subst hr'
    have hgives := gives_iff hY (s := { heap := heap, rootNode := n }) hn path d
    rw [← hgives]
    constructor
    · rintro ⟨heap', n', hrun', h'⟩
      rw [hrun, Outcome.returned.injEq, Option.some.injEq] at hrun'
      rw [hrun'.1, hrun'.2]
      exact h'
    · exact fun h' => ⟨heap, n, hrun, h'⟩

/-- Merging ordinary documents returns, and ignores nulls for missing keys, exactly when no
null of the override meets a map of the base that lacks its key. -/
theorem mergeNodes_ordinary_iff (hY : Y.Documented) {s : Y.Heap} {k : Nat} {b o : Y.Node}
    {base ov : Doc} (h : Ordinary Y s k b o base ov) (hunique : ov.UniqueKeys) :
    MergesOrdinarily Y concat k s b o base ov ↔ ¬ NullForMissing base ov := by
  have hreturns := h.returns_iff hY hunique concat
  constructor
  · exact fun hmerges => hreturns.mp hmerges.returns
  · intro hno
    apply MergesOrdinarily.mk (hreturns.mpr hno)
    intro p ov' hnull hmissing hcut s' b' o' h'
    have hunique' := hunique.cut hcut
    -- without the entry there is no null that was not there before
    have hno' : ¬ NullForMissing base ov' := by
      rintro ⟨path, key, bs, hbase, hkey, hover⟩
      exact hno ⟨path, key, bs, hbase, hkey, at_null_of_cut hcut hover⟩
    have hreturns' := (h'.returns_iff hY hunique' concat).mpr hno'
    apply And.intro hreturns'
    intro path d hpath
    rcases hreturns.mpr hno with ⟨heap, n, hrun⟩
    rcases hreturns' with ⟨heap', n', hrun'⟩
    rcases h.merge hY concat with ⟨e, he, ⟨_, heap₁, hthrew⟩ | ⟨htakes, _, _, r, _, hr, _⟩⟩
    · rw [hrun] at hthrew
      contradiction
    · rcases h'.merge hY concat with
        ⟨e', he', ⟨_, heap₂, hthrew⟩ | ⟨htakes', _, _, r', _, hr', _⟩⟩
      · rw [hrun'] at hthrew
        contradiction
      · rw [mergeGives_iff hY h he htakes hr, mergeGives_iff hY h' he' htakes' hr',
          result_cut hY.keyString_scalar k base ov ov' r r' e e' p path he htakes hr he'
            htakes' hr' hunique hcut hnull hmissing hpath]

/-- The document `a:`, `c: {d: }`: two nulls, one of them for a key of a new map. -/
def nullsBelow : Doc :=
  .map [(.scalar "a", .null), (.scalar "c", .map [(.scalar "d", .null)])]

/-- Documents that were read are ordinary. -/
theorem loaded_ordinary {k : Nat} {ov : Doc} (hbase : docA.DepthLt k) (hover : ov.DepthLt k) :
    Ordinary cellYaml ((construct cellYaml Heap.empty docA).heap.load ov).1 k
      (construct cellYaml Heap.empty docA).rootNode
      ((construct cellYaml Heap.empty docA).heap.load ov).2 docA ov := by
  have htree := construct_tree cellYaml_documented Heap.empty hbase
  rcases load_trees cellYaml_documented htree (load_loads _ ov) hover with ⟨hb, ho, hdisj⟩
  exact ⟨hb, ho, hdisj⟩

/-- The nulls are for a key that the base has and in a map that it does not have. -/
theorem not_nullForMissing_nullsBelow : ¬ NullForMissing docA nullsBelow := by
  unfold docA nullsBelow
  rw [nullForMissing_map]
  rintro ⟨key, v, hv, ⟨hmissing, rfl⟩ | ⟨x, hx, hbelow⟩⟩
  · by_cases ha : "a" = key
    · simp [findKey, Key.matches_iff, ha] at hmissing
    · simp [findKey, Key.matches_iff, ha] at hv
  · by_cases ha : "a" = key
    · simp [findKey, Key.matches_iff, ha] at hx
      subst hx
      exact hbelow.isMap.1
    · simp [findKey, Key.matches_iff, ha] at hx

theorem mergeNodes_ordinary_iff_nullsBelow :
    MergesOrdinarily cellYaml true 3
      ((construct cellYaml Heap.empty docA).heap.load nullsBelow).1
      (construct cellYaml Heap.empty docA).rootNode
      ((construct cellYaml Heap.empty docA).heap.load nullsBelow).2 docA nullsBelow := by
  have hnull : Doc.null.UniqueKeys := uniqueKeys_of_not_isMap (fun h => h)
  have hsection : (Doc.map [(.scalar "d", .null)]).UniqueKeys := by
    apply uniqueKeys_map <;> simp [hnull]
  have hunique : nullsBelow.UniqueKeys := by
    apply uniqueKeys_map <;> simp [hnull, hsection]
  exact (mergeNodes_ordinary_iff cellYaml_documented
    (loaded_ordinary (by simp [docA, Doc.DepthLt]) (by simp [nullsBelow, Doc.DepthLt]))
      hunique).mpr not_nullForMissing_nullsBelow

/-- Merging `b:` into `a: 1` throws, with either flag. -/
theorem null_for_missing_throws :
    ∃ (s : Heap) (b o : Cell),
      Ordinary cellYaml s 3 b o docA (.map [(.scalar "b", .null)]) ∧
        docA.UniqueKeys ∧ (Doc.map [(.scalar "b", .null)]).UniqueKeys ∧
        ∀ concat, ∃ heap, mergeNodes cellYaml concat 3 s (some b) o = .threw heap := by
  have hscalar : (Doc.scalar "1").UniqueKeys := uniqueKeys_of_not_isMap (fun h => h)
  have hnull : Doc.null.UniqueKeys := uniqueKeys_of_not_isMap (fun h => h)
  have hbase : docA.UniqueKeys := by
    apply uniqueKeys_map <;> simp [hscalar]
  have hover : (Doc.map [(.scalar "b", .null)]).UniqueKeys := by
    apply uniqueKeys_map <;> simp [hnull]
  exact ⟨_, _, _, loaded_ordinary (by simp [docA, Doc.DepthLt]) (by simp [Doc.DepthLt]), hbase,
    hover, fun _ => ⟨_, rfl⟩⟩

end Conf
end Utils
end DtCore
