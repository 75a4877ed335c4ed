import DtCore.Utils.Conf.Heap
import DtCore.Utils.Conf.Overlay
import DtCore.Utils.Conf.Refine

/-!
# Layered configuration lookup

A `Conf` built from a list of documents without sharing looks up, path by path, the
value of the last document that decides about the path.

Main results:

- Theorems `appendNode_refines`, `append_refines`: `Append` refines the merge of trees.
- Theorem `lookup_denotes`: looking up a path of keys follows the document.
- Theorem `layered_lookup`: the value that a list of documents gives to a path.
-/

namespace DtCore
namespace Utils
namespace Conf

variable {Y : YamlCpp}

/-! ## Lookups follow the document -/

/-- Looking up a path of keys follows the document. -/
theorem lookup_denotes (hY : Y.Documented) {s : Y.Heap} {k : Nat} {n : Y.Node} {d : Doc}
    (h : (Y.graph s).Denotes k n d) (path : List String) :
    match d.at path with
    | none => lookup Y s n path = none
    | some v => ∃ m j, lookup Y s n path = some m ∧ (Y.graph s).Denotes j m v := by
  induction path generalizing k n d with
  | nil => exact ⟨n, k, rfl, h⟩
  | cons key path ih =>
      by_cases hmap : d.IsMap
      · cases d with
        | map bs =>
            rcases h.map_view with ⟨es, l, rfl, hview, hes⟩
            have hget := hY.get_map s n es key hview
            have hview' : Y.view s n = .map es := hview
            rw [at_map_cons, lookup, hview']
            simp only [hget]
            cases hkey : findKey key es with
            | none =>
                rw [hes.findKey_none hkey]
                rfl
            | some t =>
                rcases hes.split hkey with
                  ⟨pre, post, preDocs, v, postDocs, _, rfl, _, hpreDocs, _, hv, _⟩
                rw [findKey_of_split hpreDocs]
                exact ih hv
        | _ => simp [Doc.IsMap] at hmap
      · rw [not_at_of_not_isMap hmap]
        have hview : ∀ es, Y.view s n ≠ .map es := by
          intro es hes
          have hes' : (Y.graph s).view n = .map es := hes
          cases k with
          | zero => exact h.elim
          | succ k =>
              unfold Graph.Denotes at h
              rw [hes'] at h
              cases d <;> simp_all [Doc.IsMap]
        rw [lookup]
        cases hv : Y.view s n with
        | map es => exact absurd hv (hview es)
        | _ => rfl

theorem gives_iff (hY : Y.Documented) {s : State Y} {k : Nat} {d : Doc}
    (h : (Y.graph s.heap).Denotes k s.rootNode d) (path : List String) (v : Doc) :
    Gives Y s path v ↔ d.at path = some v := by
  have hlookup := lookup_denotes hY h path
  constructor
  · rintro ⟨n, j, hn, hv⟩
    cases hat : d.at path with
    | none =>
        rw [hat, hn] at hlookup
        contradiction
    | some w =>
        rw [hat] at hlookup
        rcases hlookup with ⟨m, j', hm, hw⟩
        rw [hn, Option.some.injEq] at hm
        subst hm
        rw [Graph.denotes_unique hv hw]
  · intro hat
    rw [hat] at hlookup
    rcases hlookup with ⟨m, j, hm, hv⟩
    exact ⟨m, j, hm, hv⟩

/-! ## `Append` -/

/-- Loading leaves a tree alone and builds a new one. -/
theorem load_trees (hY : Y.Documented) {s s' : Y.Heap} {k : Nat} {n o : Y.Node} {d dov : Doc}
    (hn : Tree Y s k n d) (hload : Y.Loads s dov s' o) (hdepth : dov.DepthLt k) :
    Tree Y s' k n d ∧ Tree Y s' k o dov ∧
      ((Y.graph s').refs k n ++ (Y.graph s').refs k o).Nodup := by
  have hagree : Graph.Agree (Y.graph s) (Y.graph s') ((Y.graph s).cells k n) := by
    intro c hc
    have hc' := hn.alive c hc
    exact ⟨hload.ref_eq c hc', hload.content_eq _ (hY.used_ref s c hc')⟩
  rcases hn.congr hload.mono hagree with ⟨hn', hrefs⟩
  have ho : Tree Y s' k o dov :=
    ⟨hload.denotes k hdepth, hload.unshared k hdepth, hload.alive_new k hdepth⟩
  constructor
  · exact hn'
  · constructor
    · exact ho
    · rw [hrefs, List.nodup_append']
      constructor
      · exact hn.unshared
      · exact ⟨ho.unshared, fun r hr hr' => hload.not_used k hdepth r hr' (hn.used hY hr)⟩

/-- `_rootNode` takes the node of another tree. -/
theorem setRoot_tree (hY : Y.Documented) {s : State Y} {heap : Y.Heap} {k : Nat} {o : Y.Node}
    {d dov : Doc} (hroot : Tree Y heap k s.rootNode d) (ho : Tree Y heap k o dov)
    (hdisj : ((Y.graph heap).refs k s.rootNode ++ (Y.graph heap).refs k o).Nodup) :
    Tree Y (s.setRoot Y heap o).heap k (s.setRoot Y heap o).rootNode dov := by
  have halive := hroot.alive s.rootNode (Graph.self_mem_cells _ _ _)
  have halive' := ho.alive o (Graph.self_mem_cells _ _ _)
  have hassign := hY.assign_node heap s.rootNode o halive halive'
  have hrebuilt := rebuilt_assign hY hroot ho hdisj
  have hne : o ≠ s.rootNode := by
    intro heq
    rw [List.nodup_append'] at hdisj
    apply hdisj.2.2 (List.mem_map_of_mem (Graph.self_mem_cells _ _ _))
    rw [← heq]
    exact List.mem_map_of_mem (Graph.self_mem_cells _ _ _)
  apply hrebuilt.tree.of_ref_eq (hassign.mono.alive o halive')
  rw [hassign.ref_self, hassign.ref_eq o hne]

/-- A default constructed node holds null. -/
theorem default_tree (hY : Y.Documented) (heap : Y.Heap) {k : Nat} (hk : 0 < k) :
    Tree Y (Y.defaultNode heap).1 k (Y.defaultNode heap).2 .null := by
  have hdefault := hY.default_null heap
  have hnull : Doc.null.DepthLt k := by
    cases k with
    | zero => exact absurd hk (Nat.lt_irrefl 0)
    | succ k => trivial
  exact ⟨hdefault.denotes k hnull, hdefault.unshared k hnull, hdefault.alive_new k hnull⟩

/-- A `Conf` that was constructed from a document holds it without sharing. -/
theorem construct_tree (hY : Y.Documented) (heap : Y.Heap) {k : Nat} {d : Doc}
    (hdepth : d.DepthLt k) :
    Tree Y (construct Y heap d).heap k (construct Y heap d).rootNode d := by
  have hk : 0 < k := by
    cases k with
    | zero => exact hdepth.elim
    | succ k => exact Nat.succ_pos k
  have hroot := default_tree hY heap hk
  rcases load_trees hY hroot (hY.load_document _ d) hdepth with ⟨hroot', ho, hdisj⟩
  exact setRoot_tree hY
    (s := { heap := (Y.defaultNode heap).1, rootNode := (Y.defaultNode heap).2 }) hroot' ho hdisj

/-- `Append` of a node without sharing refines `appendDoc`: the root holds the result,
or, after an exception, what the base has become. -/
theorem appendNode_refines (hY : Y.Documented) {s : State Y} {heap : Y.Heap} {n : Y.Node}
    {k : Nat} {root o : Doc} (hdef : isDefined Y s.heap s.rootNode = true ↔ root ≠ .undefined)
    (hroot' : Tree Y heap k s.rootNode root) (ho : Tree Y heap k n o)
    (hdisj : ((Y.graph heap).refs k s.rootNode ++ (Y.graph heap).refs k n).Nodup)
    (override : Bool) :
    ∃ e, appendDoc Y.keyString (!override) k root o = some e ∧
      ((∃ s' r, appendNode Y k s heap n override = .returned s' ∧ e.takes ≠ .threw ∧
          e.result o = some r ∧ Tree Y s'.heap k s'.rootNode r) ∨
        (∃ s' d, appendNode Y k s heap n override = .threw s' ∧ e.takes = .threw ∧
          e.base = some d ∧ Tree Y s'.heap k s'.rootNode d)) := by
  generalize happend : appendNode Y k s heap n override = ended
  unfold appendNode at happend
  by_cases hund : root = .undefined
  · -- an undefined root is replaced
    have hdef' : isDefined Y s.heap s.rootNode = false := by simpa [hund] using hdef
    rw [hdef'] at happend
    apply Exists.intro { base := some root, takes := .override }
    constructor
    · rw [hund]
      rfl
    · left
      exact ⟨_, o, happend.symm, by simp, rfl, setRoot_tree hY hroot' ho hdisj⟩
  · have hdef' : isDefined Y s.heap s.rootNode = true := hdef.mpr hund
    have hdoc : appendDoc Y.keyString (!override) k root o =
        mergeDoc Y.keyString (!override) k (some root) o := by
      cases root <;> first | contradiction | rfl
    rw [hdef'] at happend
    rw [hdoc]
    rcases mergeNodes_refines hY (!override) k heap s.rootNode n root o hroot' ho hdisj with
      ⟨e, heap', d', he, hbase, hrebuilt, hoverride, hrun⟩
    apply Exists.intro e
    constructor
    · exact he
    · by_cases ho' : o = .undefined
      · -- an undefined override is ignored
        have hndef : isDefined Y heap n = false := by
          have hiff := isDefined_iff ho.denotes
          simpa [ho'] using hiff
        rw [hndef] at happend
        left
        apply Exists.intro { s with heap := heap }
        apply Exists.intro root
        constructor
        · exact happend.symm
        · have hend : e = { base := some root, takes := .base } := by
            cases k with
            | zero => exact ho.denotes.elim
            | succ k =>
                rw [ho', mergeDoc, Option.some.injEq] at he
                exact he.symm
          rw [hend]
          exact ⟨by simp, rfl, hroot'⟩
      · have hndef : isDefined Y heap n = true := (isDefined_iff ho.denotes).mpr ho'
        rw [hndef] at happend
        simp only [if_true, hrun] at happend
        rcases e with ⟨base, takes⟩
        simp only at hbase hoverride happend
        subst hbase
        cases takes with
        | base =>
            left
            apply Exists.intro (s.setRoot Y heap' s.rootNode)
            apply Exists.intro d'
            constructor
            · exact happend.symm
            · have halive := hrebuilt.tree.alive s.rootNode (Graph.self_mem_cells _ _ _)
              exact ⟨by simp, rfl, (rebuilt_assign_self hY hrebuilt.tree halive []).1.tree⟩
        | override =>
            left
            have hsame := (hoverride rfl).1
            subst hsame
            exact ⟨s.setRoot Y heap' n, o, happend.symm, by simp, rfl,
              setRoot_tree hY hroot' ho hdisj⟩
        | threw =>
            right
            exact ⟨{ s with heap := heap' }, d', happend.symm, rfl, rfl, hrebuilt.tree⟩

/-- `Append` of a document without sharing refines `appendDoc`: the root holds the
result, or, after an exception, what the base has become. -/
theorem append_refines (hY : Y.Documented) {s : State Y} {k : Nat} {root o : Doc}
    (hroot : Tree Y s.heap k s.rootNode root) (hdepth : o.DepthLt k) (override : Bool) :
    ∃ e, appendDoc Y.keyString (!override) k root o = some e ∧
      ((∃ s' r, append Y k s (some o) override = .returned s' ∧ e.takes ≠ .threw ∧
          e.result o = some r ∧ Tree Y s'.heap k s'.rootNode r) ∨
        (∃ s' d, append Y k s (some o) override = .threw s' ∧ e.takes = .threw ∧
          e.base = some d ∧ Tree Y s'.heap k s'.rootNode d)) := by
  rcases load_trees hY hroot (hY.load_document s.heap o) hdepth with ⟨hroot', ho, hdisj⟩
  exact appendNode_refines hY (isDefined_iff hroot.denotes) hroot' ho hdisj override

/-! ## A list of documents -/

theorem appendAll_refines (hY : Y.Documented) {s : State Y} {k : Nat} {root : Doc}
    {ds : List Doc} (hroot : Tree Y s.heap k s.rootNode root)
    (hdepth : ∀ d ∈ ds, d.DepthLt k) :
    appendAll Y k s ds ≠ .tooDeep ∧
      ∀ s', appendAll Y k s ds = .returned s' →
        ∃ r, layerDocs Y.keyString false k root ds = some r ∧
          Tree Y s'.heap k s'.rootNode r := by
  induction ds generalizing s root with
  | nil =>
      constructor
      · simp [appendAll]
      · intro s' hs'
        simp only [appendAll, Ended.returned.injEq] at hs'
        subst hs'
        exact ⟨root, rfl, hroot⟩
  | cons d ds ih =>
      rw [List.forall_mem_cons] at hdepth
      rcases append_refines hY hroot hdepth.1 true with
        ⟨e, he, ⟨u, r, hu, _, hr, htree⟩ | ⟨u, d', hu, _, _, _⟩⟩
      · rcases ih htree hdepth.2 with ⟨hdeep, hreturns⟩
        constructor
        · simpa only [appendAll, hu] using hdeep
        · intro s' hs'
          simp only [appendAll, hu] at hs'
          rcases hreturns s' hs' with ⟨r', hlayer, htree'⟩
          apply Exists.intro r'
          constructor
          · rw [layerDocs]
            simp only [Bool.not_true] at he
            simp only [he, hr, Option.bind_some]
            exact hlayer
          · exact htree'
      · constructor
        · simp [appendAll, hu]
        · intro s' hs'
          simp [appendAll, hu] at hs'

/-- A depth that the merges of some documents never exceed. -/
def Suffices (k : Nat) (ds : List Doc) : Prop :=
  0 < k ∧ ∀ d ∈ ds, d.DepthLt k

theorem exists_suffices (ds : List Doc) : ∃ k, Suffices k ds := by
  rcases exists_common_depth ds (fun d => d) (fun d _ => d.exists_depthLt) with ⟨k, hk⟩
  exact ⟨k + 1, Nat.succ_pos k, fun d hd => (hk d hd).mono (Nat.le_succ k)⟩

/-- A `Conf` built from documents without sharing, whose maps have unique scalar
keys, looks up the last document that decides about a path. -/
theorem layered_lookup (hY : Y.Documented) (heap : Y.Heap) {ds : List Doc}
    (hunique : ∀ d ∈ ds, d.UniqueKeys) :
    (∃ k, Suffices k ds) ∧
      ∀ k, Suffices k ds → build Y k heap ds ≠ .tooDeep ∧
        ∀ s, build Y k heap ds = .returned s → ∀ path v, v.IsLeaf →
          (Gives Y s path v ↔ Wins ds path v) := by
  constructor
  · exact exists_suffices ds
  · intro k hk
    have hroot := default_tree hY heap hk.1
    rcases appendAll_refines hY
        (s := { heap := (Y.defaultNode heap).1, rootNode := (Y.defaultNode heap).2 }) hroot hk.2
      with ⟨hdeep, hreturns⟩
    constructor
    · exact hdeep
    · intro s hs path v hleaf
      rcases hreturns s hs with ⟨r, hlayer, htree⟩
      rw [gives_iff hY htree.denotes,
        layerDocs_at hY.keyString_scalar hlayer hunique path hleaf]
      have hat := not_at_leaf (d := .null) (by simp [Doc.HasContent]) hleaf path
      simp [hat]

/-- The first document of the example program. -/
def yaml1 : Doc :=
  .map [(.scalar "type", .scalar "leoquad"), (.scalar "name", .scalar "LeoQuad"),
    (.scalar "version", .scalar "v1.0"),
    (.scalar "dynamics", .map [(.scalar "mass", .scalar "-0.03"),
      (.scalar "com", .sequence [.scalar "0.1", .scalar "0.0", .scalar "0.5"])]),
    (.scalar "ubound", .sequence [.scalar "0.5"]), (.scalar "lbound", .sequence [.scalar "0.5"])]

/-- The second one. -/
def yaml2 : Doc :=
  .map [(.scalar "version", .scalar "v1.1"),
    (.scalar "dynamics", .map [(.scalar "com",
      .sequence [.scalar "0.5", .scalar "0.0", .scalar "0.1"])])]

/-- The later document decides about the version, the earlier one about the mass. -/
theorem layered_lookup_example :
    ∃ s, build cellYaml 4 Heap.empty [yaml1, yaml2] = .returned s ∧
      Gives cellYaml s ["version"] (.scalar "v1.1") ∧
      Gives cellYaml s ["dynamics", "mass"] (.scalar "-0.03") := by
  have hdepth : Suffices 4 [yaml1, yaml2] := by
    simp [Suffices, yaml1, yaml2, Doc.DepthLt]
  have hscalar : ∀ text, (Doc.scalar text).UniqueKeys :=
    fun _ => uniqueKeys_of_not_isMap (fun h => h)
  have hseq : ∀ items, (Doc.sequence items).UniqueKeys :=
    fun _ => uniqueKeys_of_not_isMap (fun h => h)
  have hunique : ∀ d ∈ [yaml1, yaml2], d.UniqueKeys := by
    have hdynamics : (Doc.map [(.scalar "mass", .scalar "-0.03"), (.scalar "com",
        .sequence [.scalar "0.1", .scalar "0.0", .scalar "0.5"])]).UniqueKeys := by
      apply uniqueKeys_map <;> simp [hscalar, hseq]
    have hdynamics' : (Doc.map [(.scalar "com",
        .sequence [.scalar "0.5", .scalar "0.0", .scalar "0.1"])]).UniqueKeys := by
      apply uniqueKeys_map <;> simp [hseq]
    have h₁ : yaml1.UniqueKeys := by
      apply uniqueKeys_map <;> simp [hscalar, hseq, hdynamics]
    have h₂ : yaml2.UniqueKeys := by
      apply uniqueKeys_map <;> simp [hscalar, hdynamics']
    simp [h₁, h₂]
  rcases (show ∃ s, build cellYaml 4 Heap.empty [yaml1, yaml2] = .returned s from ⟨_, rfl⟩)
    with ⟨s, hs⟩
  have hgives := ((layered_lookup cellYaml_documented Heap.empty hunique).2 4 hdepth).2 s hs
  have hversion : Gives cellYaml s ["version"] (.scalar "v1.1") := by
    rw [hgives _ (.scalar _) trivial, wins_cons, wins_cons]
    left
    right
    simp [yaml2, Doc.at, findKey, Key.matches]
  have hmass : Gives cellYaml s ["dynamics", "mass"] (.scalar "-0.03") := by
    rw [hgives _ (.scalar _) trivial, wins_cons]
    right
    simp [yaml1, yaml2, Doc.at, findKey, Key.matches, blocks_map_cons]
  exact ⟨s, hs, hversion, hmass⟩

end Conf
end Utils
end DtCore
