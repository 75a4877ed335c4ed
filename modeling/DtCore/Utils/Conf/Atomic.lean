import DtCore.Utils.Conf.Alike
import DtCore.Utils.Conf.Failure
import DtCore.Utils.Conf.Layers

/-!
# What a failed `Append` leaves behind

`Append` merges into the live root node, so an exception keeps the entries that were
merged before.  A failed `Append` leaves every lookup as it was when the entries
before the exception change nothing, and on documents without sharing and without
repeated keys only then.

Main results:

- Theorem `mergeNodes_keeps`: merges that change nothing leave a graph that is alike.
- Theorem `mergeNodes_failsClean`: so do merges that throw before they change anything.
- Theorem `append_atomic_iff`: when a failed `Append` leaves the lookups alone.
-/

namespace DtCore
namespace Utils
namespace Conf

section Conditions

variable (Y : YamlCpp) (concat : Bool) (s : Y.Heap)

/-! ## Conditions on two nodes -/

/-- The merge of an override entry leaves the map at `b` as it is. -/
def NodeEntryKeeps (keeps : Y.Node → Y.Node → Prop) (b : Y.Node) (e : Key × Y.Node) : Prop :=
  isDefined Y s e.2 = false ∨
    ∃ key t, Y.keyString e.1 = some key ∧ Y.get s b key = some t ∧ keeps t e.2

/-- `Keeps` on nodes, which may share data. -/
def NodeKeeps : Nat → Y.Node → Y.Node → Prop
  | 0, _, _ => False
  | n + 1, b, o =>
      hasContent Y s o = false ∨
        match Y.view s b, Y.view s o with
        | .map _, .map os => ∀ e ∈ os, NodeEntryKeeps Y s (NodeKeeps n) b e
        | .sequence xs, .sequence ys =>
            if concat then ys = [] else (Y.graph s).SameItems xs ys
        | .scalar text, .scalar text' => text' = text
        | _, _ => False

/-- `FailsClean` on nodes, which may share data. -/
def NodeFailsClean : Nat → Y.Node → Y.Node → Prop
  | 0, _, _ => False
  | n + 1, b, o =>
      match Y.view s b, Y.view s o with
      | .map _, .map os =>
          ∃ pre e post, os = pre ++ e :: post ∧
            (∀ p ∈ pre, NodeEntryKeeps Y s (NodeKeeps Y concat s n) b p) ∧
            isDefined Y s e.2 = true ∧
              (Y.keyString e.1 = none ∨
                ∃ key t, Y.keyString e.1 = some key ∧ Y.get s b key = some t ∧
                  NodeFailsClean n t e.2)
      | _, _ => False

end Conditions

variable {Y : YamlCpp} {concat : Bool} {s u : Y.Heap}

/-! ## Merges that change nothing -/

/-- A later heap with the same documents. -/
structure Follows (Y : YamlCpp) (s u : Y.Heap) : Prop where
  mono : Y.Extends s u
  alike : Graph.Alike (Y.graph s) (Y.graph u)

theorem Follows.refl (s : Y.Heap) : Follows Y s s :=
  ⟨YamlCpp.Extends.refl s, Graph.Alike.refl _⟩

theorem Follows.view_map (h : Follows Y s u) {n : Y.Node} {es : List (Key × Y.Node)}
    (hview : Y.view s n = .map es) : Y.view u n = .map es :=
  h.alike.map_iff.mpr hview

theorem Follows.view_scalar (h : Follows Y s u) {n : Y.Node} {text : String}
    (hview : Y.view s n = .scalar text) : Y.view u n = .scalar text := by
  rcases h.alike n with hsame | ⟨xs, ys, hxs, _, _⟩
  · exact hsame.trans hview
  · have hxs' : Y.view s n = .sequence xs := hxs
    rw [hxs'] at hview
    contradiction

theorem Follows.view_sequence (h : Follows Y s u) {n : Y.Node} {xs : List Y.Node}
    (hview : Y.view s n = .sequence xs) :
    ∃ ys, Y.view u n = .sequence ys ∧ (xs = [] → ys = []) := by
  rcases h.alike n with hsame | ⟨xs', ys, hxs, hys, hitems⟩
  · exact ⟨xs, hsame.trans hview, fun h => h⟩
  · have hxs' : Y.view s n = .sequence xs' := hxs
    rw [hview, View.sequence.injEq] at hxs'
    subst hxs'
    apply Exists.intro ys
    constructor
    · exact hys
    · rintro rfl
      rcases hitems with ⟨docs, k, hdocs, hdocs'⟩
      cases hdocs
      cases hdocs'
      rfl

theorem Follows.hasContent_eq (h : Follows Y s u) (n : Y.Node) :
    hasContent Y u n = hasContent Y s n := by
  rcases h.alike n with hview | ⟨xs, ys, hxs, hys, _⟩
  · have hview' : Y.view u n = Y.view s n := hview
    rw [hasContent, hasContent, hview']
  · have hxs' : Y.view s n = .sequence xs := hxs
    have hys' : Y.view u n = .sequence ys := hys
    rw [hasContent, hasContent, hxs', hys']

theorem Follows.isDefined_eq (h : Follows Y s u) (n : Y.Node) :
    isDefined Y u n = isDefined Y s n := by
  rcases h.alike n with hview | ⟨xs, ys, hxs, hys, _⟩
  · have hview' : Y.view u n = Y.view s n := hview
    rw [isDefined, isDefined, hview']
  · have hxs' : Y.view s n = .sequence xs := hxs
    have hys' : Y.view u n = .sequence ys := hys
    rw [isDefined, isDefined, hxs', hys']

/-- Two scalars or two sequences that are equal. -/
def SameLeaf (Y : YamlCpp) (s : Y.Heap) (t r : Y.Node) : Prop :=
  match Y.view s t, Y.view s r with
  | .sequence xs, .sequence ys => (Y.graph s).SameItems xs ys
  | .scalar text, .scalar text' => text' = text
  | _, _ => False

/-- Assigning an equal scalar or sequence. -/
theorem Follows.assign (hY : Y.Documented) (h : Follows Y s u) {t r : Y.Node}
    (ht : Y.alive s t) (hr : Y.alive s r) (hsame : r = t ∨ SameLeaf Y s t r) :
    Follows Y s (Y.assign u t r) := by
  have hassign := hY.assign_node u t r (h.mono.alive t ht) (h.mono.alive r hr)
  have hother : ∀ n, n ≠ t → (Y.graph (Y.assign u t r)).view n = (Y.graph u).view n := by
    intro n hn
    rw [Graph.view, Graph.view, hassign.ref_eq n hn, hassign.content_eq]
  have hself : (Y.graph (Y.assign u t r)).view t = (Y.graph u).view r := by
    rw [Graph.view, Graph.view, hassign.ref_self, hassign.content_eq]
  constructor
  · exact h.mono.trans hassign.mono
  · intro n
    by_cases hn : n = t
    · subst hn
      rw [hself]
      rcases hsame with rfl | hsame
      · exact h.alike r
      · unfold SameLeaf at hsame
        split at hsame
        · rename_i xs ys hxs hys
          right
          rcases h.alike r with hview | ⟨ys', zs, hys', hzs, hitems⟩
          · exact ⟨xs, ys, hxs, hview.trans hys, hsame⟩
          · have heq : ys' = ys := by
              have hview : View.sequence ys' = .sequence ys := hys'.symm.trans hys
              exact View.sequence.inj hview
            subst heq
            exact ⟨xs, zs, hxs, hzs, hsame.trans hitems⟩
        · rename_i text text' ht' hr'
          left
          rcases h.alike r with hview | ⟨ys, _, hys, _⟩
          · have hview' : (Y.graph u).view r = .scalar text' := hview.trans hr'
            have htext : (Y.graph s).view n = .scalar text := ht'
            rw [hview', htext, hsame]
          · have hview : View.scalar text' = .sequence ys := hr'.symm.trans hys
            contradiction
        · exact hsame.elim
    · rw [hother n hn]
      exact h.alike n

/-- The values of the entries of a map exist. -/
theorem entries_alive (hY : Y.Documented) {o : Y.Node} {os : List (Key × Y.Node)}
    (ho : Y.alive s o) (hview : Y.view s o = .map os) : ∀ e ∈ os, Y.alive s e.2 := by
  intro e he
  apply hY.alive_child s o ho
  rw [hview]
  exact List.mem_map_of_mem he

/-- What the merge of an entry that changes nothing does. -/
def KeepsRun (Y : YamlCpp) (s : Y.Heap) (keeps : Y.Node → Y.Node → Prop)
    (merge : Y.Heap → Option Y.Node → Y.Node → Outcome Y) : Prop :=
  ∀ u t v, Follows Y s u → Y.alive s t → Y.alive s v → keeps t v →
    ∃ u' r, merge u (some t) v = .returned u' (some r) ∧ Follows Y s u' ∧
      (r = t ∨ r = v ∧ SameLeaf Y s t v)

/-- The loop passes over entries that change nothing. -/
theorem mergeEntries_keeps (hY : Y.Documented) {keeps : Y.Node → Y.Node → Prop}
    {merge : Y.Heap → Option Y.Node → Y.Node → Outcome Y} (hmerge : KeepsRun Y s keeps merge)
    {b : Y.Node} {es os : List (Key × Y.Node)} (hview : Y.view s b = .map es)
    (hb : Y.alive s b) (hos : ∀ e ∈ os, Y.alive s e.2 ∧ NodeEntryKeeps Y s keeps b e)
    (hu : Follows Y s u) :
    ∃ u', Follows Y s u' ∧
      ∀ rest, mergeEntries Y merge b u (os ++ rest) = mergeEntries Y merge b u' rest := by
  induction os generalizing u with
  | nil => exact ⟨u, hu, fun _ => rfl⟩
  | cons e os ih =>
      rcases e with ⟨k, v⟩
      rw [List.forall_mem_cons] at hos
      rcases hos with ⟨⟨hv, hkeeps⟩, hos⟩
      by_cases hdefined : isDefined Y s v = true
      · rcases hkeeps with hundef | ⟨key, t, hk, ht, hkeeps⟩
        · rw [hundef] at hdefined
          contradiction
        · rw [hY.get_map s b es key hview] at ht
          have halive := entries_alive hY hb hview _ (mem_of_findKey ht)
          rcases hmerge u t v hu halive hv hkeeps with ⟨u', r, hrun, hu', hr⟩
          have hassign : Follows Y s (Y.assign u' t r) := by
            rcases hr with rfl | ⟨rfl, hsame⟩
            · exact hu'.assign hY halive halive (Or.inl rfl)
            · exact hu'.assign hY halive hv (Or.inr hsame)
          rcases ih hos hassign with ⟨w, hw, hrest⟩
          apply Exists.intro w
          constructor
          · exact hw
          · intro rest
            have hkey : assignKey Y u' b key (some r) = (Y.assign u' t r, true) := by
              rw [assignKey, hY.subscript_found u' b es key t (hu'.view_map hview) ht]
            rw [List.cons_append, mergeEntries_cons hY (hu.view_map hview)
              (by rw [hu.isDefined_eq, hdefined]) hk, ht, hrun]
            simp only [hkey]
            exact hrest rest
      · rcases ih hos hu with ⟨w, hw, hrest⟩
        apply Exists.intro w
        constructor
        · exact hw
        · intro rest
          have hnot : ¬ isDefined Y u v = true := by
            rw [hu.isDefined_eq]
            exact hdefined
          rw [List.cons_append, mergeEntries, if_neg hnot]
          exact hrest rest

/-- `mergeNodes` on two maps. -/
theorem mergeNodes_maps {n : Nat} {b o : Y.Node} {es os : List (Key × Y.Node)}
    (hb : Y.view u b = .map es) (ho : Y.view u o = .map os) :
    mergeNodes Y concat (n + 1) u (some b) o =
      mergeEntries Y (mergeNodes Y concat n) b u os := by
  simp [mergeNodes, hasContent, hb, ho]

/-- A merge that changes nothing returns, and leaves a graph that is alike. -/
theorem mergeNodes_keeps (hY : Y.Documented) (n : Nat) :
    KeepsRun Y s (NodeKeeps Y concat s n) (mergeNodes Y concat n) := by
  induction n with
  | zero => exact fun _ _ _ _ _ _ h => h.elim
  | succ n ih =>
      intro u b o hu hb ho hkeeps
      rcases hkeeps with hcontent | hkeeps
      · have hnot : ¬ hasContent Y u o = true := by
          rw [hu.hasContent_eq, hcontent]
          simp
        exact ⟨u, b, by rw [mergeNodes, if_neg hnot], hu, Or.inl rfl⟩
      · split at hkeeps
        · rename_i es os hviewB hviewO
          have halive := entries_alive hY ho hviewO
          rcases mergeEntries_keeps hY ih hviewB hb (fun e he => ⟨halive e he, hkeeps e he⟩) hu
            with ⟨u', hu', hrest⟩
          have hrun := hrest []
          rw [List.append_nil, mergeEntries] at hrun
          exact ⟨u', b, (mergeNodes_maps (hu.view_map hviewB) (hu.view_map hviewO)).trans hrun,
            hu', Or.inl rfl⟩
        · rename_i xs ys hviewB hviewO
          rcases hu.view_sequence hviewB with ⟨xs', hviewB', _⟩
          rcases hu.view_sequence hviewO with ⟨ys', hviewO', hnil⟩
          cases concat with
          | true =>
              rw [if_pos rfl] at hkeeps
              have hys' := hnil hkeeps
              subst hys'
              exact ⟨u, b, by simp [mergeNodes, hasContent, hviewB', hviewO', pushItems], hu,
                Or.inl rfl⟩
          | false =>
              have hsame : SameLeaf Y s b o := by
                rw [SameLeaf, hviewB, hviewO]
                simpa using hkeeps
              exact ⟨u, o, by simp [mergeNodes, hasContent, hviewB', hviewO'], hu,
                Or.inr ⟨rfl, hsame⟩⟩
        · rename_i text text' hviewB hviewO
          have hviewB' := hu.view_scalar hviewB
          have hviewO' := hu.view_scalar hviewO
          have hsame : SameLeaf Y s b o := by
            rw [SameLeaf, hviewB, hviewO]
            exact hkeeps
          exact ⟨u, o, by simp [mergeNodes, hasContent, hviewB', hviewO'], hu,
            Or.inr ⟨rfl, hsame⟩⟩
        · exact hkeeps.elim

/-- A merge that throws before it changes anything leaves a graph that is alike. -/
theorem mergeNodes_failsClean (hY : Y.Documented) {n : Nat} {b o : Y.Node}
    (hu : Follows Y s u) (hb : Y.alive s b) (ho : Y.alive s o)
    (hclean : NodeFailsClean Y concat s n b o) :
    ∃ u', mergeNodes Y concat n u (some b) o = .threw u' ∧ Follows Y s u' := by
  induction n generalizing u b o with
  | zero => exact hclean.elim
  | succ n ih =>
      unfold NodeFailsClean at hclean
      split at hclean
      · rename_i es os hviewB hviewO
        rcases hclean with ⟨pre, ⟨k, v⟩, post, rfl, hpre, hdefined, hfail⟩
        have halive := entries_alive hY ho hviewO
        rcases mergeEntries_keeps hY (mergeNodes_keeps hY n) hviewB hb
            (fun e he => ⟨halive e (List.mem_append_left _ he), hpre e he⟩) hu
          with ⟨w, hw, hrest⟩
        have hdefined' : isDefined Y w v = true := by
          rw [hw.isDefined_eq]
          exact hdefined
        rw [mergeNodes_maps (hu.view_map hviewB) (hu.view_map hviewO), hrest]
        rcases hfail with hk | ⟨key, t, hk, ht, hclean⟩
        · simp only at hk
          exact ⟨w, by rw [mergeEntries, if_pos hdefined', hk], hw⟩
        · simp only at hk hclean
          rw [hY.get_map s b es key hviewB] at ht
          have hv := halive (k, v) (List.mem_append_right _ List.mem_cons_self)
          have halive' := entries_alive hY hb hviewB _ (mem_of_findKey ht)
          rcases ih hw halive' hv hclean with ⟨u', hrun, hu'⟩
          apply Exists.intro u'
          constructor
          · rw [mergeEntries_cons hY (hw.view_map hviewB) hdefined' hk, ht, hrun]
          · exact hu'
      · exact hclean.elim

/-! ## Reading the override -/

/-- The override was read into the heap; what existed is as before. -/
structure Reads (Y : YamlCpp) (s s' : Y.Heap) (o : Y.Node) : Prop where
  mono : Y.Extends s s'
  ref_eq : ∀ n, Y.alive s n → (Y.graph s').ref n = (Y.graph s).ref n
  content_eq : ∀ r, Y.used s r → (Y.graph s').content r = (Y.graph s).content r
  alive_new : Y.alive s' o

theorem cells_alive (hY : Y.Documented) {n : Y.Node} (hn : Y.alive s n) (k : Nat) :
    ∀ c ∈ (Y.graph s).cells k n, Y.alive s c := by
  induction k generalizing n with
  | zero =>
      intro c hc
      rw [Graph.cells, Graph.below, List.mem_singleton] at hc
      rw [hc]
      exact hn
  | succ k ih =>
      intro c hc
      rcases List.mem_cons.mp hc with rfl | hc
      · exact hn
      · rw [Graph.below, List.mem_flatMap] at hc
        rcases hc with ⟨m, hm, hc⟩
        exact ih (hY.alive_child s n hn m hm) c hc

/-- Nodes that existed before the override was read give the same. -/
theorem Reads.gives_iff (hY : Y.Documented) {s : State Y} {heap : Y.Heap} {o : Y.Node}
    (hreads : Reads Y s.heap heap o) (hroot : Y.alive s.heap s.rootNode) (path : List String)
    (d : Doc) : Gives Y { s with heap := heap } path d ↔ Gives Y s path d := by
  have hview : ∀ n, Y.alive s.heap n → Y.view heap n = Y.view s.heap n := by
    intro n hn
    rw [YamlCpp.view, YamlCpp.view, Graph.view, Graph.view, hreads.ref_eq n hn,
      hreads.content_eq _ (hY.used_ref _ n hn)]
  have hlookup : ∀ (path : List String) (n : Y.Node), Y.alive s.heap n →
      lookup Y heap n path = lookup Y s.heap n path ∧
        ∀ m, lookup Y s.heap n path = some m → Y.alive s.heap m := by
    intro path
    induction path with
    | nil =>
        intro n hn
        constructor
        · rfl
        · intro m hm
          rw [← Option.some.inj hm]
          exact hn
    | cons key path ih =>
        intro n hn
        rw [lookup, lookup, hview n hn]
        cases hv : Y.view s.heap n with
        | map es =>
            simp only [hY.get_map heap n es key ((hview n hn).trans hv),
              hY.get_map s.heap n es key hv]
            cases ht : findKey key es with
            | none => simp
            | some t => exact ih t (entries_alive hY hn hv _ (mem_of_findKey ht))
        | _ => simp
  have hdenotes : ∀ n, Y.alive s.heap n → ∀ k,
      (Y.graph heap).Denotes k n d ↔ (Y.graph s.heap).Denotes k n d := by
    intro n hn k
    have hagree : Graph.Agree (Y.graph s.heap) (Y.graph heap) ((Y.graph s.heap).cells k n) := by
      intro c hc
      have hc' := cells_alive hY hn k c hc
      exact ⟨hreads.ref_eq c hc', hreads.content_eq _ (hY.used_ref _ c hc')⟩
    have hback : Graph.Agree (Y.graph heap) (Y.graph s.heap) ((Y.graph heap).cells k n) := by
      rw [Graph.cells_congr hagree]
      intro c hc
      rcases hagree c hc with ⟨href, hcontent⟩
      rw [href]
      exact ⟨rfl, hcontent.symm⟩
    exact ⟨Graph.denotes_congr hback, Graph.denotes_congr hagree⟩
  rcases hlookup path s.rootNode hroot with ⟨heq, halive⟩
  unfold Gives
  simp only [heq]
  constructor
  · rintro ⟨n, k, hn, hd⟩
    exact ⟨n, k, hn, (hdenotes n (halive n hn) k).mp hd⟩
  · rintro ⟨n, k, hn, hd⟩
    exact ⟨n, k, hn, (hdenotes n (halive n hn) k).mpr hd⟩

/-! ## `Append` -/

/-- The depth of a tree is only a bound. -/
theorem Tree.mono {s : Y.Heap} {j k : Nat} {n : Y.Node} {d : Doc} (h : Tree Y s j n d)
    (hjk : j ≤ k) : Tree Y s k n d := by
  have hbelow := h.denotes.below_eq hjk
  exact {
    denotes := h.denotes.of_depthLt (h.denotes.depthLt.mono hjk)
    unshared := by
      rw [Graph.refs, Graph.cells, hbelow]
      exact h.unshared
    alive := by
      rw [Graph.cells, hbelow]
      exact h.alive }

/-- An exception leaves every lookup as it was. -/
def LeavesLookups (Y : YamlCpp) (s : State Y) (e : Ended Y) : Prop :=
  ∀ s', e = .threw s' → ∀ path d, Gives Y s' path d ↔ Gives Y s path d

/-- An `Append` that throws before it changes anything, on any graph of nodes. -/
theorem appendNode_failsClean (hY : Y.Documented) {s : State Y} {heap : Y.Heap} {o : Y.Node}
    {k : Nat} {override : Bool} (hroot : Y.alive s.heap s.rootNode)
    (hreads : Reads Y s.heap heap o)
    (hclean : NodeFailsClean Y (!override) heap k s.rootNode o) :
    ∃ s', appendNode Y k s heap o override = .threw s' ∧
      ∀ path d, Gives Y s' path d ↔ Gives Y s path d := by
  rcases mergeNodes_failsClean hY (Follows.refl heap) (hreads.mono.alive _ hroot)
      hreads.alive_new hclean with ⟨heap', hrun, hfollows⟩
  have hmaps : ∃ es os, Y.view heap s.rootNode = .map es ∧ Y.view heap o = .map os := by
    cases k with
    | zero => exact hclean.elim
    | succ k =>
        unfold NodeFailsClean at hclean
        split at hclean
        · rename_i es os hes hos
          exact ⟨es, os, hes, hos⟩
        · exact hclean.elim
  rcases hmaps with ⟨es, os, hes, hos⟩
  have hes' : Y.view s.heap s.rootNode = .map es := by
    rw [← hes, YamlCpp.view, YamlCpp.view, Graph.view, Graph.view, hreads.ref_eq _ hroot,
      hreads.content_eq _ (hY.used_ref _ _ hroot)]
  apply Exists.intro { s with heap := heap' }
  constructor
  · simp [appendNode, isDefined, hes', hos, hrun]
  · intro path d
    rw [← hreads.gives_iff hY hroot path d]
    exact Alike.gives_iff hY { s with heap := heap } { s with heap := heap' } rfl
      hfollows.alike path d

/-- On documents without sharing and without repeated keys, `Append` leaves the lookups
alone exactly when it throws before it changes anything or not at all. -/
theorem append_tree_iff (hY : Y.Documented) {s : State Y} {k : Nat} {root o : Doc}
    {override : Bool} (hroot : Tree Y s.heap k s.rootNode root) (hdepth : o.DepthLt k)
    (hunique : UniqueStrings Y.keyString k o) :
    LeavesLookups Y s (append Y k s (some o) override) ↔
      (Fails Y.keyString k root o → FailsClean Y.keyString (!override) k root o) := by
  rcases append_refines hY hroot hdepth override with ⟨e, he, hend⟩
  have hmerge : root ≠ .undefined →
      mergeDoc Y.keyString (!override) k (some root) o = some e := by
    intro hdefined
    rw [← he]
    cases root <;> first | contradiction | rfl
  rcases hend with ⟨s', r, hrun, htakes, _, _⟩ | ⟨s', d, hrun, hthrew, hbase, htree⟩
  · constructor
    · intro _ hfails
      have hdefined : root ≠ .undefined := by
        rintro rfl
        cases k <;> exact hfails.elim
      exact absurd ((mergeDoc_fails_iff hunique (hmerge hdefined)).mpr hfails) htakes
    · intro _ s'' hs''
      rw [hrun] at hs''
      contradiction
  · have hdefined : root ≠ .undefined := by
      rintro rfl
      rw [appendDoc, Option.some.injEq] at he
      rw [← he] at hthrew
      contradiction
    constructor
    · intro hleaves _
      have hgives := hleaves s' hrun [] root
      rw [gives_iff hY hroot.denotes, gives_iff hY htree.denotes] at hgives
      have hsame : d = root := Option.some.inj (hgives.mpr rfl)
      rw [hsame] at hbase
      exact (keeps_of_mergeDoc hunique (hmerge hdefined)).2 hthrew hbase
    · intro hcond s'' hs'' path v
      rw [hrun, Ended.threw.injEq] at hs''
      subst hs''
      have hclean := hcond ((mergeDoc_fails_iff hunique (hmerge hdefined)).mp hthrew)
      have hend : some (⟨some root, .threw⟩ : DocEnd) = some e :=
        (mergeDoc_failsClean hclean).symm.trans (hmerge hdefined)
      rw [← Option.some.inj hend, Option.some.injEq] at hbase
      subst hbase
      rw [gives_iff hY hroot.denotes, gives_iff hY htree.denotes]

/-- When a failed `Append` leaves every lookup as it was.  On any graph of nodes it does
when it throws before it changes anything; on documents without sharing and without
repeated keys it does only then, and when the document cannot be read. -/
theorem append_atomic_iff (hY : Y.Documented) (s : State Y) (k : Nat) (override : Bool) :
    (∀ heap o, Y.alive s.heap s.rootNode → Reads Y s.heap heap o →
        NodeFailsClean Y (!override) heap k s.rootNode o →
          LeavesLookups Y s (appendNode Y k s heap o override)) ∧
      ∀ root doc, Tree Y s.heap k s.rootNode root →
        (∀ o, doc = some o → o.DepthLt k ∧ UniqueStrings Y.keyString k o) →
          (LeavesLookups Y s (append Y k s doc override) ↔
            ∀ o, doc = some o →
              Fails Y.keyString k root o → FailsClean Y.keyString (!override) k root o) := by
  constructor
  · intro heap o hroot hreads hclean s' hs'
    rcases appendNode_failsClean hY hroot hreads hclean with ⟨s'', hrun, hgives⟩
    rw [hrun, Ended.threw.injEq] at hs'
    rw [← hs']
    exact hgives
  · intro root doc hroot hdoc
    cases doc with
    | none =>
        constructor
        · intro _ o ho
          contradiction
        · intro _ s' hs' path d
          rw [append, Ended.threw.injEq] at hs'
          rw [hs']
    | some o =>
        rcases hdoc o rfl with ⟨hdepth, hunique⟩
        rw [append_tree_iff hY hroot hdepth hunique]
        constructor
        · intro hcond o' ho'
          rw [← Option.some.inj ho']
          exact hcond
        · intro hcond
          exact hcond o rfl

/-- The document `a: 1`. -/
def docA : Doc := .map [(.scalar "a", .scalar "1")]

/-- A null for a missing key throws after the entry before it was merged. -/
theorem append_keeps_half_a_merge :
    ∃ s', append cellYaml 3 (construct cellYaml Heap.empty docA)
        (some (.map [(.scalar "a", .scalar "2"), (.scalar "b", .null)])) true = .threw s' ∧
      Gives cellYaml (construct cellYaml Heap.empty docA) ["a"] (.scalar "1") ∧
      ¬ Gives cellYaml s' ["a"] (.scalar "1") := by
  have hrun : ∃ s', append cellYaml 3 (construct cellYaml Heap.empty docA)
      (some (.map [(.scalar "a", .scalar "2"), (.scalar "b", .null)])) true = .threw s' ∧
      ∃ n, lookup cellYaml s'.heap s'.rootNode ["a"] = some n ∧
        cellYaml.view s'.heap n = .scalar "2" := ⟨_, rfl, _, rfl, rfl⟩
  rcases hrun with ⟨s', hs', n, hn, hview⟩
  apply Exists.intro s'
  constructor
  · exact hs'
  · constructor
    · have htree := construct_tree cellYaml_documented Heap.empty (k := 3) (d := docA)
        (by simp [docA, Doc.DepthLt])
      rw [gives_iff cellYaml_documented htree.denotes]
      simp [docA, Doc.at, findKey, Key.matches]
    · intro hgives
      have htext := scalar_of_gives cellYaml hn hview hgives
      exact absurd htext (by decide)

/-- A key that is no string behind entries that change nothing. -/
theorem append_atomic_iff_complex_key :
    ∃ s', append cellYaml 3 (construct cellYaml Heap.empty docA)
        (some (.map [(.scalar "a", .scalar "1"), (.complex, .scalar "2")])) true = .threw s' ∧
      ∀ path d, Gives cellYaml s' path d ↔
        Gives cellYaml (construct cellYaml Heap.empty docA) path d := by
  have hclean : FailsClean cellYaml.keyString false 3 docA
      (.map [(.scalar "a", .scalar "1"), (.complex, .scalar "2")]) := by
    apply Exists.intro [(.scalar "a", .scalar "1")]
    apply Exists.intro (.complex, .scalar "2")
    apply Exists.intro []
    simp [EntryKeeps, Keeps, findKey, Key.matches, cellYaml, Key.toString]
  have htree : Tree cellYaml (construct cellYaml Heap.empty docA).heap 3
      (construct cellYaml Heap.empty docA).rootNode docA :=
    construct_tree cellYaml_documented Heap.empty (by simp [docA, Doc.DepthLt])
  have hleaves := ((append_atomic_iff cellYaml_documented _ 3 true).2 docA
    (some (.map [(.scalar "a", .scalar "1"), (.complex, .scalar "2")])) htree (by
      intro o ho
      rw [← Option.some.inj ho]
      simp [Doc.DepthLt, UniqueStrings, keyStrings, cellYaml, Key.toString])).mpr (by
      intro o ho _
      rw [← Option.some.inj ho]
      exact hclean)
  exact ⟨_, rfl, hleaves _ rfl⟩

end Conf
end Utils
end DtCore
