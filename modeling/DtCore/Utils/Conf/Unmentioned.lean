import DtCore.Utils.Conf.Frame
import DtCore.Utils.Conf.Unaliased

/-!
# Paths that an override does not mention

`merged` is not a copy of the base node, so a merge writes into nodes that other paths of
the base may lead to, through an alias or after an earlier `Append`.  The paths that the
override does not mention keep their documents as long as it changes none of these nodes.

Main results:

- Theorem `Written.denotes_iff`: the nodes that keep their document.
- Theorem `append_unmentioned_iff`: when `Append` leaves alone what is not mentioned.
- Theorem `alias_changes_too`: an alias shows the change of its anchor.
-/

namespace DtCore
namespace Utils
namespace Conf

variable {Y : YamlCpp} {concat : Bool} {s₀ s u : Y.Heap} {b o : Y.Node}

/-! ## The heap after the writes -/

/-- All writes were made, and no others. -/
structure Written (Y : YamlCpp) (concat : Bool) (s : Y.Heap) (b o : Y.Node) (u : Y.Heap) :
    Prop where
  kept : Kept Y concat s b o (fun _ => True) u
  done : ∀ q, Done Y concat s b o u q

theorem Combines.of_maps {n v : Y.Node} {es os : List (Key × Y.Node)}
    (hn : Y.view s n = .map es) (hv : Y.view s v = .map os) : Combines Y concat s n v := by
  rw [Combines, hn, hv]
  trivial

/-- A path that still leads somewhere leads to the same node, through no node that was
replaced. -/
theorem Written.lookup_apart (hY : Y.Documented) (hread : ReadsNew Y s₀ s o) (hb : Y.alive s₀ b)
    (h : Written Y concat s b o u) {n m m' : Y.Node} {path : List String} (hn : Y.alive s n)
    (hm : lookup Y s n path = some m) (hm' : lookup Y u n path = some m') :
    m' = m ∧ ∀ p c, p <+: path → p ≠ path → lookup Y s n p = some c →
      ∀ q, ¬ Replaces Y concat s b o q c := by
  induction path generalizing n with
  | nil =>
      rw [← Option.some.inj hm, ← Option.some.inj hm']
      constructor
      · rfl
      · exact fun p c hp hne => absurd (List.prefix_nil.mp hp) hne
  | cons key path ih =>
      rcases (lookup_cons hY).mp hm with ⟨es, t, hv, ht, hm⟩
      rcases (lookup_cons hY).mp hm' with ⟨es', t', hv', ht', hm'⟩
      have hnot : ∀ q, ¬ Replaces Y concat s b o q n := by
        rintro q ⟨v, hrep⟩
        have hover := h.kept.view_override hY hread hb hrep.1.below_override
        have hview : Y.view u n = Y.view s v := by
          rw [← hover.2, YamlCpp.view, YamlCpp.view, Graph.view, Graph.view, hover.1,
            (h.done q).replaced n v hrep]
        rw [hv'] at hview
        exact hrep.2.2 (Combines.of_maps hv hview.symm)
      have href : (Y.graph u).ref n = (Y.graph s).ref n := by
        rcases h.kept.ref n hn with href | ⟨q, _, hrep⟩
        · exact href
        · exact absurd hrep (hnot q)
      have hgrown := h.kept.view_grown hY hn href
      rw [hv, hv'] at hgrown
      rcases hgrown with ⟨extra, hes', _⟩
      rw [View.map.inj hes', findKey_append ht, Option.some.injEq] at ht'
      rw [← ht'] at hm'
      rcases ih (entries_alive hY hn hv _ (mem_of_findKey ht)) hm hm' with ⟨hsame, hpath⟩
      constructor
      · exact hsame
      · intro p c hp hne hc
        cases p with
        | nil =>
            rw [← Option.some.inj hc]
            exact hnot
        | cons key' p =>
            rcases List.cons_prefix_cons.mp hp with ⟨rfl, hp'⟩
            rcases (lookup_cons hY).mp hc with ⟨es₁, t₁, hv₁, ht₁, hc⟩
            rw [hv, View.map.injEq] at hv₁
            rw [← hv₁, ht, Option.some.injEq] at ht₁
            rw [← ht₁] at hc
            exact hpath p c hp' (fun heq => hne (by rw [heq])) hc

/-- A node of the override keeps its document. -/
theorem Written.denotes_override (hY : Y.Documented) (hread : ReadsNew Y s₀ s o)
    (hb : Y.alive s₀ b) (h : Written Y concat s b o u) {k : Nat} {v : Y.Node} {d : Doc}
    (hv : Below Y s o v) : (Y.graph u).Denotes k v d ↔ (Y.graph s).Denotes k v d := by
  have hbelow : ∀ c ∈ (Y.graph s).cells k v, Below Y s o c := by
    intro c hc
    exact hv.trans ⟨k, hc⟩
  have hagree : Graph.Agree (Y.graph s) (Y.graph u) ((Y.graph s).cells k v) := by
    apply h.kept.agree hY
    intro c hc
    have hc := hbelow c hc
    constructor
    · exact hc.alive hY hread
    · intro q
      constructor
      · exact fun hrep => hc.not_used hread (hread.used hY (hrep.alive_base hY hread hb))
      · exact fun hadd => hc.not_used hread (hadd.used hY hread hb)
  exact Graph.denotes_congr_iff hagree

/-- The nodes that keep their document. -/
theorem Written.denotes_iff (hY : Y.Documented) (hread : ReadsNew Y s₀ s o) (hb : Y.alive s₀ b)
    (honce : Once Y concat s b o) (h : Written Y concat s b o u) {k : Nat} {n : Y.Node} {d : Doc}
    (hn : Y.alive s n) (hd : (Y.graph s).Denotes k n d) :
    (Y.graph u).Denotes k n d ↔ Unchanged Y concat s b o k n := by
  induction k generalizing n d with
  | zero => exact hd.elim
  | succ k ih =>
      rw [Unchanged]
      by_cases hrep : ∃ q, Replaces Y concat s b o q n
      · -- the node refers to data of the override now
        rcases hrep with ⟨q, v, hrep⟩
        have hbelow := hrep.1.below_override
        have href : (Y.graph u).ref n = (Y.graph u).ref v := by
          rw [(h.done q).replaced n v hrep]
          exact (h.kept.view_override hY hread hb hbelow).1.symm
        have hsame : (Y.graph u).Denotes (k + 1) n d ↔ (Y.graph s).Denotes (k + 1) v d := by
          rw [← h.denotes_override hY hread hb hbelow]
          constructor
          · exact Graph.denotes_of_ref_eq href.symm
          · exact Graph.denotes_of_ref_eq href
        rw [hsame]
        constructor
        · intro hv
          constructor
          · intro q' v' hrep'
            have hq := honce.node q q' n v' ⟨v, hrep⟩ hrep'.1
            rw [hq] at hrep'
            rw [(hrep.1.unique hrep'.1).2]
            exact ⟨d, hd, hv⟩
          · exact fun hnot => absurd ⟨v, hrep⟩ (hnot q)
        · rintro ⟨hdoc, _⟩
          rcases hdoc q v hrep with ⟨d', hd', hv⟩
          rw [Graph.denotes_unique hd hd']
          exact hv
      · -- the node refers to the same data
        have hnot : ∀ q, ¬ Replaces Y concat s b o q n := fun q h => hrep ⟨q, h⟩
        have href : (Y.graph u).ref n = (Y.graph s).ref n := by
          rcases h.kept.ref n hn with href | ⟨q, _, h⟩
          · exact href
          · exact absurd h (hnot q)
        have hchildren : ∀ c ∈ (Y.view s n).children, ∀ d', (Y.graph s).Denotes k c d' →
            ((Y.graph u).Denotes k c d' ↔ Unchanged Y concat s b o k c) :=
          fun c hc d' hd' => ih (hY.alive_child s n hn c hc) hd'
        constructor
        · intro hu
          constructor
          · exact fun q v h => absurd ⟨v, h⟩ (hnot q)
          · intro _
            have hadds : ∀ q, ¬ Adds Y concat s b o q ((Y.graph s).ref n) := by
              intro q hadd
              have hlt := (h.done q).added _ hadd
              have hlen := hd.length_children hu
              rw [Graph.view, Graph.view, href] at hlen
              exact absurd hlen (Nat.ne_of_lt hlt)
            have hview : Y.view u n = Y.view s n := (h.kept.view_grown hY hn href).eq hadds
            constructor
            · exact hadds
            · intro c hc
              rcases hd.child hc with ⟨d', hd'⟩
              apply (hchildren c hc d' hd').mp
              exact (Graph.denotes_succ_iff hview hd).mp hu c hc d' hd'
        · rintro ⟨_, hsame⟩
          rcases hsame hnot with ⟨hadds, hunchanged⟩
          have hview : Y.view u n = Y.view s n := (h.kept.view_grown hY hn href).eq hadds
          apply (Graph.denotes_succ_iff hview hd).mpr
          exact fun c hc d' hd' => (hchildren c hc d' hd').mpr (hunchanged c hc)

/-- The paths that the override does not mention keep their documents exactly when the
merge changes none of them. -/
theorem Written.gives_iff_apart (hY : Y.Documented) (hread : ReadsNew Y s₀ s o)
    (hb : Y.alive s₀ b) (honce : Once Y concat s b o) (h : Written Y concat s b o u) :
    (∀ path d, ¬ Mentions Y s path o → Gives Y { heap := s, rootNode := b } path d →
      Gives Y { heap := u, rootNode := b } path d) ↔ Apart Y concat s b o := by
  have hb' := hread.mono.alive b hb
  constructor
  · intro hkeeps
    constructor
    · intro path d p n hpath hd hp hne hn
      rcases hkeeps path d hpath hd with ⟨m', k', hm', _⟩
      rcases hd with ⟨m, k, hm, _⟩
      exact (h.lookup_apart hY hread hb hb' hm hm').2 p n hp hne hn
    · intro path n k d hpath hn hd
      rcases hkeeps path d hpath ⟨n, k, hn, hd⟩ with ⟨n', k', hn', hd'⟩
      rw [(h.lookup_apart hY hread hb hb' hn hn').1] at hd'
      exact (h.denotes_iff hY hread hb honce (lookup_alive hY hb' hn) hd).mp
        (hd'.of_depthLt hd.depthLt)
  · intro hapart path d hpath hgives
    rcases hgives with ⟨n, k, hn, hd⟩
    have hpasses := fun p c => hapart.passes path d p c hpath ⟨n, k, hn, hd⟩
    apply Exists.intro n
    apply Exists.intro k
    constructor
    · exact h.kept.lookup_eq hY hb' hn hpasses
    · apply (h.denotes_iff hY hread hb honce (lookup_alive hY hb' hn) hd).mpr
      exact hapart.holds path n k d hpath hn hd

/-- Nothing is to be written at the root of two documents that combine. -/
theorem idle_root (hcomb : hasContent Y s o = true → Combines Y concat s b o) :
    Idle Y concat s b o [] := by
  constructor
  · rintro m ⟨v, hvisit, hcontent, hnot⟩
    rcases visit_nil hvisit with ⟨rfl, rfl⟩
    exact hnot (hcomb hcontent)
  · rintro r (⟨key, q₀, i, n, v, es, os, k, w, hq, _⟩ | ⟨q₀, n, v, xs, ys, hq, _⟩)
    · exact absurd hq.symm (List.append_ne_nil_of_right_ne_nil q₀ (List.cons_ne_nil _ _))
    · exact absurd hq.symm (List.append_ne_nil_of_right_ne_nil q₀ (List.cons_ne_nil _ _))

/-- The writes below the root are all writes. -/
theorem Wrote.written (hcomb : hasContent Y s o = true → Combines Y concat s b o)
    (h : Wrote Y concat s b o (Deeper []) (fun _ => False) s u) : Written Y concat s b o u where
  kept := h.kept.weaken (fun _ _ => trivial)
  done := by
    intro q
    by_cases hq : q = []
    · rw [hq]
      exact (idle_root hcomb).done
    · exact h.done q ⟨List.nil_prefix, hq⟩

/-- An override without content writes nothing. -/
theorem written_of_no_content (hcontent : ¬ hasContent Y s o = true) :
    Written Y concat s b o s := by
  apply Wrote.written
  · exact fun h => absurd h hcontent
  · apply Wrote.idle (Kept.refl _)
    exact fun q => idle_of_not_combines Visit.root (fun h => absurd h hcontent)

/-- The assignment of the result to the root that was merged in place. -/
theorem Written.assign_root (hY : Y.Documented) (h : Written Y concat s b o u)
    (hb : Y.alive s b) : Written Y concat s b o (Y.assign u b b) := by
  have halive := h.kept.mono.alive b hb
  have hsame : ∀ n, (Y.graph (Y.assign u b b)).ref n = (Y.graph u).ref n :=
    fun n => assign_ref hY halive halive (fun _ => rfl)
  constructor
  · exact h.kept.assign hY halive halive (fun _ => Or.inl rfl)
  · intro q
    constructor
    · intro m v hrep
      rw [hsame]
      exact (h.done q).replaced m v hrep
    · intro r hadd
      rw [(hY.assign_node u b b halive halive).content_eq]
      exact (h.done q).added r hadd

theorem not_hasContent_of_undefined {n : Y.Node} (hn : ¬ isDefined Y s n = true) :
    ¬ hasContent Y s n = true := by
  intro hcontent
  apply hn
  unfold isDefined
  unfold hasContent at hcontent
  cases hv : Y.view s n <;> simp_all

/-! ## `Append` -/

/-- An override that replaces the whole base mentions all of its paths. -/
theorem mentions_of_not_combines {n m v : Y.Node} {path : List String}
    (hm : lookup Y s n path = some m) (hcontent : hasContent Y s v = true)
    (hcomb : ¬ Combines Y concat s n v) : Mentions Y s path v := by
  cases path with
  | nil =>
      unfold Mentions isDefined
      unfold hasContent at hcontent
      cases hv : Y.view s v <;> simp_all
  | cons key path =>
      unfold Combines at hcomb
      unfold Mentions
      unfold hasContent at hcontent
      rw [lookup] at hm
      cases hn : Y.view s n with
      | map es => cases hv : Y.view s v <;> simp_all
      | _ =>
          rw [hn] at hm
          contradiction

/-- Only the empty path leads somewhere from a node that is not defined. -/
theorem lookup_of_undefined (hY : Y.Documented) {n m : Y.Node} (hn : ¬ isDefined Y s n = true)
    {path : List String} (hm : lookup Y s n path = some m) : path = [] := by
  cases path with
  | nil => rfl
  | cons key path =>
      rcases (lookup_cons hY).mp hm with ⟨es, t, hv, _⟩
      rw [isDefined, hv] at hn
      contradiction

theorem view_of_undefined {n : Y.Node} (hn : ¬ isDefined Y s n = true) :
    Y.view s n = .undefined := by
  unfold isDefined at hn
  cases hv : Y.view s n <;> simp_all

theorem gives_undefined {n : Y.Node} (hn : Y.view s n = .undefined) :
    Gives Y { heap := s, rootNode := n } [] .undefined := by
  apply Exists.intro n
  apply Exists.intro 1
  constructor
  · rfl
  · unfold Graph.Denotes
    have hview : (Y.graph s).view n = .undefined := hn
    simp only [hview]

/-- When the override mentions all paths, there is nothing to keep. -/
theorem apart_of_all_mentioned
    (hall : ∀ path m, lookup Y s b path = some m → Mentions Y s path o) :
    Apart Y concat s b o where
  passes := by
    rintro path d p n hpath ⟨m, k, hm, _⟩
    exact absurd (hall path m hm) hpath
  holds := fun path n k d hpath hn => absurd (hall path n hn) hpath

/-- When no two positions meet at a node that is replaced or at a key that is added, the
paths of the base that the override does not mention keep their documents exactly when the
merge changes none of them. -/
theorem append_apart_iff (hY : Y.Documented) {st st' : State Y} {heap : Y.Heap}
    {k : Nat} {override : Bool} (hroot : Y.alive st.heap st.rootNode)
    (hread : ReadsNew Y st.heap heap o)
    (hrun : appendNode Y k st heap o override = .returned st')
    (honce : Once Y (!override) heap st.rootNode o) :
    (∀ path d, ¬ Mentions Y heap path o → Gives Y st path d → Gives Y st' path d) ↔
      Apart Y (!override) heap st.rootNode o := by
  have hbase := hread.mono.alive _ hroot
  have hbefore := hread.toReads.gives_iff hY hroot
  unfold appendNode at hrun
  by_cases hdef : isDefined Y st.heap st.rootNode = true
  · rw [if_pos hdef] at hrun
    simp only [← hbefore]
    by_cases hodef : isDefined Y heap o = true
    · rw [if_pos hodef] at hrun
      cases hmerge : mergeNodes Y (!override) k heap (some st.rootNode) o with
      | returned heap' r =>
          rw [hmerge] at hrun
          rcases mergeNodes_wrote hY hread hroot honce k [] st.rootNode o (fun _ => False) heap
            heap' r Visit.root (Kept.refl _) (fun _ h => h.elim) hmerge with ⟨hwrote, hr⟩
          rcases hr with ⟨rfl, hcomb⟩ | ⟨rfl, hcontent, hcomb⟩
          · -- merged in place
            simp only [Ended.returned.injEq] at hrun
            subst hrun
            exact ((hwrote.written hcomb).assign_root hY hbase).gives_iff_apart hY hread hroot honce
          · -- replaced by the override, which mentions all paths
            have hall : ∀ path m, lookup Y heap st.rootNode path = some m →
                Mentions Y heap path o :=
              fun path m hm => mentions_of_not_combines hm hcontent hcomb
            constructor
            · exact fun _ => apart_of_all_mentioned hall
            · rintro _ path d hpath ⟨n, j, hn, _⟩
              exact absurd (hall path n hn) hpath
      | threw heap' =>
          rw [hmerge] at hrun
          contradiction
      | tooDeep =>
          rw [hmerge] at hrun
          contradiction
    · -- an override that is not defined is ignored
      rw [if_neg hodef] at hrun
      simp only [Ended.returned.injEq] at hrun
      subst hrun
      simp only [hbefore]
      have hwritten : Written Y (!override) heap st.rootNode o heap :=
        written_of_no_content (not_hasContent_of_undefined hodef)
      constructor
      · intro _
        exact (hwritten.gives_iff_apart hY hread hroot honce).mp (fun _ _ _ hd => hd)
      · exact fun _ path d _ hd => hd
  · rw [if_neg hdef] at hrun
    simp only [Ended.returned.injEq] at hrun
    subst hrun
    -- an undefined root is replaced; only the empty path leads somewhere
    have hdef' : ¬ isDefined Y heap st.rootNode = true := by
      rw [isDefined, hread.view_eq hY hroot]
      exact hdef
    simp only [← hbefore]
    by_cases hodef : isDefined Y heap o = true
    · have hall : ∀ path m, lookup Y heap st.rootNode path = some m → Mentions Y heap path o := by
        intro path m hm
        rw [lookup_of_undefined hY hdef' hm]
        exact hodef
      constructor
      · exact fun _ => apart_of_all_mentioned hall
      · rintro _ path d hpath ⟨n, j, hn, _⟩
        exact absurd (hall path n hn) hpath
    · have hwritten : Written Y (!override) heap st.rootNode o heap :=
        written_of_no_content (not_hasContent_of_undefined hodef)
      constructor
      · intro _
        exact (hwritten.gives_iff_apart hY hread hroot honce).mp (fun _ _ _ hd => hd)
      · rintro _ path d _ ⟨n, j, hn, hd⟩
        have hpath := lookup_of_undefined hY hdef' hn
        subst hpath
        rw [← Option.some.inj hn] at hd
        rw [hd.undefined_iff.mp (view_of_undefined hdef')]
        have hassign := hY.assign_node heap st.rootNode o hbase hread.alive_new
        have hview : Y.view (Y.assign heap st.rootNode o) o = .undefined := by
          rw [← view_of_undefined hodef, YamlCpp.view, YamlCpp.view, Graph.view, Graph.view,
            hassign.content_eq, assign_ref hY hbase hread.alive_new (fun h => by rw [h])]
        exact gives_undefined hview

/-- For every base and every override, with or without aliases: the paths of the base that
the override does not mention keep their documents exactly when there are no aliases or
the merge changes no document at such a path.  With aliases, no two positions may meet at
a node that is replaced or at a key that is added. -/
theorem append_unmentioned_iff (hY : Y.Documented) {st st' : State Y} {heap : Y.Heap}
    {k : Nat} {override : Bool} (hroot : Y.alive st.heap st.rootNode)
    (hread : ReadsNew Y st.heap heap o)
    (hrun : appendNode Y k st heap o override = .returned st')
    (honce : Unaliased Y heap st.rootNode o ∨ Once Y (!override) heap st.rootNode o) :
    (∀ path d, ¬ Mentions Y heap path o → Gives Y st path d → Gives Y st' path d) ↔
      Unaliased Y heap st.rootNode o ∨ Apart Y (!override) heap st.rootNode o := by
  by_cases htrees : Unaliased Y heap st.rootNode o
  · constructor
    · exact fun _ => Or.inl htrees
    · exact fun _ path d hpath hd => append_unaliased hY hroot hread hrun htrees hpath hd
  · rw [append_apart_iff hY hroot hread hrun (honce.resolve_left htrees)]
    exact ⟨Or.inr, fun h => h.resolve_left htrees⟩

/-! ## A section with two names -/

theorem below_subset {N R : Type} (g : Graph N R) {j k : Nat} (hjk : j ≤ k) (n : N) :
    ∀ c ∈ g.below j n, c ∈ g.below k n := by
  induction j generalizing k n with
  | zero =>
      intro c hc
      contradiction
  | succ j ih =>
      cases k with
      | zero => omega
      | succ k =>
          intro c hc
          rw [Graph.below, List.mem_flatMap] at hc ⊢
          rcases hc with ⟨m, hm, hc⟩
          apply Exists.intro m
          constructor
          · exact hm
          · rcases List.mem_cons.mp hc with rfl | hc
            · exact List.mem_cons_self
            · exact List.mem_cons_of_mem _ (ih (Nat.le_of_succ_le_succ hjk) m c hc)

/-- A document without aliases is read into new nodes. -/
theorem loads_readsNew {d : Doc} {n : Y.Node} (h : Y.Loads s d u n) : ReadsNew Y s u n := by
  rcases d.exists_depthLt with ⟨j, hj⟩
  constructor
  · exact {
      mono := h.mono
      ref_eq := h.ref_eq
      content_eq := h.content_eq
      alive_new := h.alive_new j hj n (Graph.self_mem_cells _ _ _) }
  · intro k c hc
    apply h.not_used (max j k) (hj.mono (Nat.le_max_left j k))
    apply List.mem_map_of_mem
    rcases List.mem_cons.mp hc with rfl | hc
    · exact Graph.self_mem_cells _ _ _
    · exact List.mem_cons_of_mem _ (below_subset _ (Nat.le_max_right j k) n c hc)

/-- The document `a: &x {k: 1}`, `b: *x`: the two keys lead to one node. -/
def aliased : State cellYaml where
  heap := (Heap.empty.load (.map [(.scalar "a", .map [(.scalar "k", .scalar "1")])])).1.write
    (.loaded 0 []) (.map [(.scalar "a", .loaded 0 [0]), (.scalar "b", .loaded 0 [0])]) 0
  rootNode := .loaded 0 []

/-- Setting `a.k` changes `b.k`. -/
theorem alias_changes_too :
    ∃ st' heap o, ReadsNew cellYaml aliased.heap heap o ∧
      appendNode cellYaml 3 aliased heap o true = .returned st' ∧
      ¬ Mentions cellYaml heap ["b", "k"] o ∧
      Gives cellYaml aliased ["b", "k"] (.scalar "1") ∧
      ¬ Gives cellYaml st' ["b", "k"] (.scalar "1") := by
  have hload := load_loads aliased.heap (.map [(.scalar "a", .map [(.scalar "k", .scalar "2")])])
  have hrun : ∃ st', appendNode cellYaml 3 aliased
      (aliased.heap.load (.map [(.scalar "a", .map [(.scalar "k", .scalar "2")])])).1
      (aliased.heap.load (.map [(.scalar "a", .map [(.scalar "k", .scalar "2")])])).2 true =
        .returned st' ∧
      ∃ n, lookup cellYaml st'.heap st'.rootNode ["b", "k"] = some n ∧
        cellYaml.view st'.heap n = .scalar "2" := ⟨_, rfl, _, rfl, rfl⟩
  rcases hrun with ⟨st', hst', n, hn, hview⟩
  apply Exists.intro st'
  apply Exists.intro _
  apply Exists.intro _
  constructor
  · exact loads_readsNew hload
  · constructor
    · exact hst'
    · constructor
      · rintro ⟨e, he, hkey, _⟩
        rw [List.mem_singleton.mp he] at hkey
        have heq : (some "a" : Option String) = some "b" := hkey
        simp at heq
      · constructor
        · exact ⟨_, 1, rfl, rfl⟩
        · intro hgives
          have htext := scalar_of_gives cellYaml hn hview hgives
          exact absurd htext (by decide)

/-- The document `c: 2` after `aliased`. -/
def readC : Heap × Cell :=
  aliased.heap.load (.map [(.scalar "c", .scalar "2")])

/-- The override only meets the root. -/
theorem visit_readC {q : List Nat} {n v : cellYaml.Node}
    (h : Visit cellYaml readC.1 aliased.rootNode readC.2 q n v) :
    q = [] ∧ n = aliased.rootNode ∧ v = readC.2 := by
  induction h with
  | root => exact ⟨rfl, rfl, rfl⟩
  | @entry q n v t w es os i k key hvisit hn hv hw hdef hk hkey ih =>
      rcases ih with ⟨rfl, rfl, rfl⟩
      have hes : View.map [(Key.scalar "a", Cell.loaded 0 [0]), (.scalar "b", .loaded 0 [0])] =
          .map es := hn
      have hos : View.map [(Key.scalar "c", Cell.loaded 1 [0])] = .map os := hv
      rw [← View.map.inj hes] at hkey
      rw [← View.map.inj hos] at hw
      cases i with
      | zero =>
          rw [← (Prod.mk.inj (Option.some.inj hw)).1] at hk
          have hkey' : key = "c" := (Option.some.inj hk).symm
          rw [hkey'] at hkey
          contradiction
      | succ i => contradiction

theorem not_replaces_readC {q : List Nat} {n : cellYaml.Node} :
    ¬ Replaces cellYaml false readC.1 aliased.rootNode readC.2 q n := by
  rintro ⟨v, hvisit, _, hcomb⟩
  rcases visit_readC hvisit with ⟨_, rfl, rfl⟩
  exact hcomb trivial

/-- The override only adds its first entry, to the map at the root. -/
theorem inserts_readC {q : List Nat} {r : cellYaml.Ref} {key : String}
    (h : Inserts cellYaml readC.1 aliased.rootNode readC.2 q r key) :
    q = [0] ∧ (cellYaml.graph readC.1).ref aliased.rootNode = r := by
  rcases h with ⟨q₀, i, n, v, es, os, k, w, rfl, hvisit, _, hv, hw, _, _, _, href⟩
  rcases visit_readC hvisit with ⟨rfl, rfl, rfl⟩
  have hos : View.map [(Key.scalar "c", Cell.loaded 1 [0])] = .map os := hv
  rw [← View.map.inj hos] at hw
  cases i with
  | zero => exact ⟨rfl, href⟩
  | succ i => contradiction

theorem below_section {n m : cellYaml.Node} (hn : n = .loaded 0 [0] ∨ n = .loaded 0 [0, 0])
    (hm : m ∈ (cellYaml.view readC.1 n).children) : (m : Cell) = .loaded 0 [0, 0] := by
  rcases hn with rfl | rfl
  · exact List.mem_singleton.mp hm
  · contradiction

/-- The nodes of the section keep their documents. -/
theorem unchanged_section {n : cellYaml.Node} (hn : n = .loaded 0 [0] ∨ n = .loaded 0 [0, 0])
    (k : Nat) : Unchanged cellYaml false readC.1 aliased.rootNode readC.2 k n := by
  induction k generalizing n with
  | zero => trivial
  | succ k ih =>
      constructor
      · exact fun q v hrep => absurd ⟨v, hrep⟩ not_replaces_readC
      · intro _
        constructor
        · rintro q (⟨key, hins⟩ | ⟨_, _, _, _, _, _, _, _, _, _, hconcat, _⟩)
          · have href := (inserts_readC hins).2
            rcases hn with rfl | rfl
            · have hcell : Cell.loaded 0 [] = Cell.loaded 0 [0] := href
              contradiction
            · have hcell : Cell.loaded 0 [] = Cell.loaded 0 [0, 0] := href
              contradiction
          · contradiction
        · exact fun c hc => ih (Or.inr (below_section hn hc))

theorem lookup_below_section {path : List String} {t n : cellYaml.Node}
    (ht : t = .loaded 0 [0] ∨ t = .loaded 0 [0, 0])
    (hn : lookup cellYaml readC.1 t path = some n) : n = .loaded 0 [0] ∨ n = .loaded 0 [0, 0] := by
  induction path generalizing t with
  | nil =>
      rw [← Option.some.inj hn]
      exact ht
  | cons key path ih =>
      rcases (lookup_cons cellYaml_documented).mp hn with ⟨es, c, hv, hc, hn⟩
      apply ih (Or.inr (below_section ht _)) hn
      rw [hv]
      exact List.mem_map_of_mem (mem_of_findKey hc)

/-- A path that the override does not mention leads into the section. -/
theorem lookup_section {path : List String} {n : cellYaml.Node}
    (hpath : ¬ Mentions cellYaml readC.1 path readC.2)
    (hn : lookup cellYaml readC.1 aliased.rootNode path = some n) :
    n = .loaded 0 [0] ∨ n = .loaded 0 [0, 0] := by
  cases path with
  | nil => exact absurd rfl hpath
  | cons key path =>
      rcases (lookup_cons cellYaml_documented).mp hn with ⟨es, t, hv, ht, hn⟩
      have hes : View.map [(Key.scalar "a", Cell.loaded 0 [0]), (.scalar "b", .loaded 0 [0])] =
          .map es := hv
      rw [← View.map.inj hes] at ht
      apply lookup_below_section (Or.inl _) hn
      rcases List.mem_pair.mp (mem_of_findKey ht) with heq | heq
      · exact (Prod.mk.inj heq).2
      · exact (Prod.mk.inj heq).2

theorem append_unmentioned_iff_aliased :
    ∃ st', appendNode cellYaml 3 aliased readC.1 readC.2 true = .returned st' ∧
      Gives cellYaml st' ["b", "k"] (.scalar "1") := by
  have hread : ReadsNew cellYaml aliased.heap readC.1 readC.2 :=
    loads_readsNew (load_loads aliased.heap _)
  have honce : Once cellYaml (!true) readC.1 aliased.rootNode readC.2 := by
    constructor
    · exact fun q q' n v hrep => absurd hrep not_replaces_readC
    · intro q q' r key hins hins'
      rw [(inserts_readC hins).1, (inserts_readC hins').1]
  have hapart : Apart cellYaml (!true) readC.1 aliased.rootNode readC.2 := by
    constructor
    · exact fun path d p n _ _ _ _ _ q => not_replaces_readC
    · exact fun path n k d hpath hn _ => unchanged_section (lookup_section hpath hn) k
  rcases (show ∃ st', appendNode cellYaml 3 aliased readC.1 readC.2 true = .returned st' from
    ⟨_, rfl⟩) with ⟨st', hst'⟩
  apply Exists.intro st'
  constructor
  · exact hst'
  · have hroot : cellYaml.alive aliased.heap aliased.rootNode := Nat.zero_lt_one
    apply (append_unmentioned_iff cellYaml_documented hroot hread hst' (Or.inr honce)).mpr
      (Or.inr hapart)
    · rintro ⟨e, he, hkey, _⟩
      rw [List.mem_singleton.mp he] at hkey
      have heq : (some "c" : Option String) = some "b" := hkey
      simp at heq
    · exact ⟨_, 1, rfl, rfl⟩

end Conf
end Utils
end DtCore
