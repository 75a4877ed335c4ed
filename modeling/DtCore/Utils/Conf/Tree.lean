import DtCore.Utils.Conf.Graph

/-!
# Rebuilding trees in place

A merge rebuilds the tree of the base node: it changes only what the nodes of that
tree refer to, and the new tree is made of old parts, of parts of the override
and of new data.  These effects compose, and a rebuilt child rebuilds its parent.

Main results:

- Structure `Tree`: an unshared document at a node.
- Structure `Rebuilt`: what a merge may do to the heap.
- Theorems `Rebuilt.trans`, `Rebuilt.of_child` and `Rebuilt.of_new_child`.
-/

namespace DtCore
namespace Utils
namespace Conf

variable {Y : YamlCpp}

/-! ## Unshared documents -/

/-- A node holds a document, no data is shared within it, and all of it exists. -/
structure Tree (Y : YamlCpp) (s : Y.Heap) (k : Nat) (n : Y.Node) (d : Doc) : Prop where
  denotes : (Y.graph s).Denotes k n d
  unshared : ((Y.graph s).refs k n).Nodup
  alive : ∀ c ∈ (Y.graph s).cells k n, Y.alive s c

theorem Tree.used (hY : Y.Documented) {s : Y.Heap} {k : Nat} {n : Y.Node} {d : Doc}
    (h : Tree Y s k n d) {r : Y.Ref} (hr : r ∈ (Y.graph s).refs k n) : Y.used s r := by
  rcases List.mem_map.mp hr with ⟨c, hc, rfl⟩
  exact hY.used_ref s c (h.alive c hc)

/-- A tree that another heap leaves alone. -/
theorem Tree.congr {s s' : Y.Heap} {k : Nat} {n : Y.Node} {d : Doc} (h : Tree Y s k n d)
    (hmono : Y.Extends s s')
    (hagree : Graph.Agree (Y.graph s) (Y.graph s') ((Y.graph s).cells k n)) :
    Tree Y s' k n d ∧ (Y.graph s').refs k n = (Y.graph s).refs k n := by
  have hcells := Graph.cells_congr hagree
  have hrefs : (Y.graph s').refs k n = (Y.graph s).refs k n := by
    rw [Graph.refs, Graph.refs, hcells]
    apply List.map_congr_left
    intro c hc
    exact (hagree c hc).1
  constructor
  · exact {
      denotes := Graph.denotes_congr hagree h.denotes
      unshared := by
        rw [hrefs]
        exact h.unshared
      alive := by
        rw [hcells]
        intro c hc
        exact hmono.alive c (h.alive c hc) }
  · exact hrefs

theorem Graph.below_of_ref_eq {N R : Type} {g : Graph N R} {n m : N} (h : g.ref n = g.ref m)
    (k : Nat) : g.below k n = g.below k m := by
  have hview : g.view n = g.view m := by rw [Graph.view, Graph.view, h]
  cases k with
  | zero => rfl
  | succ k => rw [Graph.below, Graph.below, hview]

theorem Graph.denotes_of_ref_eq {N R : Type} {g : Graph N R} {n m : N} (h : g.ref n = g.ref m)
    {k : Nat} {d : Doc} (hd : g.Denotes k m d) : g.Denotes k n d := by
  have hview : g.view n = g.view m := by rw [Graph.view, Graph.view, h]
  cases k with
  | zero => exact hd
  | succ k =>
      unfold Graph.Denotes at hd ⊢
      rw [hview]
      exact hd

theorem Graph.refs_of_ref_eq {N R : Type} {g : Graph N R} {n m : N} (h : g.ref n = g.ref m)
    (k : Nat) : g.refs k n = g.refs k m := by
  simp only [Graph.refs, Graph.cells, List.map_cons, h, Graph.below_of_ref_eq h]

/-- A node that shares the data of a tree is a tree as well. -/
theorem Tree.of_ref_eq {s : Y.Heap} {k : Nat} {n m : Y.Node} {d : Doc} (h : Tree Y s k m d)
    (hn : Y.alive s n) (href : (Y.graph s).ref n = (Y.graph s).ref m) : Tree Y s k n d where
  denotes := Graph.denotes_of_ref_eq href h.denotes
  unshared := by
    rw [Graph.refs_of_ref_eq href]
    exact h.unshared
  alive := by
    intro c hc
    rcases List.mem_cons.mp hc with rfl | hc
    · exact hn
    · rw [Graph.below_of_ref_eq href] at hc
      exact h.alive c (List.mem_cons_of_mem _ hc)

/-- The trees of the values of a map. -/
structure Entries (Y : YamlCpp) (s : Y.Heap) (k : Nat) (es : List (Key × Y.Node))
    (ds : List (Key × Doc)) : Prop where
  denote : (Y.graph s).EntriesDenote k es ds
  alive : ∀ c ∈ (Y.graph s).entryCells k es, Y.alive s c

/-- What the nodes at or below the values of a map refer to. -/
def entryRefs (Y : YamlCpp) (s : Y.Heap) (k : Nat) (es : List (Key × Y.Node)) : List Y.Ref :=
  ((Y.graph s).entryCells k es).map (Y.graph s).ref

theorem Entries.congr {s s' : Y.Heap} {k : Nat} {es : List (Key × Y.Node)}
    {ds : List (Key × Doc)} (h : Entries Y s k es ds) (hmono : Y.Extends s s')
    (hagree : Graph.Agree (Y.graph s) (Y.graph s') ((Y.graph s).entryCells k es)) :
    Entries Y s' k es ds ∧ entryRefs Y s' k es = entryRefs Y s k es := by
  have hcells := Graph.entryCells_congr hagree
  constructor
  · exact {
      denote := Graph.entriesDenote_congr hagree h.denote
      alive := by
        rw [hcells]
        intro c hc
        exact hmono.alive c (h.alive c hc) }
  · rw [entryRefs, entryRefs, hcells]
    apply List.map_congr_left
    intro c hc
    exact (hagree c hc).1

theorem Entries.used (hY : Y.Documented) {s : Y.Heap} {k : Nat} {es : List (Key × Y.Node)}
    {ds : List (Key × Doc)} (h : Entries Y s k es ds) {r : Y.Ref}
    (hr : r ∈ entryRefs Y s k es) : Y.used s r := by
  rcases List.mem_map.mp hr with ⟨c, hc, rfl⟩
  exact hY.used_ref s c (h.alive c hc)

theorem entryRefs_append (s : Y.Heap) (k : Nat) (es fs : List (Key × Y.Node)) :
    entryRefs Y s k (es ++ fs) = entryRefs Y s k es ++ entryRefs Y s k fs := by
  simp [entryRefs, Graph.entryCells]

theorem entryRefs_cons (s : Y.Heap) (k : Nat) (key : Key) (n : Y.Node)
    (es : List (Key × Y.Node)) :
    entryRefs Y s k ((key, n) :: es) = (Y.graph s).refs k n ++ entryRefs Y s k es := by
  simp [entryRefs, Graph.entryCells, Graph.refs]

theorem refs_of_map {s : Y.Heap} {k : Nat} {n : Y.Node} {es : List (Key × Y.Node)}
    (h : Y.view s n = .map es) :
    (Y.graph s).refs (k + 1) n = (Y.graph s).ref n :: entryRefs Y s k es := by
  rw [Graph.refs, Graph.cells, Graph.below_of_map h]
  rfl

/-- A map is a tree when its values are and nothing is shared. -/
theorem Tree.of_entries {s : Y.Heap} {k : Nat} {n : Y.Node} {es : List (Key × Y.Node)}
    {ds : List (Key × Doc)} (hview : Y.view s n = .map es) (hn : Y.alive s n)
    (hes : Entries Y s k es ds)
    (hnodup : ((Y.graph s).ref n :: entryRefs Y s k es).Nodup) :
    Tree Y s (k + 1) n (.map ds) where
  denotes := Graph.denotes_map hview hes.denote
  unshared := by
    rw [refs_of_map hview]
    exact hnodup
  alive := by
    intro c hc
    rw [Graph.cells, Graph.below_of_map hview] at hc
    rcases List.mem_cons.mp hc with rfl | hc
    · exact hn
    · exact hes.alive c hc

/-- The values of a map that is a tree. -/
theorem Tree.entries {s : Y.Heap} {k : Nat} {n : Y.Node} {ds : List (Key × Doc)}
    (h : Tree Y s (k + 1) n (.map ds)) :
    ∃ es, Y.view s n = .map es ∧ Entries Y s k es ds := by
  rcases h.denotes.map_view with ⟨es, l, hl, hview, hes⟩
  cases hl
  apply Exists.intro es
  constructor
  · exact hview
  · exact {
      denote := hes
      alive := by
        intro c hc
        apply h.alive
        rw [Graph.cells, Graph.below_of_map hview]
        exact List.mem_cons_of_mem _ hc }

/-- The value of an entry that is found, with the entries before and after it. -/
theorem Tree.child {s : Y.Heap} {k : Nat} {n t : Y.Node} {es : List (Key × Y.Node)}
    {ds : List (Key × Doc)} {key : String} (h : Tree Y s (k + 1) n (.map ds))
    (hview : Y.view s n = .map es) (hkey : findKey key es = some t) :
    ∃ pre post preDocs d postDocs,
      es = pre ++ (.scalar key, t) :: post ∧ ds = preDocs ++ (.scalar key, d) :: postDocs ∧
        findKey key pre = none ∧ findKey key preDocs = none ∧ Entries Y s k pre preDocs ∧
          Tree Y s k t d ∧ Entries Y s k post postDocs := by
  rcases h.entries with ⟨es', hes', hentries⟩
  rw [hview] at hes'
  cases hes'
  rcases hentries.denote.split hkey with
    ⟨pre, post, preDocs, d, postDocs, rfl, rfl, hpreNone, hpreDocs, hpre, hd, hpost⟩
  have hunshared := h.unshared
  rw [refs_of_map hview, entryRefs_append, entryRefs_cons, List.nodup_cons,
    List.nodup_append', List.nodup_append'] at hunshared
  have hcells : ∀ c, c ∈ (Y.graph s).entryCells k pre ∨ c ∈ (Y.graph s).cells k t ∨
      c ∈ (Y.graph s).entryCells k post → Y.alive s c := by
    intro c hc
    apply hentries.alive
    rw [Graph.entryCells, List.flatMap_append, List.flatMap_cons, List.mem_append,
      List.mem_append]
    exact hc
  exact ⟨pre, post, preDocs, d, postDocs, rfl, rfl, hpreNone, hpreDocs,
    ⟨hpre, fun c hc => hcells c (Or.inl hc)⟩,
    ⟨hd, hunshared.2.2.1.1, fun c hc => hcells c (Or.inr (Or.inl hc))⟩,
    ⟨hpost, fun c hc => hcells c (Or.inr (Or.inr hc))⟩⟩

theorem Entries.cons {s : Y.Heap} {k : Nat} {key : Key} {n : Y.Node}
    {es : List (Key × Y.Node)} {ds : List (Key × Doc)} (h : Entries Y s k ((key, n) :: es) ds)
    (hnodup : (entryRefs Y s k ((key, n) :: es)).Nodup) :
    ∃ d ds', ds = (key, d) :: ds' ∧ Tree Y s k n d ∧ Entries Y s k es ds' := by
  rcases h with ⟨hdenote, halive⟩
  rw [entryRefs_cons, List.nodup_append'] at hnodup
  have hcells : ∀ c, c ∈ (Y.graph s).cells k n ∨ c ∈ (Y.graph s).entryCells k es →
      Y.alive s c := by
    intro c hc
    apply halive
    rw [Graph.entryCells, List.flatMap_cons, List.mem_append]
    exact hc
  cases hdenote with
  | cons hed hrest =>
      rename_i d ds'
      rcases d with ⟨kd, d⟩
      simp only at hed
      rcases hed with ⟨rfl, hd⟩
      exact ⟨d, ds', rfl, ⟨hd, hnodup.1, fun c hc => hcells c (Or.inl hc)⟩,
        ⟨hrest, fun c hc => hcells c (Or.inr hc)⟩⟩

theorem Entries.nil (s : Y.Heap) (k : Nat) : Entries Y s k [] [] where
  denote := List.Forall₂.nil
  alive := by simp [Graph.entryCells]

/-- A tree becomes the value of an entry between others. -/
theorem Entries.insert {s : Y.Heap} {k : Nat} {t : Y.Node} {key : Key} {d : Doc}
    {pre post : List (Key × Y.Node)} {preDocs postDocs : List (Key × Doc)}
    (hpre : Entries Y s k pre preDocs) (ht : Tree Y s k t d)
    (hpost : Entries Y s k post postDocs) :
    Entries Y s k (pre ++ (key, t) :: post) (preDocs ++ (key, d) :: postDocs) where
  denote := List.rel_append hpre.denote (List.Forall₂.cons ⟨rfl, ht.denotes⟩ hpost.denote)
  alive := by
    intro c hc
    rw [Graph.entryCells, List.flatMap_append, List.flatMap_cons] at hc
    rcases List.mem_append.mp hc with hc | hc
    · exact hpre.alive c hc
    · rcases List.mem_append.mp hc with hc | hc
      · exact ht.alive c hc
      · exact hpost.alive c hc

/-- What a child refers to is part of what the map refers to. -/
theorem refs_child_sublist {s : Y.Heap} {k : Nat} {n t : Y.Node} {key : Key}
    {pre post : List (Key × Y.Node)} (hview : Y.view s n = .map (pre ++ (key, t) :: post)) :
    ((Y.graph s).refs k t).Sublist ((Y.graph s).refs (k + 1) n) := by
  rw [refs_of_map hview, entryRefs_append, entryRefs_cons]
  apply List.Sublist.cons
  exact (List.sublist_append_left _ _).trans (List.sublist_append_right _ _)

/-! ## The effect of a merge -/

/-- The tree at `t` was rebuilt to hold `d`.  Nodes that referred neither to the data
of that tree nor to that of the override, `donor`, are untouched; the new tree refers
to old data of the tree, to data of the override, and to new data. -/
structure Rebuilt (Y : YamlCpp) (k : Nat) (s : Y.Heap) (t : Y.Node) (donor : List Y.Ref)
    (s' : Y.Heap) (d : Doc) : Prop where
  mono : Y.Extends s s'
  frame : ∀ n, Y.alive s n → (Y.graph s).ref n ∉ (Y.graph s).refs k t →
    (Y.graph s).ref n ∉ donor →
      (Y.graph s').ref n = (Y.graph s).ref n ∧
        (Y.graph s').content ((Y.graph s).ref n) = (Y.graph s).content ((Y.graph s).ref n)
  tree : Tree Y s' k t d
  origin : ∀ r ∈ (Y.graph s').refs k t,
    r ∈ (Y.graph s).refs k t ∨ r ∈ donor ∨ ¬ Y.used s r

theorem YamlCpp.Extends.refl (s : Y.Heap) : Y.Extends s s :=
  ⟨fun _ h => h, fun _ h => h⟩

theorem YamlCpp.Extends.trans {s t u : Y.Heap} (h : Y.Extends s t) (h' : Y.Extends t u) :
    Y.Extends s u :=
  ⟨fun n hn => h'.alive n (h.alive n hn), fun r hr => h'.used r (h.used r hr)⟩

theorem Rebuilt.refl {k : Nat} {s : Y.Heap} {t : Y.Node} {d : Doc} (h : Tree Y s k t d)
    (donor : List Y.Ref) : Rebuilt Y k s t donor s d where
  mono := YamlCpp.Extends.refl s
  frame := fun _ _ _ _ => ⟨rfl, rfl⟩
  tree := h
  origin := fun _ hr => Or.inl hr

/-- Data that exists elsewhere stays out of a rebuilt tree. -/
theorem Rebuilt.not_mem {k : Nat} {s s' : Y.Heap} {t : Y.Node} {donor : List Y.Ref} {d : Doc}
    (h : Rebuilt Y k s t donor s' d) {r : Y.Ref} (hused : Y.used s r)
    (ht : r ∉ (Y.graph s).refs k t) (hover : r ∉ donor) : r ∉ (Y.graph s').refs k t := by
  intro hr
  rcases h.origin r hr with hr | hr | hr
  · exact ht hr
  · exact hover hr
  · exact hr hused

/-- One merge after the other. -/
theorem Rebuilt.trans (hY : Y.Documented) {k : Nat} {s u v : Y.Heap} {t : Y.Node}
    {donor donor' : List Y.Ref} {d d' : Doc} (h : Rebuilt Y k s t donor u d)
    (h' : Rebuilt Y k u t donor' v d') : Rebuilt Y k s t (donor ++ donor') v d' where
  mono := h.mono.trans h'.mono
  frame := by
    intro n hn ht hover
    rw [List.mem_append, not_or] at hover
    rcases h.frame n hn ht hover.1 with ⟨href, hcontent⟩
    have ht' : (Y.graph s).ref n ∉ (Y.graph u).refs k t :=
      h.not_mem (hY.used_ref s n hn) ht hover.1
    have hnext := h'.frame n (h.mono.alive n hn) (by rw [href]; exact ht')
      (by rw [href]; exact hover.2)
    rw [href, hcontent] at hnext
    exact hnext
  tree := h'.tree
  origin := by
    intro r hr
    rw [List.mem_append]
    rcases h'.origin r hr with hr | hr | hr
    · rcases h.origin r hr with hr | hr | hr
      · exact Or.inl hr
      · exact Or.inr (Or.inl (Or.inl hr))
      · exact Or.inr (Or.inr hr)
    · exact Or.inr (Or.inl (Or.inr hr))
    · exact Or.inr (Or.inr (fun hused => hr (h.mono.used r hused)))

/-- A larger override allows more. -/
theorem Rebuilt.weaken {k : Nat} {s s' : Y.Heap} {t : Y.Node} {donor donor' : List Y.Ref}
    {d : Doc} (h : Rebuilt Y k s t donor s' d) (hsub : ∀ r ∈ donor, r ∈ donor') :
    Rebuilt Y k s t donor' s' d where
  mono := h.mono
  frame := fun n hn ht hover => h.frame n hn ht (fun hr => hover (hsub _ hr))
  tree := h.tree
  origin := by
    intro r hr
    rcases h.origin r hr with hr | hr | hr
    · exact Or.inl hr
    · exact Or.inr (Or.inl (hsub r hr))
    · exact Or.inr (Or.inr hr)

/-- Nodes that refer to data elsewhere are untouched. -/
theorem Rebuilt.agree {k : Nat} {s s' : Y.Heap} {t : Y.Node} {donor : List Y.Ref} {d : Doc}
    (h : Rebuilt Y k s t donor s' d) {l : List Y.Node} (halive : ∀ c ∈ l, Y.alive s c)
    (hdisj : ∀ c ∈ l, (Y.graph s).ref c ∉ (Y.graph s).refs k t ∧ (Y.graph s).ref c ∉ donor) :
    Graph.Agree (Y.graph s) (Y.graph s') l := by
  intro c hc
  exact h.frame c (halive c hc) (hdisj c hc).1 (hdisj c hc).2

theorem nodup_replace {α : Type} {l₁ m l₂ m' : List α} (h : (l₁ ++ m ++ l₂).Nodup)
    (hm : m'.Nodup) (hdisj : ∀ x ∈ m', x ∉ l₁ ∧ x ∉ l₂) : (l₁ ++ m' ++ l₂).Nodup := by
  rw [List.append_assoc, List.nodup_append'] at h ⊢
  rcases h with ⟨h₁, hml, hd⟩
  rw [List.nodup_append'] at hml
  constructor
  · exact h₁
  · constructor
    · rw [List.nodup_append']
      exact ⟨hm, hml.2.1, fun x hx hx' => (hdisj x hx).2 hx'⟩
    · intro x hx hx'
      rcases List.mem_append.mp hx' with hx' | hx'
      · exact (hdisj x hx').1 hx
      · exact hd hx (List.mem_append_right _ hx')

/-- The parts around the middle one share nothing with it or with what follows. -/
theorem not_mem_of_nodup {α : Type} {l₁ m l₂ l₃ : List α} (h : ((l₁ ++ m ++ l₂) ++ l₃).Nodup)
    {x : α} (hx : x ∈ l₁ ∨ x ∈ l₂) : x ∉ m ∧ x ∉ l₃ := by
  rw [List.nodup_append', List.nodup_append', List.nodup_append'] at h
  rcases h with ⟨⟨⟨_, _, hfirst⟩, _, hsecond⟩, _, hlast⟩
  rcases hx with hx | hx
  · constructor
    · exact hfirst hx
    · exact hlast (List.mem_append_left _ (List.mem_append_left _ hx))
  · constructor
    · exact fun hm => hsecond (List.mem_append_right _ hm) hx
    · exact hlast (List.mem_append_right _ hx)

/-- Rebuilding the value of an entry rebuilds the map. -/
theorem Rebuilt.of_child (hY : Y.Documented) {k : Nat} {s s' : Y.Heap} {b t : Y.Node}
    {pre post : List (Key × Y.Node)} {preDocs postDocs : List (Key × Doc)} {key : Key}
    {d d' : Doc} {donor : List Y.Ref} (hview : Y.view s b = .map (pre ++ (key, t) :: post))
    (hb : Tree Y s (k + 1) b (.map (preDocs ++ (key, d) :: postDocs)))
    (hpre : Entries Y s k pre preDocs) (hpost : Entries Y s k post postDocs)
    (hdisj : ((Y.graph s).refs (k + 1) b ++ donor).Nodup) (h : Rebuilt Y k s t donor s' d') :
    Rebuilt Y (k + 1) s b donor s' (.map (preDocs ++ (key, d') :: postDocs)) ∧
      Y.view s' b = .map (pre ++ (key, t) :: post) := by
  have halive := hb.alive b (Graph.self_mem_cells _ _ _)
  have hrefs : (Y.graph s).refs (k + 1) b =
      ((Y.graph s).ref b :: entryRefs Y s k pre) ++ (Y.graph s).refs k t ++
        entryRefs Y s k post := by
    rw [refs_of_map hview, entryRefs_append, entryRefs_cons]
    simp
  have hnodup := hb.unshared
  rw [hrefs] at hnodup hdisj
  -- the other parts of the map refer neither to the child nor to the override
  have hout : ∀ r, r ∈ (Y.graph s).ref b :: entryRefs Y s k pre ∨ r ∈ entryRefs Y s k post →
      r ∉ (Y.graph s).refs k t ∧ r ∉ donor := by
    intro r hr
    exact not_mem_of_nodup hdisj hr
  have hagreePre : Graph.Agree (Y.graph s) (Y.graph s') ((Y.graph s).entryCells k pre) :=
    h.agree hpre.alive
      (fun c hc => hout _ (Or.inl (List.mem_cons_of_mem _ (List.mem_map_of_mem hc))))
  have hagreePost : Graph.Agree (Y.graph s) (Y.graph s') ((Y.graph s).entryCells k post) :=
    h.agree hpost.alive (fun c hc => hout _ (Or.inr (List.mem_map_of_mem hc)))
  have hself := h.frame b halive (hout _ (Or.inl List.mem_cons_self)).1
    (hout _ (Or.inl List.mem_cons_self)).2
  have hview' : Y.view s' b = .map (pre ++ (key, t) :: post) := by
    rw [← hview, YamlCpp.view, YamlCpp.view, Graph.view, Graph.view, hself.1, hself.2]
  rcases hpre.congr h.mono hagreePre with ⟨hpre', hpreRefs⟩
  rcases hpost.congr h.mono hagreePost with ⟨hpost', hpostRefs⟩
  have hes : Entries Y s' k (pre ++ (key, t) :: post) (preDocs ++ (key, d') :: postDocs) :=
    hpre'.insert h.tree hpost'
  have hrefs' : (Y.graph s').ref b :: entryRefs Y s' k (pre ++ (key, t) :: post) =
      ((Y.graph s).ref b :: entryRefs Y s k pre) ++ (Y.graph s').refs k t ++
        entryRefs Y s k post := by
    rw [entryRefs_append, entryRefs_cons, hpreRefs, hpostRefs, hself.1]
    simp
  have hused : ∀ r, r ∈ (Y.graph s).ref b :: entryRefs Y s k pre ∨ r ∈ entryRefs Y s k post →
      Y.used s r := by
    rintro r (hr | hr)
    · rcases List.mem_cons.mp hr with rfl | hr
      · exact hY.used_ref s b halive
      · exact hpre.used hY hr
    · exact hpost.used hY hr
  have hnodup' : ((Y.graph s').ref b :: entryRefs Y s' k (pre ++ (key, t) :: post)).Nodup := by
    rw [hrefs']
    apply nodup_replace hnodup h.tree.unshared
    intro r hr
    constructor
    · intro hr'
      exact h.not_mem (hused r (Or.inl hr')) (hout r (Or.inl hr')).1 (hout r (Or.inl hr')).2 hr
    · intro hr'
      exact h.not_mem (hused r (Or.inr hr')) (hout r (Or.inr hr')).1 (hout r (Or.inr hr')).2 hr
  constructor
  · exact {
      mono := h.mono
      frame := by
        intro n hn hnb hover
        apply h.frame n hn _ hover
        intro ht
        apply hnb
        rw [hrefs]
        exact List.mem_append_left _ (List.mem_append_right _ ht)
      tree := Tree.of_entries hview' (h.mono.alive b halive) hes hnodup'
      origin := by
        intro r hr
        rw [refs_of_map hview', hrefs'] at hr
        rw [hrefs]
        rcases List.mem_append.mp hr with hr | hr
        · rcases List.mem_append.mp hr with hr | hr
          · exact Or.inl (List.mem_append_left _ (List.mem_append_left _ hr))
          · rcases h.origin r hr with hr | hr | hr
            · exact Or.inl (List.mem_append_left _ (List.mem_append_right _ hr))
            · exact Or.inr (Or.inl hr)
            · exact Or.inr (Or.inr hr)
        · exact Or.inl (List.mem_append_right _ hr) }
  · exact hview'

/-- A new entry of a map whose value refers to data of the override or to new data. -/
theorem Rebuilt.of_new_child (hY : Y.Documented) {k : Nat} {s s' : Y.Heap} {b t : Y.Node}
    {es : List (Key × Y.Node)} {bs : List (Key × Doc)} {key : Key} {d : Doc}
    {donor : List Y.Ref} (hview : Y.view s b = .map es) (hb : Tree Y s (k + 1) b (.map bs))
    (hdisj : ((Y.graph s).refs (k + 1) b ++ donor).Nodup) (hmono : Y.Extends s s')
    (href : ∀ n, Y.alive s n → (Y.graph s').ref n = (Y.graph s).ref n)
    (hcontent : ∀ r, Y.used s r → r ≠ (Y.graph s).ref b →
      (Y.graph s').content r = (Y.graph s).content r)
    (hview' : Y.view s' b = .map (es ++ [(key, t)])) (ht : Tree Y s' k t d)
    (horigin : ∀ r ∈ (Y.graph s').refs k t, r ∈ donor ∨ ¬ Y.used s r) :
    Rebuilt Y (k + 1) s b donor s' (.map (bs ++ [(key, d)])) := by
  have halive := hb.alive b (Graph.self_mem_cells _ _ _)
  have hrefs : (Y.graph s).refs (k + 1) b = (Y.graph s).ref b :: entryRefs Y s k es :=
    refs_of_map hview
  rcases hb.entries with ⟨es', hes', hentries⟩
  rw [hview] at hes'
  cases hes'
  have hnodup := hb.unshared
  rw [hrefs] at hnodup hdisj
  have hagree : Graph.Agree (Y.graph s) (Y.graph s') ((Y.graph s).entryCells k es) := by
    intro c hc
    have hc' := hentries.alive c hc
    constructor
    · exact href c hc'
    · apply hcontent _ (hY.used_ref s c hc')
      intro heq
      rw [List.nodup_cons] at hnodup
      apply hnodup.1
      rw [← heq]
      exact List.mem_map_of_mem hc
  rcases hentries.congr hmono hagree with ⟨hentries', hentryRefs⟩
  have hnew : Entries Y s' k (es ++ [(key, t)]) (bs ++ [(key, d)]) :=
    hentries'.insert ht (Entries.nil s' k)
  have hrefs' : (Y.graph s').ref b :: entryRefs Y s' k (es ++ [(key, t)]) =
      ((Y.graph s).ref b :: entryRefs Y s k es) ++ (Y.graph s').refs k t := by
    rw [entryRefs_append, entryRefs_cons, hentryRefs, href b halive]
    simp [entryRefs, Graph.entryCells]
  have hused : ∀ r ∈ (Y.graph s).ref b :: entryRefs Y s k es, Y.used s r := by
    intro r hr
    rcases List.mem_cons.mp hr with rfl | hr
    · exact hY.used_ref s b halive
    · exact hentries.used hY hr
  have hnodup' : ((Y.graph s').ref b :: entryRefs Y s' k (es ++ [(key, t)])).Nodup := by
    rw [hrefs', List.nodup_append']
    constructor
    · exact hnodup
    · constructor
      · exact ht.unshared
      · intro r hr hr'
        rw [List.nodup_append'] at hdisj
        rcases horigin r hr' with hover | hfresh
        · exact hdisj.2.2 hr hover
        · exact hfresh (hused r hr)
  exact {
    mono := hmono
    frame := by
      intro n hn hnb _
      constructor
      · exact href n hn
      · apply hcontent _ (hY.used_ref s n hn)
        intro heq
        apply hnb
        rw [hrefs, heq]
        exact List.mem_cons_self
    tree := Tree.of_entries hview' (hmono.alive b halive) hnew hnodup'
    origin := by
      intro r hr
      rw [refs_of_map hview', hrefs'] at hr
      rw [hrefs]
      rcases List.mem_append.mp hr with hr | hr
      · exact Or.inl hr
      · exact Or.inr (horigin r hr) }

end Conf
end Utils
end DtCore
