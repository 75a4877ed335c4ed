import DtCore.Utils.Conf.Merge
import DtCore.Utils.Conf.Tree

/-!
# The merge of nodes refines the merge of trees

On documents without sharing, `mergeNodes` leaves the base node with the tree that
`mergeDoc` computes, whether it returns or throws, and returns the node that
`mergeDoc` names.

Main results:

- Theorem `mergeEntries_refines`: the loop over the entries of the override.
- Theorem `mergeNodes_refines`: the whole merge.
-/

namespace DtCore
namespace Utils
namespace Conf

variable {Y : YamlCpp}

/-- The end of a call on nodes that corresponds to an end on trees. -/
def Takes.outcome (Y : YamlCpp) (s : Y.Heap) (b : Option Y.Node) (o : Y.Node) :
    Takes → Outcome Y
  | .base => .returned s b
  | .override => .returned s (some o)
  | .threw => .threw s

/-! ## Types of nodes and documents -/

theorem isDefined_iff {s : Y.Heap} {k : Nat} {n : Y.Node} {d : Doc}
    (h : (Y.graph s).Denotes k n d) : isDefined Y s n = true ↔ d ≠ .undefined := by
  have hiff := h.undefined_iff
  have hview : Y.view s n = (Y.graph s).view n := rfl
  unfold isDefined
  rw [hview]
  cases hv : (Y.graph s).view n <;> rw [hv] at hiff <;> simp_all

theorem hasContent_iff {s : Y.Heap} {k : Nat} {n : Y.Node} {d : Doc}
    (h : (Y.graph s).Denotes k n d) : hasContent Y s n = true ↔ d.HasContent := by
  have hund := h.undefined_iff
  have hnull := h.null_iff
  have hview : Y.view s n = (Y.graph s).view n := rfl
  unfold hasContent
  rw [hview]
  cases d <;> cases hv : (Y.graph s).view n <;> simp_all [Doc.HasContent]

/-! ## The base of a missing key -/

theorem mergeNodes_none (concat : Bool) {s : Y.Heap} {k : Nat} {o : Y.Node} {d : Doc}
    (h : (Y.graph s).Denotes k o d) :
    ∃ e, mergeDoc Y.keyString concat k none d = some e ∧ e.base = none ∧
      e.takes = (if d.HasContent then Takes.override else Takes.base) ∧
      mergeNodes Y concat k s none o = e.takes.outcome Y s none o := by
  cases k with
  | zero => exact h.elim
  | succ k =>
      have hcontent := hasContent_iff h
      cases d <;> simp_all [mergeDoc, mergeNodes, Doc.HasContent, Takes.outcome]

/-! ## Effects of single assignments -/

/-- Assigning an override node to the node of an entry. -/
theorem rebuilt_assign (hY : Y.Documented) {k : Nat} {s : Y.Heap} {t v : Y.Node} {d dv : Doc}
    (ht : Tree Y s k t d) (hv : Tree Y s k v dv)
    (hdisj : ((Y.graph s).refs k t ++ (Y.graph s).refs k v).Nodup) :
    Rebuilt Y k s t ((Y.graph s).refs k v) (Y.assign s t v) dv := by
  have halive := ht.alive t (Graph.self_mem_cells _ _ _)
  have hassign := hY.assign_node s t v halive (hv.alive v (Graph.self_mem_cells _ _ _))
  rw [List.nodup_append'] at hdisj
  have htref : (Y.graph s).ref t ∈ (Y.graph s).refs k t :=
    List.mem_map_of_mem (Graph.self_mem_cells _ _ _)
  have hagree : Graph.Agree (Y.graph s) (Y.graph (Y.assign s t v)) ((Y.graph s).cells k v) := by
    intro c hc
    have hne : c ≠ t := by
      rintro rfl
      exact hdisj.2.2 htref (List.mem_map_of_mem hc)
    exact ⟨hassign.ref_eq c hne, hassign.content_eq _⟩
  rcases hv.congr hassign.mono hagree with ⟨hv', hrefs⟩
  have hself : (Y.graph (Y.assign s t v)).ref t = (Y.graph (Y.assign s t v)).ref v := by
    rw [hassign.ref_self, (hagree v (Graph.self_mem_cells _ _ _)).1]
  exact {
    mono := hassign.mono
    frame := by
      intro n _ hn _
      have hne : n ≠ t := by
        rintro rfl
        exact hn htref
      exact ⟨hassign.ref_eq n hne, hassign.content_eq _⟩
    tree := hv'.of_ref_eq (hassign.mono.alive t halive) hself
    origin := by
      intro r hr
      rw [Graph.refs_of_ref_eq hself, hrefs] at hr
      exact Or.inr (Or.inl hr) }

/-- Assigning a node to itself changes nothing. -/
theorem rebuilt_assign_self (hY : Y.Documented) {k : Nat} {s : Y.Heap} {t b : Y.Node} {d : Doc}
    (hb : Tree Y s k b d) (ht : Y.alive s t) (donor : List Y.Ref) :
    Rebuilt Y k s b donor (Y.assign s t t) d ∧
      ∀ n, Y.view (Y.assign s t t) n = Y.view s n := by
  have hassign := hY.assign_node s t t ht ht
  have href : ∀ n, (Y.graph (Y.assign s t t)).ref n = (Y.graph s).ref n := by
    intro n
    by_cases hn : n = t
    · rw [hn, hassign.ref_self]
    · exact hassign.ref_eq n hn
  have hagree : ∀ l, Graph.Agree (Y.graph s) (Y.graph (Y.assign s t t)) l :=
    fun l c _ => ⟨href c, hassign.content_eq _⟩
  rcases hb.congr hassign.mono (hagree _) with ⟨hb', hrefs⟩
  constructor
  · exact {
      mono := hassign.mono
      frame := fun n _ _ _ => ⟨href n, hassign.content_eq _⟩
      tree := hb'
      origin := by
        intro r hr
        rw [hrefs] at hr
        exact Or.inl hr }
  · intro n
    exact (hagree [n]).view List.mem_cons_self

/-- An entry that was created but not assigned. -/
theorem rebuilt_subscript (hY : Y.Documented) {k : Nat} {s : Y.Heap} {b : Y.Node}
    {es : List (Key × Y.Node)} {bs : List (Key × Doc)} {key : String} {donor : List Y.Ref}
    (hview : Y.view s b = .map es) (hb : Tree Y s (k + 2) b (.map bs))
    (hdisj : ((Y.graph s).refs (k + 2) b ++ donor).Nodup) (hkey : findKey key es = none) :
    Rebuilt Y (k + 2) s b donor (Y.subscript s b key).1
      (.map (bs ++ [(.scalar key, .undefined)])) := by
  have halive := hb.alive b (Graph.self_mem_cells _ _ _)
  have hins := hY.subscript_missing s b es key halive hview hkey
  generalize (Y.subscript s b key).1 = s' at hins ⊢
  generalize (Y.subscript s b key).2 = t at hins
  have hviewNew : (Y.graph s').view t = .undefined := hins.content_new
  have hbelow : (Y.graph s').below (k + 1) t = [] := by
    rw [Graph.below, hviewNew]
    rfl
  have hrefs : (Y.graph s').refs (k + 1) t = [(Y.graph s').ref t] := by
    rw [Graph.refs, Graph.cells, hbelow]
    rfl
  have ht : Tree Y s' (k + 1) t .undefined := {
    denotes := by
      unfold Graph.Denotes
      rw [hviewNew]
      trivial
    unshared := by
      rw [hrefs]
      exact List.nodup_singleton _
    alive := by
      intro c hc
      rw [Graph.cells, hbelow, List.mem_singleton] at hc
      rw [hc]
      exact hins.alive_new }
  apply Rebuilt.of_new_child hY hview hb hdisj hins.mono hins.ref_eq hins.content_eq _ ht
  · intro r hr
    rw [hrefs, List.mem_singleton] at hr
    rw [hr]
    exact Or.inr hins.not_used
  · rw [YamlCpp.view, Graph.view, hins.ref_eq b halive]
    exact hins.content_map

/-- A new entry to which an override node is assigned. -/
theorem rebuilt_insert (hY : Y.Documented) {k : Nat} {s : Y.Heap} {b v : Y.Node}
    {es : List (Key × Y.Node)} {bs : List (Key × Doc)} {key : String} {dv : Doc}
    (hview : Y.view s b = .map es) (hb : Tree Y s (k + 1) b (.map bs)) (hv : Tree Y s k v dv)
    (hdisj : ((Y.graph s).refs (k + 1) b ++ (Y.graph s).refs k v).Nodup)
    (hkey : findKey key es = none) :
    Rebuilt Y (k + 1) s b ((Y.graph s).refs k v)
      (Y.assign (Y.subscript s b key).1 (Y.subscript s b key).2 v)
      (.map (bs ++ [(.scalar key, dv)])) := by
  have halive := hb.alive b (Graph.self_mem_cells _ _ _)
  have halive' := hv.alive v (Graph.self_mem_cells _ _ _)
  have hins := hY.subscript_missing s b es key halive hview hkey
  generalize (Y.subscript s b key).1 = u at hins ⊢
  generalize (Y.subscript s b key).2 = t at hins ⊢
  have hassign := hY.assign_node u t v hins.alive_new (hins.mono.alive v halive')
  have hne : ∀ n, Y.alive s n → n ≠ t := by
    rintro n hn rfl
    exact hins.not_alive hn
  have href : ∀ n, Y.alive s n → (Y.graph (Y.assign u t v)).ref n = (Y.graph s).ref n := by
    intro n hn
    rw [hassign.ref_eq n (hne n hn), hins.ref_eq n hn]
  have hcontent : ∀ r, Y.used s r → r ≠ (Y.graph s).ref b →
      (Y.graph (Y.assign u t v)).content r = (Y.graph s).content r := by
    intro r hr hrb
    rw [hassign.content_eq, hins.content_eq r hr hrb]
  have hbref : (Y.graph s).ref b ∈ (Y.graph s).refs (k + 1) b :=
    List.mem_map_of_mem (Graph.self_mem_cells _ _ _)
  rw [List.nodup_append'] at hdisj
  have hagree : Graph.Agree (Y.graph s) (Y.graph (Y.assign u t v)) ((Y.graph s).cells k v) := by
    intro c hc
    have hc' := hv.alive c hc
    constructor
    · exact href c hc'
    · apply hcontent _ (hY.used_ref s c hc')
      intro heq
      apply hdisj.2.2 hbref
      rw [← heq]
      exact List.mem_map_of_mem hc
  rcases hv.congr (hins.mono.trans hassign.mono) hagree with ⟨hv', hrefs⟩
  have hself : (Y.graph (Y.assign u t v)).ref t = (Y.graph (Y.assign u t v)).ref v := by
    rw [hassign.ref_self, href v halive', hins.ref_eq v halive']
  apply Rebuilt.of_new_child hY hview hb (List.nodup_append'.mpr hdisj)
    (hins.mono.trans hassign.mono) href hcontent _
    (hv'.of_ref_eq (hassign.mono.alive t hins.alive_new) hself)
  · intro r hr
    rw [Graph.refs_of_ref_eq hself, hrefs] at hr
    exact Or.inl hr
  · rw [YamlCpp.view, Graph.view, href b halive, hassign.content_eq]
    exact hins.content_map

/-! ## The loop -/

/-- What a merge of child nodes must do for the loop. -/
def MergeRefines (Y : YamlCpp) (concat : Bool) (k : Nat) : Prop :=
  ∀ s b o db dov, Tree Y s k b db → Tree Y s k o dov →
    ((Y.graph s).refs k b ++ (Y.graph s).refs k o).Nodup →
      ∃ e s' d', mergeDoc Y.keyString concat k (some db) dov = some e ∧ e.base = some d' ∧
        Rebuilt Y k s b ((Y.graph s).refs k o) s' d' ∧
        (e.takes = .override → s' = s ∧ d' = db) ∧
        mergeNodes Y concat k s (some b) o = e.takes.outcome Y s' (some b) o

/-- A round of the loop on the nodes. -/
theorem mergeEntries_cons (hY : Y.Documented)
    {merge : Y.Heap → Option Y.Node → Y.Node → Outcome Y} {s : Y.Heap} {b v : Y.Node}
    {es os : List (Key × Y.Node)} {key : Key} {text : String} (hview : Y.view s b = .map es)
    (hdefined : isDefined Y s v = true) (hkey : Y.keyString key = some text) :
    mergeEntries Y merge b s ((key, v) :: os) =
      match merge s (findKey text es) v with
      | .returned s' rhs =>
          match assignKey Y s' b text rhs with
          | (s'', true) => mergeEntries Y merge b s'' os
          | (s'', false) => .threw s''
      | .threw s' => .threw s'
      | .tooDeep => .tooDeep := by
  rw [mergeEntries, ← hY.get_map s b es text hview]
  exact (if_pos hdefined).trans (hkey ▸ rfl)

/-- How one entry of the override is merged: the loop stops with an exception, or
goes on with the base rebuilt. -/
def EntryRefines (Y : YamlCpp) (concat : Bool) (k : Nat) (s : Y.Heap) (b v : Y.Node)
    (bs : List (Key × Doc)) (dv : Doc) (key : Key) : Prop :=
  ∃ s' bs', Rebuilt Y (k + 1) s b ((Y.graph s).refs k v) s' (.map bs') ∧
    ((∀ os ds, mergeEntriesDoc Y.keyString (mergeDoc Y.keyString concat k) bs
          ((key, dv) :: ds) = some (bs', false) ∧
        mergeEntries Y (mergeNodes Y concat k) b s ((key, v) :: os) = .threw s') ∨
      (∀ os ds, mergeEntriesDoc Y.keyString (mergeDoc Y.keyString concat k) bs
          ((key, dv) :: ds) =
            mergeEntriesDoc Y.keyString (mergeDoc Y.keyString concat k) bs' ds ∧
        mergeEntries Y (mergeNodes Y concat k) b s ((key, v) :: os) =
          mergeEntries Y (mergeNodes Y concat k) b s' os))

/-- An entry whose key the base does not have. -/
theorem mergeEntry_missing (hY : Y.Documented) {concat : Bool} {k : Nat} {s : Y.Heap}
    {b v : Y.Node} {es : List (Key × Y.Node)} {bs : List (Key × Doc)} {dv : Doc} {key : Key}
    {text : String} (hview : Y.view s b = .map es) (hb : Tree Y s (k + 1) b (.map bs))
    (hv : Tree Y s k v dv)
    (hdisj : ((Y.graph s).refs (k + 1) b ++ (Y.graph s).refs k v).Nodup)
    (hkey : Y.keyString key = some text) (hdv : dv ≠ .undefined)
    (hnone : findKey text es = none) : EntryRefines Y concat k s b v bs dv key := by
  have hdefined : isDefined Y s v = true := (isDefined_iff hv.denotes).mpr hdv
  rcases hb.entries with ⟨es', hes', hentries⟩
  rw [hview] at hes'
  cases hes'
  have hnoneDoc : findKey text bs = none := hentries.denote.findKey_none hnone
  rcases mergeNodes_none concat hv.denotes with ⟨e, he, hbase, htakes, hrun⟩
  rcases e with ⟨base, takes⟩
  simp only at hbase htakes hrun
  subst hbase
  by_cases hcontent : dv.HasContent
  · rw [if_pos hcontent] at htakes
    subst htakes
    apply Exists.intro (Y.assign (Y.subscript s b text).1 (Y.subscript s b text).2 v)
    apply Exists.intro (bs ++ [(.scalar text, dv)])
    constructor
    · exact rebuilt_insert hY hview hb hv hdisj hnone
    · right
      intro os ds
      constructor
      · rw [mergeEntriesDoc_cons hdv, hkey]
        simp only [hnoneDoc, he, setKey_of_findKey_none hnoneDoc]
      · rw [mergeEntries_cons hY hview hdefined hkey, hnone, hrun]
        rfl
  · rw [if_neg hcontent] at htakes
    subst htakes
    cases k with
    | zero => exact hv.denotes.elim
    | succ k =>
        apply Exists.intro (Y.subscript s b text).1
        apply Exists.intro (bs ++ [(.scalar text, .undefined)])
        constructor
        · exact rebuilt_subscript hY hview hb hdisj hnone
        · left
          intro os ds
          constructor
          · rw [mergeEntriesDoc_cons hdv, hkey]
            simp only [hnoneDoc, he, setKey_of_findKey_none hnoneDoc]
          · rw [mergeEntries_cons hY hview hdefined hkey, hnone, hrun]
            rfl

/-- An entry whose key the base has. -/
theorem mergeEntry_found (hY : Y.Documented) {concat : Bool} {k : Nat}
    (ih : MergeRefines Y concat k) {s : Y.Heap} {b v t : Y.Node}
    {es : List (Key × Y.Node)} {bs : List (Key × Doc)} {dv : Doc} {key : Key}
    {text : String} (hview : Y.view s b = .map es) (hb : Tree Y s (k + 1) b (.map bs))
    (hv : Tree Y s k v dv)
    (hdisj : ((Y.graph s).refs (k + 1) b ++ (Y.graph s).refs k v).Nodup)
    (hkey : Y.keyString key = some text) (hdv : dv ≠ .undefined)
    (hfound : findKey text es = some t) : EntryRefines Y concat k s b v bs dv key := by
  have hdefined : isDefined Y s v = true := (isDefined_iff hv.denotes).mpr hdv
  rcases hb.child hview hfound with
    ⟨pre, post, preDocs, d, postDocs, rfl, rfl, hpreNone, hpreDocs, hpre, ht, hpost⟩
  have hdisj' : ((Y.graph s).refs k t ++ (Y.graph s).refs k v).Nodup :=
    hdisj.sublist ((refs_child_sublist hview).append (List.Sublist.refl _))
  have hfoundDoc : findKey text (preDocs ++ (.scalar text, d) :: postDocs) = some d :=
    findKey_of_split hpreDocs
  have hset : ∀ d' : Doc, setKey text d' (preDocs ++ (.scalar text, d) :: postDocs) =
      preDocs ++ (.scalar text, d') :: postDocs := fun d' => setKey_of_split hpreDocs
  rcases ih s t v d dv ht hv hdisj' with ⟨e, s', d', he, hbase, hrebuilt, hoverride, hrun⟩
  rcases e with ⟨base, takes⟩
  simp only at hbase hoverride hrun
  subst hbase
  rcases Rebuilt.of_child hY hview hb hpre hpost hdisj hrebuilt with ⟨hmap, hview'⟩
  have hsub : ∀ u, Y.view u b = .map (pre ++ (.scalar text, t) :: post) →
      Y.subscript u b text = (u, t) :=
    fun u hu => hY.subscript_found u b _ text t hu (findKey_of_split hpreNone)
  cases takes with
  | threw =>
      apply Exists.intro s'
      apply Exists.intro (preDocs ++ (.scalar text, d') :: postDocs)
      constructor
      · exact hmap
      · left
        intro os ds
        constructor
        · rw [mergeEntriesDoc_cons hdv, hkey]
          simp only [hfoundDoc, he, putBack, hset]
        · rw [mergeEntries_cons hY hview hdefined hkey, hfound, hrun]
          rfl
  | base =>
      -- `merged[key]` is assigned to itself
      have halive : Y.alive s' t :=
        hrebuilt.tree.alive t (Graph.self_mem_cells _ _ _)
      rcases rebuilt_assign_self hY hmap.tree halive [] with ⟨hself, _⟩
      apply Exists.intro (Y.assign s' t t)
      apply Exists.intro (preDocs ++ (.scalar text, d') :: postDocs)
      constructor
      · simpa using hmap.trans hY hself
      · right
        intro os ds
        constructor
        · rw [mergeEntriesDoc_cons hdv, hkey]
          simp only [hfoundDoc, he, hset]
        · rw [mergeEntries_cons hY hview hdefined hkey, hfound, hrun]
          simp only [Takes.outcome, assignKey, hsub s' hview']
  | override =>
      have hsame := hoverride rfl
      rw [hsame.1] at hrun
      have hassign := rebuilt_assign hY ht hv hdisj'
      apply Exists.intro (Y.assign s t v)
      apply Exists.intro (preDocs ++ (.scalar text, dv) :: postDocs)
      constructor
      · exact (Rebuilt.of_child hY hview hb hpre hpost hdisj hassign).1
      · right
        intro os ds
        constructor
        · rw [mergeEntriesDoc_cons hdv, hkey]
          simp only [hfoundDoc, he, hset]
        · rw [mergeEntries_cons hY hview hdefined hkey, hfound, hrun]
          simp only [Takes.outcome, assignKey, hsub s hview]

/-- The loop over the entries of the override. -/
theorem mergeEntries_refines (hY : Y.Documented) {concat : Bool} {k : Nat}
    (ih : MergeRefines Y concat k) {s : Y.Heap} {b : Y.Node} {bs ds : List (Key × Doc)}
    {os : List (Key × Y.Node)} (hb : Tree Y s (k + 1) b (.map bs)) (hos : Entries Y s k os ds)
    (hdisj : ((Y.graph s).refs (k + 1) b ++ entryRefs Y s k os).Nodup) :
    ∃ s' bs' ok, Rebuilt Y (k + 1) s b (entryRefs Y s k os) s' (.map bs') ∧
      mergeEntriesDoc Y.keyString (mergeDoc Y.keyString concat k) bs ds = some (bs', ok) ∧
      mergeEntries Y (mergeNodes Y concat k) b s os =
        (if ok then .returned s' (some b) else .threw s') := by
  induction os generalizing s bs ds with
  | nil =>
      have hnil : ds = [] := List.forall₂_nil_left_iff.mp hos.denote
      subst hnil
      exact ⟨s, bs, true, Rebuilt.refl hb _, rfl, rfl⟩
  | cons entry os ihos =>
      rcases entry with ⟨key, v⟩
      have hsplit := List.nodup_append'.mp hdisj
      rcases hos.cons hsplit.2.1 with ⟨dv, ds', rfl, hv, hrest⟩
      rw [entryRefs_cons] at hdisj ⊢
      have hdisjV : ((Y.graph s).refs (k + 1) b ++ (Y.graph s).refs k v).Nodup :=
        hdisj.sublist ((List.Sublist.refl _).append (List.sublist_append_left _ _))
      have hdisjRest : ((Y.graph s).refs (k + 1) b ++ entryRefs Y s k os).Nodup :=
        hdisj.sublist ((List.Sublist.refl _).append (List.sublist_append_right _ _))
      by_cases hdv : dv = .undefined
      · -- not defined: the iteration skips the entry
        subst hdv
        have hskip : isDefined Y s v = false := by
          have hiff := isDefined_iff hv.denotes
          simpa using hiff
        rcases ihos hb hrest hdisjRest with ⟨s', bs', ok, hrebuilt, hdoc, hrun⟩
        apply Exists.intro s'
        apply Exists.intro bs'
        apply Exists.intro ok
        constructor
        · exact hrebuilt.weaken (fun r hr => List.mem_append_right _ hr)
        · constructor
          · exact hdoc
          · rw [mergeEntries, hskip]
            exact hrun
      · cases hkey : Y.keyString key with
        | none =>
            have hdefined : isDefined Y s v = true := (isDefined_iff hv.denotes).mpr hdv
            apply Exists.intro s
            apply Exists.intro bs
            apply Exists.intro false
            constructor
            · exact Rebuilt.refl hb _
            · constructor
              · rw [mergeEntriesDoc_cons hdv, hkey]
              · rw [mergeEntries, if_pos hdefined, hkey]
                rfl
        | some text =>
            rcases hb.entries with ⟨es, hview, _⟩
            have hentry : EntryRefines Y concat k s b v bs dv key := by
              cases hfind : findKey text es with
              | none => exact mergeEntry_missing hY hview hb hv hdisjV hkey hdv hfind
              | some t => exact mergeEntry_found hY ih hview hb hv hdisjV hkey hdv hfind
            rcases hentry with ⟨u, bs', hrebuilt, hstop | hgo⟩
            · apply Exists.intro u
              apply Exists.intro bs'
              apply Exists.intro false
              constructor
              · exact hrebuilt.weaken (fun r hr => List.mem_append_left _ hr)
              · exact ⟨(hstop os ds').1, (hstop os ds').2⟩
            · -- the rest of the override is untouched by this entry
              have hout : ∀ r ∈ entryRefs Y s k os,
                  r ∉ (Y.graph s).refs (k + 1) b ∧ r ∉ (Y.graph s).refs k v := by
                intro r hr
                have hall := List.nodup_append'.mp hdisj
                have hover := List.nodup_append'.mp hall.2.1
                constructor
                · intro hr'
                  exact hall.2.2 hr' (List.mem_append_right _ hr)
                · intro hr'
                  exact hover.2.2 hr' hr
              have hagree : Graph.Agree (Y.graph s) (Y.graph u) ((Y.graph s).entryCells k os) :=
                hrebuilt.agree hrest.alive (fun c hc => hout _ (List.mem_map_of_mem hc))
              rcases hrest.congr hrebuilt.mono hagree with ⟨hrest', hrestRefs⟩
              have hdisj' : ((Y.graph u).refs (k + 1) b ++ entryRefs Y u k os).Nodup := by
                rw [hrestRefs, List.nodup_append']
                constructor
                · exact hrebuilt.tree.unshared
                · constructor
                  · exact (List.nodup_append'.mp hdisjRest).2.1
                  · intro r hr hr'
                    exact hrebuilt.not_mem (hrest.used hY hr') (hout r hr').1 (hout r hr').2 hr
              rcases ihos hrebuilt.tree hrest' hdisj' with
                ⟨s', bs'', ok, hrebuilt', hdoc, hrun⟩
              apply Exists.intro s'
              apply Exists.intro bs''
              apply Exists.intro ok
              constructor
              · rw [hrestRefs] at hrebuilt'
                exact hrebuilt.trans hY hrebuilt'
              · constructor
                · rw [(hgo os ds').1]
                  exact hdoc
                · rw [(hgo os ds').2]
                  exact hrun

/-! ## Sequences -/

theorem pushItems_spec (hY : Y.Documented) {s : Y.Heap} {b : Y.Node} {items xs : List Y.Node}
    (hview : Y.view s b = .sequence items) (hb : Y.alive s b) (hxs : ∀ x ∈ xs, Y.alive s x) :
    Y.Extends s (pushItems Y b s xs) ∧
      (∀ n, (Y.graph (pushItems Y b s xs)).ref n = (Y.graph s).ref n) ∧
      (Y.graph (pushItems Y b s xs)).content ((Y.graph s).ref b) = .sequence (items ++ xs) ∧
      ∀ r, r ≠ (Y.graph s).ref b →
        (Y.graph (pushItems Y b s xs)).content r = (Y.graph s).content r := by
  induction xs generalizing s items with
  | nil =>
      rw [pushItems, List.append_nil]
      exact ⟨YamlCpp.Extends.refl s, fun _ => rfl, hview, fun _ _ => rfl⟩
  | cons x xs ih =>
      rw [List.forall_mem_cons] at hxs
      have hpush := hY.push_back s b items x hb hxs.1 hview
      have hview' : Y.view (Y.pushBack s b x) b = .sequence (items ++ [x]) := by
        rw [YamlCpp.view, Graph.view, hpush.ref_eq]
        exact hpush.content_seq
      rcases ih hview' (hpush.mono.alive b hb) (fun y hy => hpush.mono.alive y (hxs.2 y hy)) with
        ⟨hmono, href, hseq, hcontent⟩
      rw [pushItems]
      constructor
      · exact hpush.mono.trans hmono
      · constructor
        · intro n
          rw [href, hpush.ref_eq]
        · rw [hpush.ref_eq] at hseq hcontent
          constructor
          · rw [hseq, List.append_assoc, List.singleton_append]
          · intro r hr
            rw [hcontent r hr, hpush.content_eq r hr]

/-- Appending the items of the override to the sequence of the base. -/
theorem rebuilt_pushItems (hY : Y.Documented) {k : Nat} {s : Y.Heap} {b o : Y.Node}
    {xs ys : List Doc} {items : List Y.Node} (hb : Tree Y s (k + 1) b (.sequence xs))
    (ho : Tree Y s (k + 1) o (.sequence ys)) (hview : Y.view s o = .sequence items)
    (hdisj : ((Y.graph s).refs (k + 1) b ++ (Y.graph s).refs (k + 1) o).Nodup) :
    Rebuilt Y (k + 1) s b ((Y.graph s).refs (k + 1) o) (pushItems Y b s items)
      (.sequence (xs ++ ys)) := by
  rcases hb.denotes.sequence_view with ⟨own, l, hl, hviewB, hown⟩
  cases hl
  rcases ho.denotes.sequence_view with ⟨items', l', hl', hviewO, hitems⟩
  cases hl'
  have heq : items' = items := by
    have h := hviewO.symm.trans hview
    cases h
    rfl
  subst heq
  have hbelowB := Graph.below_of_sequence (k := k) hviewB
  have hbelowO := Graph.below_of_sequence (k := k) hviewO
  have halive := hb.alive b (Graph.self_mem_cells _ _ _)
  have hitemsAlive : ∀ x ∈ items', Y.alive s x := by
    intro x hx
    apply ho.alive
    rw [Graph.cells, hbelowO]
    exact List.mem_cons_of_mem _
      (List.mem_flatMap.mpr ⟨x, hx, Graph.self_mem_cells _ _ _⟩)
  rcases pushItems_spec hY hviewB halive hitemsAlive with ⟨hmono, href, hseq, hcontent⟩
  generalize pushItems Y b s items' = s' at hmono href hseq hcontent ⊢
  have hnodup : ((Y.graph s).ref b :: ((Y.graph s).below (k + 1) b ++
      (Y.graph s).below (k + 1) o).map (Y.graph s).ref).Nodup := by
    rw [List.map_append, ← List.cons_append]
    exact hdisj.sublist ((List.Sublist.refl _).append (List.sublist_cons_self _ _))
  have hagree : Graph.Agree (Y.graph s) (Y.graph s')
      ((own ++ items').flatMap ((Y.graph s).cells k)) := by
    intro c hc
    constructor
    · exact href c
    · apply hcontent
      intro hcb
      rw [List.nodup_cons] at hnodup
      apply hnodup.1
      rw [← hcb]
      apply List.mem_map_of_mem
      rwa [hbelowB, hbelowO, ← List.flatMap_append]
  have hview' : (Y.graph s').view b = .sequence (own ++ items') := by
    rw [Graph.view, href]
    exact hseq
  have hbelow' : (Y.graph s').below (k + 1) b =
      (Y.graph s).below (k + 1) b ++ (Y.graph s).below (k + 1) o := by
    rw [Graph.below_of_sequence hview', hbelowB, hbelowO, ← List.flatMap_append]
    apply List.flatMap_congr
    intro c hc
    exact Graph.cells_congr (hagree.mono (fun m hm => List.mem_flatMap.mpr ⟨c, hc, hm⟩))
  have hrefs' : (Y.graph s').refs (k + 1) b =
      (Y.graph s).ref b :: ((Y.graph s).below (k + 1) b ++
        (Y.graph s).below (k + 1) o).map (Y.graph s).ref := by
    rw [Graph.refs, Graph.cells, hbelow', List.map_cons, href]
    congr 1
    apply List.map_congr_left
    intro c _
    exact href c
  exact {
    mono := hmono
    frame := by
      intro n _ hn _
      constructor
      · exact href n
      · apply hcontent
        intro hnb
        apply hn
        rw [hnb]
        exact List.mem_map_of_mem (Graph.self_mem_cells _ _ _)
    tree := {
      denotes := by
        apply Graph.denotes_sequence hview'
        apply forall₂_imp_mem (List.rel_append hown hitems)
        intro c hc d _ hd
        exact Graph.denotes_congr
          (hagree.mono (fun m hm => List.mem_flatMap.mpr ⟨c, hc, hm⟩)) hd
      unshared := by
        rw [hrefs']
        exact hnodup
      alive := by
        intro c hc
        apply hmono.alive
        rw [Graph.cells, hbelow'] at hc
        rcases List.mem_cons.mp hc with rfl | hc
        · exact halive
        · rcases List.mem_append.mp hc with hc | hc
          · exact hb.alive c (List.mem_cons_of_mem _ hc)
          · exact ho.alive c (List.mem_cons_of_mem _ hc) }
    origin := by
      intro r hr
      rw [hrefs', List.map_append] at hr
      rcases List.mem_cons.mp hr with rfl | hr
      · exact Or.inl List.mem_cons_self
      · rcases List.mem_append.mp hr with hr | hr
        · exact Or.inl (List.mem_cons_of_mem _ hr)
        · exact Or.inr (Or.inl (List.mem_cons_of_mem _ hr)) }

/-! ## The whole merge -/

/-- When neither both are maps nor both are sequences the override is returned. -/
theorem mergeNodes_override (concat : Bool) {k : Nat} {s : Y.Heap} {b o : Y.Node}
    {db dov : Doc} (hb : (Y.graph s).Denotes (k + 1) b db)
    (ho : (Y.graph s).Denotes (k + 1) o dov) (hcontent : dov.HasContent)
    (hmaps : ∀ bs os, ¬ (db = .map bs ∧ dov = .map os))
    (hseqs : ∀ xs ys, ¬ (db = .sequence xs ∧ dov = .sequence ys)) :
    mergeDoc Y.keyString concat (k + 1) (some db) dov =
        some { base := some db, takes := .override } ∧
      mergeNodes Y concat (k + 1) s (some b) o = .returned s (some o) := by
  have ho' : hasContent Y s o = true := (hasContent_iff ho).mpr hcontent
  constructor
  · cases db <;> cases dov <;> simp_all [mergeDoc, Doc.HasContent]
  · rw [mergeNodes, if_pos ho']
    by_cases hb' : hasContent Y s b = true
    · simp only [hb', if_true]
      have hviewB : Y.view s b = (Y.graph s).view b := rfl
      have hviewO : Y.view s o = (Y.graph s).view o := rfl
      rw [hviewB, hviewO]
      unfold Graph.Denotes at hb ho
      cases hvb : (Y.graph s).view b <;> cases hvo : (Y.graph s).view o <;>
        simp only <;> rw [hvb] at hb <;> rw [hvo] at ho <;> cases db <;> cases dov <;>
        simp_all
    · simp only [Bool.not_eq_true] at hb'
      simp [hb']

/-- `mergeNodes` on documents without sharing is `mergeDoc`, at every depth. -/
theorem mergeNodes_refines (hY : Y.Documented) (concat : Bool) (k : Nat) :
    MergeRefines Y concat k := by
  induction k with
  | zero =>
      intro s b o db dov hb _ _
      exact hb.denotes.elim
  | succ k ih =>
      intro s b o db dov hb ho hdisj
      by_cases hcontent : dov.HasContent
      · by_cases hmaps : ∃ bs os, db = .map bs ∧ dov = .map os
        · -- two maps
          rcases hmaps with ⟨bs, ds, rfl, rfl⟩
          rcases hb.entries with ⟨es, hviewB, _⟩
          rcases ho.entries with ⟨os, hviewO, hos⟩
          have hrefsO : (Y.graph s).refs (k + 1) o =
              (Y.graph s).ref o :: entryRefs Y s k os := refs_of_map hviewO
          have hsub : (entryRefs Y s k os).Sublist ((Y.graph s).refs (k + 1) o) := by
            rw [hrefsO]
            exact List.sublist_cons_self _ _
          rcases mergeEntries_refines hY ih hb hos
              (hdisj.sublist ((List.Sublist.refl _).append hsub)) with
            ⟨s', bs', ok, hrebuilt, hdoc, hrun⟩
          apply Exists.intro { base := some (.map bs'), takes := if ok then .base else .threw }
          apply Exists.intro s'
          apply Exists.intro (.map bs')
          constructor
          · simp [mergeDoc, hdoc]
          · constructor
            · rfl
            · constructor
              · exact hrebuilt.weaken (fun r hr => hsub.subset hr)
              · constructor
                · cases ok <;> simp
                · have ho' : hasContent Y s o = true := (hasContent_iff ho.denotes).mpr hcontent
                  have hb' : hasContent Y s b = true :=
                    (hasContent_iff hb.denotes).mpr trivial
                  rw [mergeNodes, if_pos ho']
                  simp only [hb', if_true, hviewB, hviewO, hrun]
                  cases ok <;> rfl
        · by_cases hseqs : ∃ xs ys, db = .sequence xs ∧ dov = .sequence ys
          · -- two sequences
            rcases hseqs with ⟨xs, ys, rfl, rfl⟩
            rcases hb.denotes.sequence_view with ⟨own, l, _, hviewB, _⟩
            rcases ho.denotes.sequence_view with ⟨items, l', _, hviewO, _⟩
            have ho' : hasContent Y s o = true := (hasContent_iff ho.denotes).mpr hcontent
            have hb' : hasContent Y s b = true := (hasContent_iff hb.denotes).mpr trivial
            have hviewB' : Y.view s b = .sequence own := hviewB
            have hviewO' : Y.view s o = .sequence items := hviewO
            have hrun : mergeNodes Y concat (k + 1) s (some b) o =
                if concat then .returned (pushItems Y b s items) (some b)
                else .returned s (some o) := by
              rw [mergeNodes, if_pos ho']
              simp only [hb', if_true, hviewB', hviewO']
            cases concat with
            | true =>
                exact ⟨{ base := some (.sequence (xs ++ ys)), takes := .base },
                  pushItems Y b s items, .sequence (xs ++ ys), by simp [mergeDoc], rfl,
                  rebuilt_pushItems hY hb ho hviewO hdisj, by simp, hrun⟩
            | false =>
                exact ⟨{ base := some (.sequence xs), takes := .override }, s, .sequence xs,
                  by simp [mergeDoc], rfl, Rebuilt.refl hb _, fun _ => ⟨rfl, rfl⟩, hrun⟩
          · rcases mergeNodes_override concat hb.denotes ho.denotes hcontent
                (fun bs os h => hmaps ⟨bs, os, h⟩) (fun xs ys h => hseqs ⟨xs, ys, h⟩) with
              ⟨hdoc, hrun⟩
            exact ⟨{ base := some db, takes := .override }, s, db, hdoc, rfl,
              Rebuilt.refl hb _, fun _ => ⟨rfl, rfl⟩, hrun⟩
      · have hnot : hasContent Y s o = false := by
          have hiff := hasContent_iff ho.denotes
          simpa [hcontent] using hiff
        have hdoc : mergeDoc Y.keyString concat (k + 1) (some db) dov =
            some { base := some db, takes := .base } := by
          cases dov <;> simp_all [mergeDoc, Doc.HasContent]
        have hrun : mergeNodes Y concat (k + 1) s (some b) o = .returned s (some b) := by
          rw [mergeNodes, hnot]
          rfl
        exact ⟨_, s, db, hdoc, rfl, Rebuilt.refl hb _, by simp, hrun⟩

end Conf
end Utils
end DtCore
