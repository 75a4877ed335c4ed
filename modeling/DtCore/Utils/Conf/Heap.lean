import Mathlib.Data.List.Forall2
import Mathlib.Data.List.Nodup
import Mathlib.Logic.Function.Basic
import DtCore.Utils.Conf.Yaml

/-!
# A heap of nodes

An executable heap on which the operations of yaml-cpp behave as documented.  A node
is numbered by the call that created it; the nodes of a loaded document are told
apart by their positions in it.

Main results:

- Definition `cellYaml`: the operations on this heap.
- Theorem `cellYaml_documented`: they behave as documented.
-/

namespace DtCore
namespace Utils
namespace Conf

/-! ## Cells -/

/-- A node at a position of a loaded document, or a node that was created for a
missing key. -/
inductive Cell where
  | loaded (id : Nat) (pos : List Nat)
  | entry (id : Nat)
deriving DecidableEq

/-- The call that created a node. -/
def Cell.id : Cell → Nat
  | .loaded id _ => id
  | .entry id => id

/-- Items and values of entries. -/
def Doc.children : Doc → List Doc
  | .sequence items => items
  | .map entries => entries.map Prod.snd
  | _ => []

/-- The document at a position. -/
def Doc.sub : Doc → List Nat → Option Doc
  | d, [] => some d
  | d, i :: pos => d.children[i]?.bind (fun c => c.sub pos)

/-- What the node at a position looks like. -/
def Doc.viewAt (id : Nat) (pos : List Nat) : Doc → View Cell
  | .undefined => .undefined
  | .null => .null
  | .scalar text => .scalar text
  | .sequence items => .sequence (items.mapIdx (fun i _ => .loaded id (pos ++ [i])))
  | .map entries => .map (entries.mapIdx (fun i e => (e.1, .loaded id (pos ++ [i]))))

theorem viewAt_children {id : Nat} {pos : List Nat} {d : Doc} {m : Cell}
    (hm : m ∈ (d.viewAt id pos).children) : m.id = id := by
  cases d with
  | sequence items =>
      rcases List.mem_mapIdx.mp hm with ⟨i, _, rfl⟩
      rfl
  | map entries =>
      rcases List.mem_map.mp hm with ⟨e, he, rfl⟩
      rcases List.mem_mapIdx.mp he with ⟨i, _, rfl⟩
      rfl
  | _ => simp [Doc.viewAt, View.children] at hm

/-- Nodes, the nodes whose data they share, and the data.  Nodes that were not yet
created have their own data. -/
structure Heap where
  next : Nat
  ref : Cell → Cell
  content : Cell → View Cell
  ref_lt : ∀ c, c.id < next → (ref c).id < next
  child_lt : ∀ c, c.id < next → ∀ m ∈ (content c).children, m.id < next
  ref_new : ∀ c, next ≤ c.id → ref c = c
  content_new : ∀ c, next ≤ c.id → content c = .undefined

namespace Heap

def empty : Heap where
  next := 0
  ref := fun c => c
  content := fun _ => .undefined
  ref_lt := fun _ h => h
  child_lt := fun _ h => absurd h (Nat.not_lt_zero _)
  ref_new := fun _ _ => rfl
  content_new := fun _ _ => rfl

def graph (s : Heap) : Graph Cell Cell where
  ref := s.ref
  content := s.content

theorem ref_lt_add (s : Heap) (created : Nat) (c : Cell) (hc : c.id < s.next + created) :
    (s.ref c).id < s.next + created := by
  by_cases hold : c.id < s.next
  · have hlt := s.ref_lt c hold
    omega
  · rw [s.ref_new c (by omega)]
    exact hc

theorem child_lt_add (s : Heap) (created : Nat) (c : Cell) (m : Cell)
    (hm : m ∈ (s.content c).children) : m.id < s.next + created := by
  by_cases hold : c.id < s.next
  · have hlt := s.child_lt c hold m hm
    omega
  · rw [s.content_new c (by omega)] at hm
    simp [View.children] at hm

/-- What a new document puts into its nodes. -/
def loadContent (s : Heap) (d : Doc) : Cell → View Cell
  | .loaded id pos =>
      if id = s.next then ((d.sub pos).map (fun e => e.viewAt id pos)).getD .undefined
      else s.content (.loaded id pos)
  | .entry id => s.content (.entry id)

theorem loadContent_children (s : Heap) (d : Doc) {c m : Cell}
    (hm : m ∈ (s.loadContent d c).children) : m.id < s.next + 1 := by
  cases c with
  | entry id => exact s.child_lt_add 1 (.entry id) m hm
  | loaded id pos =>
      by_cases hid : id = s.next
      · rw [loadContent, if_pos hid] at hm
        cases hsub : d.sub pos with
        | none => simp [hsub, View.children] at hm
        | some e =>
            simp only [hsub, Option.map_some, Option.getD_some] at hm
            rw [viewAt_children hm, hid]
            exact Nat.lt_succ_self _
      · rw [loadContent, if_neg hid] at hm
        exact s.child_lt_add 1 (.loaded id pos) m hm

def load (s : Heap) (d : Doc) : Heap × Cell :=
  ({ next := s.next + 1
     ref := s.ref
     content := s.loadContent d
     ref_lt := s.ref_lt_add 1
     child_lt := fun _ _ _ hm => s.loadContent_children d hm
     ref_new := fun c hc => s.ref_new c (by omega)
     content_new := by
       intro c hc
       cases c with
       | entry id => exact s.content_new (.entry id) (by omega)
       | loaded id pos =>
           have hid : id ≠ s.next := by
             simp only [Cell.id] at hc
             omega
           rw [loadContent, if_neg hid]
           exact s.content_new (.loaded id pos) (by omega) },
    .loaded s.next [])

/-- New content for existing data, which may mention nodes that are created with it. -/
def write (s : Heap) (n : Cell) (v : View Cell) (created : Nat) : Heap :=
  if h : n.id < s.next ∧ ∀ m ∈ v.children, m.id < s.next + created then
    { next := s.next + created
      ref := s.ref
      content := Function.update s.content (s.ref n) v
      ref_lt := s.ref_lt_add created
      child_lt := by
        intro c _ m hm
        by_cases hcn : c = s.ref n
        · rw [hcn, Function.update_self] at hm
          exact h.2 m hm
        · rw [Function.update_of_ne hcn] at hm
          exact s.child_lt_add created c m hm
      ref_new := fun c hc => s.ref_new c (by omega)
      content_new := by
        intro c hc
        have hcn : c ≠ s.ref n := by
          rintro rfl
          have hlt := s.ref_lt n h.1
          omega
        rw [Function.update_of_ne hcn]
        exact s.content_new c (by omega) }
  else s

/-- The entry of a map at a key; a missing one is created. -/
def subscript (s : Heap) (m : Cell) (key : String) : Heap × Cell :=
  match s.graph.view m with
  | .map entries =>
      match findKey key entries with
      | some t => (s, t)
      | none => (s.write m (.map (entries ++ [(.scalar key, .entry s.next)])) 1, .entry s.next)
  | _ => (s, m)

def pushBack (s : Heap) (n x : Cell) : Heap :=
  match s.graph.view n with
  | .sequence items => s.write n (.sequence (items ++ [x])) 0
  | _ => s

/-- A node now shares the data of another one. -/
def assign (s : Heap) (t r : Cell) : Heap :=
  if h : t.id < s.next ∧ r.id < s.next then
    { s with
      ref := Function.update s.ref t (s.ref r)
      ref_lt := by
        intro c hc
        by_cases hct : c = t
        · rw [hct, Function.update_self]
          exact s.ref_lt r h.2
        · rw [Function.update_of_ne hct]
          exact s.ref_lt c hc
      ref_new := by
        intro c hc
        have hct : c ≠ t := by
          rintro rfl
          omega
        rw [Function.update_of_ne hct]
        exact s.ref_new c hc }
  else s

def get (s : Heap) (m : Cell) (key : String) : Option Cell :=
  match s.graph.view m with
  | .map entries => findKey key entries
  | _ => none

end Heap

/-- `as<std::string>()` of a key. -/
def Key.toString : Key → Option String
  | .scalar text => some text
  | .null => some "null"
  | .complex => none

/-- yaml-cpp on this heap. -/
def cellYaml : YamlCpp where
  Heap := Heap
  Node := Cell
  Ref := Cell
  graph := Heap.graph
  alive := fun s n => n.id < s.next
  used := fun s r => r.id < s.next
  keyString := Key.toString
  get := Heap.get
  subscript := Heap.subscript
  assign := Heap.assign
  pushBack := Heap.pushBack
  defaultNode := fun s => s.load .null
  load := Heap.load

/-! ## Loading -/

theorem sub_snoc (d : Doc) (pos : List Nat) (i : Nat) :
    d.sub (pos ++ [i]) = (d.sub pos).bind (fun e => e.children[i]?) := by
  induction pos generalizing d with
  | nil =>
      cases h : d.children[i]? <;> simp [Doc.sub, h]
  | cons j pos ih =>
      rw [List.cons_append, Doc.sub, Doc.sub, Option.bind_assoc]
      congr 1
      funext c
      exact ih c

theorem load_content (s : Heap) {d e : Doc} {pos : List Nat} (h : d.sub pos = some e) :
    (s.load d).1.graph.view (.loaded s.next pos) = e.viewAt s.next pos := by
  have href : s.ref (.loaded s.next pos) = .loaded s.next pos := s.ref_new _ (Nat.le_refl _)
  change s.loadContent d (s.ref (.loaded s.next pos)) = e.viewAt s.next pos
  rw [href, Heap.loadContent, if_pos rfl, h]
  rfl

/-- A position of a loaded document holds the document there. -/
theorem load_denotes (s : Heap) (d : Doc) {k : Nat} {e : Doc} {pos : List Nat}
    (h : d.sub pos = some e) (hdepth : e.DepthLt k) :
    (s.load d).1.graph.Denotes k (.loaded s.next pos) e := by
  induction k generalizing e pos with
  | zero => exact hdepth.elim
  | succ k ih =>
      have hchild : ∀ (i : Nat) (c : Doc), e.children[i]? = some c → c.DepthLt k →
          (s.load d).1.graph.Denotes k (.loaded s.next (pos ++ [i])) c := by
        intro i c hc hck
        apply ih _ hck
        rw [sub_snoc, h, Option.bind_some, hc]
      unfold Graph.Denotes
      rw [load_content s h]
      cases e with
      | undefined => trivial
      | null => trivial
      | scalar text => rfl
      | sequence items =>
          simp only [Doc.viewAt, List.forall₂_iff_get, List.length_mapIdx, true_and]
          intro i hi hi'
          simp only [List.get_eq_getElem, List.getElem_mapIdx]
          apply hchild i
          · exact List.getElem?_eq_getElem hi'
          · exact hdepth _ (List.getElem_mem hi')
      | map entries =>
          simp only [Doc.viewAt, List.forall₂_iff_get, List.length_mapIdx, true_and]
          intro i hi hi'
          simp only [List.get_eq_getElem, List.getElem_mapIdx, true_and]
          apply hchild i
          · simp [Doc.children, List.getElem?_eq_getElem hi']
          · exact hdepth _ (List.getElem_mem hi')

/-- The children of a position are the next positions. -/
theorem load_children (s : Heap) (d : Doc) (pos : List Nat) :
    ∃ n, ((s.load d).1.graph.view (.loaded s.next pos)).children =
      (List.range n).map (fun i => Cell.loaded s.next (pos ++ [i])) := by
  cases h : d.sub pos with
  | none =>
      apply Exists.intro 0
      have href : s.ref (.loaded s.next pos) = .loaded s.next pos :=
        s.ref_new _ (Nat.le_refl _)
      change (s.loadContent d (s.ref (.loaded s.next pos))).children = _
      rw [href, Heap.loadContent, if_pos rfl, h]
      rfl
  | some e =>
      rw [load_content s h]
      cases e with
      | sequence items =>
          apply Exists.intro items.length
          apply List.ext_getElem <;> simp [Doc.viewAt, View.children]
      | map entries =>
          apply Exists.intro entries.length
          apply List.ext_getElem <;> simp [Doc.viewAt, View.children]
      | _ => exact ⟨0, rfl⟩

/-- All nodes below a position of a loaded document are at longer positions. -/
theorem load_below (s : Heap) (d : Doc) (k : Nat) {pos : List Nat} {c : Cell}
    (hc : c ∈ (s.load d).1.graph.below k (.loaded s.next pos)) :
    ∃ i q, c = .loaded s.next (pos ++ i :: q) := by
  induction k generalizing pos with
  | zero => simp [Graph.below] at hc
  | succ k ih =>
      rcases load_children s d pos with ⟨n, hn⟩
      rw [Graph.below, hn, List.mem_flatMap] at hc
      rcases hc with ⟨child, hchild, hc⟩
      rcases List.mem_map.mp hchild with ⟨i, _, rfl⟩
      rcases List.mem_cons.mp hc with rfl | hc
      · exact ⟨i, [], rfl⟩
      · rcases ih hc with ⟨j, q, rfl⟩
        exact ⟨i, j :: q, by simp⟩

theorem load_cells (s : Heap) (d : Doc) (k : Nat) {pos : List Nat} {c : Cell}
    (hc : c ∈ (s.load d).1.graph.cells k (.loaded s.next pos)) :
    ∃ q, c = .loaded s.next (pos ++ q) := by
  rcases List.mem_cons.mp hc with rfl | hc
  · exact ⟨[], by rw [List.append_nil]⟩
  · rcases load_below s d k hc with ⟨i, q, rfl⟩
    exact ⟨i :: q, rfl⟩

/-- The nodes of a loaded document are different. -/
theorem load_cells_nodup (s : Heap) (d : Doc) (k : Nat) (pos : List Nat) :
    ((s.load d).1.graph.cells k (.loaded s.next pos)).Nodup := by
  induction k generalizing pos with
  | zero => simp [Graph.cells, Graph.below]
  | succ k ih =>
      rw [Graph.cells, List.nodup_cons]
      constructor
      · intro hself
        rcases load_below s d (k + 1) hself with ⟨i, q, heq⟩
        simp at heq
      · rcases load_children s d pos with ⟨n, hn⟩
        rw [Graph.below, hn, List.nodup_flatMap]
        constructor
        · intro child hchild
          rcases List.mem_map.mp hchild with ⟨i, _, rfl⟩
          exact ih (pos ++ [i])
        · rw [List.pairwise_map]
          apply List.nodup_range.imp
          intro i j hij c hci hcj
          rcases load_cells s d k hci with ⟨q, rfl⟩
          rcases load_cells s d k hcj with ⟨q', heq⟩
          simp only [Cell.loaded.injEq, List.append_assoc, List.append_cancel_left_eq,
            List.cons_append, List.cons.injEq, true_and] at heq
          exact hij heq.1

/-- Every node of a loaded document has data of its own. -/
theorem load_refs (s : Heap) (d : Doc) (k : Nat) :
    (s.load d).1.graph.refs k (s.load d).2 = (s.load d).1.graph.cells k (s.load d).2 := by
  rw [Graph.refs]
  apply (List.map_congr_left _).trans (List.map_id _)
  intro c hc
  rcases load_cells s d k hc with ⟨q, rfl⟩
  exact s.ref_new _ (Nat.le_refl _)

theorem load_loads (s : Heap) (d : Doc) : cellYaml.Loads s d (s.load d).1 (s.load d).2 where
  mono := ⟨fun _ h => Nat.lt_succ_of_lt h, fun _ h => Nat.lt_succ_of_lt h⟩
  ref_eq := fun _ _ => rfl
  content_eq := by
    intro r hr
    change s.loadContent d r = s.content r
    cases r with
    | entry id => rfl
    | loaded id pos =>
        have hne : id ≠ s.next := Nat.ne_of_lt hr
        rw [Heap.loadContent, if_neg hne]
  denotes := fun _ hk => load_denotes s d rfl hk
  unshared := by
    intro k _
    change ((s.load d).1.graph.refs k (s.load d).2).Nodup
    rw [load_refs]
    exact load_cells_nodup s d k []
  alive_new := by
    intro k _ c hc
    rcases load_cells s d k hc with ⟨q, rfl⟩
    exact Nat.lt_succ_self _
  not_used := by
    intro k _ r hr
    have hr' : r ∈ (s.load d).1.graph.refs k (s.load d).2 := hr
    rw [load_refs] at hr'
    rcases load_cells s d k hr' with ⟨q, rfl⟩
    exact Nat.lt_irrefl _

/-! ## Updates -/

theorem Heap.child_alive (s : Heap) {n c : Cell} (hn : n.id < s.next)
    (hc : c ∈ (s.graph.view n).children) : c.id < s.next :=
  s.child_lt _ (s.ref_lt n hn) c hc

/-- A write to existing data. -/
structure Writes (s : Heap) (n : Cell) (v : View Cell) (created : Nat) (s' : Heap) : Prop where
  next : s'.next = s.next + created
  ref : s'.ref = s.ref
  content_self : s'.content (s.ref n) = v
  content_of_ne : ∀ r, r ≠ s.ref n → s'.content r = s.content r

theorem write_writes {s : Heap} {n : Cell} {v : View Cell} {created : Nat} (hn : n.id < s.next)
    (hv : ∀ m ∈ v.children, m.id < s.next + created) :
    Writes s n v created (s.write n v created) := by
  rw [Heap.write, dif_pos ⟨hn, hv⟩]
  exact ⟨rfl, rfl, Function.update_self _ _ _, fun _ hr => Function.update_of_ne hr _ _⟩

theorem Writes.extends {s s' : Heap} {n : Cell} {v : View Cell} {created : Nat}
    (h : Writes s n v created s') : cellYaml.Extends s s' := by
  have hmono : ∀ c : Cell, c.id < s.next → c.id < s'.next := by
    intro c hc
    rw [h.next]
    omega
  exact ⟨hmono, hmono⟩

theorem get_of_view {s : Heap} {m : Cell} {entries : List (Key × Cell)}
    (hview : s.graph.view m = .map entries) (key : String) :
    s.get m key = findKey key entries := by
  rw [Heap.get, hview]

theorem subscript_of_found {s : Heap} {m t : Cell} {entries : List (Key × Cell)}
    {key : String} (hview : s.graph.view m = .map entries)
    (hkey : findKey key entries = some t) : s.subscript m key = (s, t) := by
  rw [Heap.subscript, hview]
  simp only [hkey]

theorem subscript_inserts (s : Heap) (m : Cell) (entries : List (Key × Cell)) (key : String)
    (hm : m.id < s.next) (hview : s.graph.view m = .map entries)
    (hkey : findKey key entries = none) :
    cellYaml.Inserts s m entries key (s.subscript m key).1 (s.subscript m key).2 := by
  have hsub : s.subscript m key =
      (s.write m (.map (entries ++ [(.scalar key, .entry s.next)])) 1, .entry s.next) := by
    rw [Heap.subscript, hview]
    simp only [hkey]
  have hchildren : ∀ c ∈ (View.map (entries ++ [(.scalar key, .entry s.next)])).children,
      c.id < s.next + 1 := by
    intro c hc
    rw [View.children, List.map_append, List.mem_append] at hc
    rcases hc with hc | hc
    · apply Nat.lt_succ_of_lt
      apply s.child_alive hm
      rw [hview]
      exact hc
    · rw [List.mem_singleton.mp hc]
      exact Nat.lt_succ_self _
  have hwrite := write_writes hm hchildren
  have hnew : s.ref (.entry s.next) = .entry s.next := s.ref_new _ (Nat.le_refl _)
  have hne : Cell.entry s.next ≠ s.ref m := by
    intro heq
    have hlt := s.ref_lt m hm
    rw [← heq, Cell.id] at hlt
    omega
  rw [hsub]
  generalize s.write m (.map (entries ++ [(.scalar key, .entry s.next)])) 1 = s' at hwrite
  exact {
    mono := hwrite.extends
    alive_new := by
      change s.next < s'.next
      rw [hwrite.next]
      exact Nat.lt_succ_self _
    not_alive := Nat.lt_irrefl _
    not_used := by
      change ¬ (s'.ref (.entry s.next)).id < s.next
      rw [hwrite.ref, hnew]
      exact Nat.lt_irrefl _
    ref_eq := fun n _ => congrFun hwrite.ref n
    content_map := hwrite.content_self
    content_new := by
      change s'.content (s'.ref (.entry s.next)) = _
      rw [hwrite.ref, hnew, hwrite.content_of_ne _ hne]
      exact s.content_new _ (Nat.le_refl _)
    content_eq := fun r _ hr => hwrite.content_of_ne r hr }

theorem assign_assigns (s : Heap) (t r : Cell) (ht : t.id < s.next) (hr : r.id < s.next) :
    cellYaml.Assigns s t r (s.assign t r) := by
  have href : (s.assign t r).ref = Function.update s.ref t (s.ref r) := by
    rw [Heap.assign, dif_pos ⟨ht, hr⟩]
  have hcontent : (s.assign t r).content = s.content := by
    rw [Heap.assign, dif_pos ⟨ht, hr⟩]
  have hnext : (s.assign t r).next = s.next := by
    rw [Heap.assign, dif_pos ⟨ht, hr⟩]
  have hother : ∀ n : Cell, n ≠ t → (s.assign t r).ref n = s.ref n := by
    intro n hn
    rw [href, Function.update_of_ne hn]
  have hmono : ∀ n : Cell, n.id < s.next → n.id < (s.assign t r).next := by
    intro n hn
    rw [hnext]
    exact hn
  exact {
    mono := ⟨hmono, hmono⟩
    ref_self := by
      change (s.assign t r).ref t = s.ref r
      rw [href, Function.update_self]
    ref_eq := hother
    content_eq := congrFun hcontent }

theorem pushBack_pushes (s : Heap) (n : Cell) (items : List Cell) (x : Cell)
    (hn : n.id < s.next) (hx : x.id < s.next) (hview : s.graph.view n = .sequence items) :
    cellYaml.Pushes s n items x (s.pushBack n x) := by
  have hpush : s.pushBack n x = s.write n (.sequence (items ++ [x])) 0 := by
    rw [Heap.pushBack, hview]
  have hchildren : ∀ c ∈ (View.sequence (items ++ [x])).children, c.id < s.next + 0 := by
    intro c hc
    rw [View.children, List.mem_append] at hc
    rcases hc with hc | hc
    · apply s.child_alive hn
      rw [hview]
      exact hc
    · rw [List.mem_singleton.mp hc]
      exact hx
  have hwrite := write_writes hn hchildren
  rw [hpush]
  exact {
    mono := hwrite.extends
    ref_eq := congrFun hwrite.ref
    content_seq := hwrite.content_self
    content_eq := hwrite.content_of_ne }

/-- The operations of this heap behave as documented. -/
theorem cellYaml_documented : cellYaml.Documented where
  alive_child := fun s _ hn _ hc => s.child_alive hn hc
  used_ref := fun s n hn => s.ref_lt n hn
  keyString_scalar := fun _ => rfl
  keyString_complex := rfl
  get_map := fun _ _ _ key hview => get_of_view hview key
  subscript_found := fun _ _ _ _ _ hview hkey => subscript_of_found hview hkey
  subscript_missing := fun s m entries key hm hview hkey =>
    subscript_inserts s m entries key hm hview hkey
  assign_node := fun s t r ht hr => assign_assigns s t r ht hr
  push_back := pushBack_pushes
  default_null := fun s => load_loads s .null
  load_document := load_loads

end Conf
end Utils
end DtCore
