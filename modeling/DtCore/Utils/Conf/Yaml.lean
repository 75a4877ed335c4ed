import DtCore.Utils.Conf.Doc

/-!
# What the configuration relies on in yaml-cpp

A `YAML::Node` is a handle on a node that refers to some data.  Copies of a handle
share the node, and assigning to a node makes it refer to the data of another one,
so that nodes come to share data.  The library is a parameter: a type of heaps, the
operations that `Conf` calls, and what is documented about them.

Keys are values here: nothing is ever assigned to the key of a map.

Main definitions:

- `Graph`: nodes, the data they refer to, and what the data looks like.
- `Graph.Denotes`: a node holds a document.
- `YamlCpp` and `YamlCpp.Documented`: the operations and their behaviour.
-/

namespace DtCore
namespace Utils
namespace Conf

/-! ## Nodes and data -/

/-- What `Type()`, the scalar text and iteration show. -/
inductive View (N : Type) where
  | undefined
  | null
  | scalar (text : String)
  | sequence (items : List N)
  | map (entries : List (Key × N))

/-- The nodes that are reached in one step. -/
def View.children {N : Type} : View N → List N
  | .sequence items => items
  | .map entries => entries.map Prod.snd
  | _ => []

/-- Nodes that refer to data; `Node::is` compares what two nodes refer to. -/
structure Graph (N R : Type) where
  ref : N → R
  content : R → View N

namespace Graph

variable {N R : Type}

/-- What a node looks like. -/
def view (g : Graph N R) (n : N) : View N :=
  g.content (g.ref n)

/-- The nodes below a node, to a depth. -/
def below (g : Graph N R) : Nat → N → List N
  | 0, _ => []
  | k + 1, n => (g.view n).children.flatMap (fun c => c :: g.below k c)

/-- A node and the nodes below it. -/
def cells (g : Graph N R) (k : Nat) (n : N) : List N :=
  n :: g.below k n

/-- What a node and the nodes below it refer to. -/
def refs (g : Graph N R) (k : Nat) (n : N) : List R :=
  (g.cells k n).map g.ref

/-- A node holds a document of less than the given depth. -/
def Denotes (g : Graph N R) : Nat → N → Doc → Prop
  | 0, _, _ => False
  | k + 1, n, d =>
      match g.view n, d with
      | .undefined, .undefined => True
      | .null, .null => True
      | .scalar text, .scalar text' => text = text'
      | .sequence items, .sequence docs => List.Forall₂ (g.Denotes k) items docs
      | .map entries, .map docs =>
          List.Forall₂ (fun e d => e.1 = d.1 ∧ g.Denotes k e.2 d.2) entries docs
      | _, _ => False

end Graph

/-- A document has less than the given depth. -/
def Doc.DepthLt : Nat → Doc → Prop
  | 0, _ => False
  | k + 1, .sequence items => ∀ d ∈ items, d.DepthLt k
  | k + 1, .map entries => ∀ e ∈ entries, e.2.DepthLt k
  | _ + 1, _ => True

theorem Doc.DepthLt.mono {d : Doc} {j k : Nat} (h : d.DepthLt j) (hjk : j ≤ k) :
    d.DepthLt k := by
  induction j generalizing d k with
  | zero => exact h.elim
  | succ j ih =>
      cases k with
      | zero => omega
      | succ k =>
          have hjk' : j ≤ k := Nat.le_of_succ_le_succ hjk
          cases d with
          | sequence items => exact fun d hd => ih (h d hd) hjk'
          | map entries => exact fun e he => ih (h e he) hjk'
          | _ => trivial

/-- Documents that all have a depth have a common one. -/
theorem exists_common_depth {α : Type} (l : List α) (doc : α → Doc)
    (h : ∀ a ∈ l, ∃ k, (doc a).DepthLt k) : ∃ k, ∀ a ∈ l, (doc a).DepthLt k := by
  induction l with
  | nil => exact ⟨0, by simp⟩
  | cons a l ih =>
      rw [List.forall_mem_cons] at h
      rcases h with ⟨⟨j, hj⟩, hl⟩
      rcases ih hl with ⟨k, hk⟩
      apply Exists.intro (max j k)
      rw [List.forall_mem_cons]
      constructor
      · exact hj.mono (Nat.le_max_left j k)
      · exact fun b hb => (hk b hb).mono (Nat.le_max_right j k)

theorem Doc.exists_depthLt (d : Doc) : ∃ k, d.DepthLt k := by
  match d with
  | .undefined => exact ⟨1, trivial⟩
  | .null => exact ⟨1, trivial⟩
  | .scalar _ => exact ⟨1, trivial⟩
  | .sequence items =>
      have hitems : ∀ d ∈ items, ∃ k, d.DepthLt k := fun d _ => d.exists_depthLt
      rcases exists_common_depth items (fun d => d) hitems with ⟨k, hk⟩
      exact ⟨k + 1, hk⟩
  | .map entries =>
      have hentries : ∀ e ∈ entries, ∃ k, e.2.DepthLt k := by
        rintro ⟨key, d⟩ he
        exact d.exists_depthLt
      rcases exists_common_depth entries Prod.snd hentries with ⟨k, hk⟩
      exact ⟨k + 1, hk⟩
termination_by sizeOf d
decreasing_by
  · have hlt := List.sizeOf_lt_of_mem ‹_ ∈ items›
    simp only [Doc.sequence.sizeOf_spec]
    omega
  · have hlt := List.sizeOf_lt_of_mem he
    simp only [Doc.map.sizeOf_spec, Prod.mk.sizeOf_spec] at hlt ⊢
    omega

/-! ## The library -/

/-- The operations of yaml-cpp.  `alive` and `used` tell which nodes and data
exist. -/
structure YamlCpp where
  Heap : Type
  Node : Type
  Ref : Type
  graph : Heap → Graph Node Ref
  alive : Heap → Node → Prop
  used : Heap → Ref → Prop
  /-- `as<std::string>()` of a key; `none` when it throws. -/
  keyString : Key → Option String
  /-- `operator[]` of a constant map; `none` is the handle of a missing key. -/
  get : Heap → Node → String → Option Node
  /-- `operator[]` of a map, which creates a missing entry. -/
  subscript : Heap → Node → String → Heap × Node
  /-- Assignment of a node to a node. -/
  assign : Heap → Node → Node → Heap
  pushBack : Heap → Node → Node → Heap
  /-- A default constructed node. -/
  defaultNode : Heap → Heap × Node
  load : Heap → Doc → Heap × Node

namespace YamlCpp

variable (Y : YamlCpp)

/-- What a node looks like. -/
def view (s : Y.Heap) (n : Y.Node) : View Y.Node :=
  (Y.graph s).view n

/-- The nodes and data of a heap still exist in a later one. -/
structure Extends (s s' : Y.Heap) : Prop where
  alive : ∀ n, Y.alive s n → Y.alive s' n
  used : ∀ r, Y.used s r → Y.used s' r

/-- A new entry, not yet assigned, was added to a map; nothing else that exists
has changed. -/
structure Inserts (s : Y.Heap) (m : Y.Node) (entries : List (Key × Y.Node)) (key : String)
    (s' : Y.Heap) (t : Y.Node) : Prop where
  mono : Y.Extends s s'
  alive_new : Y.alive s' t
  not_alive : ¬ Y.alive s t
  not_used : ¬ Y.used s ((Y.graph s').ref t)
  ref_eq : ∀ n, Y.alive s n → (Y.graph s').ref n = (Y.graph s).ref n
  content_map : (Y.graph s').content ((Y.graph s).ref m) = .map (entries ++ [(.scalar key, t)])
  content_new : (Y.graph s').content ((Y.graph s').ref t) = .undefined
  content_eq : ∀ r, Y.used s r → r ≠ (Y.graph s).ref m →
    (Y.graph s').content r = (Y.graph s).content r

/-- A node now shares the data of another one. -/
structure Assigns (s : Y.Heap) (t r : Y.Node) (s' : Y.Heap) : Prop where
  mono : Y.Extends s s'
  ref_self : (Y.graph s').ref t = (Y.graph s).ref r
  ref_eq : ∀ n, n ≠ t → (Y.graph s').ref n = (Y.graph s).ref n
  content_eq : ∀ r, (Y.graph s').content r = (Y.graph s).content r

/-- A node was added to the end of a sequence. -/
structure Pushes (s : Y.Heap) (n : Y.Node) (items : List Y.Node) (x : Y.Node) (s' : Y.Heap) :
    Prop where
  mono : Y.Extends s s'
  ref_eq : ∀ n, (Y.graph s').ref n = (Y.graph s).ref n
  content_seq : (Y.graph s').content ((Y.graph s).ref n) = .sequence (items ++ [x])
  content_eq : ∀ r, r ≠ (Y.graph s).ref n → (Y.graph s').content r = (Y.graph s).content r

/-- A document was built of new nodes and new data, without sharing. -/
structure Loads (s : Y.Heap) (d : Doc) (s' : Y.Heap) (n : Y.Node) : Prop where
  mono : Y.Extends s s'
  ref_eq : ∀ m, Y.alive s m → (Y.graph s').ref m = (Y.graph s).ref m
  content_eq : ∀ r, Y.used s r → (Y.graph s').content r = (Y.graph s).content r
  denotes : ∀ k, d.DepthLt k → (Y.graph s').Denotes k n d
  unshared : ∀ k, d.DepthLt k → ((Y.graph s').refs k n).Nodup
  alive_new : ∀ k, d.DepthLt k → ∀ c ∈ (Y.graph s').cells k n, Y.alive s' c
  not_used : ∀ k, d.DepthLt k → ∀ r ∈ (Y.graph s').refs k n, ¬ Y.used s r

/-- The documented behaviour of yaml-cpp. -/
structure Documented : Prop where
  alive_child : ∀ s n, Y.alive s n → ∀ c ∈ (Y.view s n).children, Y.alive s c
  used_ref : ∀ s n, Y.alive s n → Y.used s ((Y.graph s).ref n)
  keyString_scalar : ∀ text, Y.keyString (.scalar text) = some text
  keyString_complex : Y.keyString .complex = none
  get_map : ∀ s m entries key, Y.view s m = .map entries → Y.get s m key = findKey key entries
  subscript_found : ∀ s m entries key t, Y.view s m = .map entries →
    findKey key entries = some t → Y.subscript s m key = (s, t)
  subscript_missing : ∀ s m entries key, Y.alive s m → Y.view s m = .map entries →
    findKey key entries = none →
      Y.Inserts s m entries key (Y.subscript s m key).1 (Y.subscript s m key).2
  assign_node : ∀ s t r, Y.alive s t → Y.alive s r → Y.Assigns s t r (Y.assign s t r)
  push_back : ∀ s n items x, Y.alive s n → Y.alive s x → Y.view s n = .sequence items →
    Y.Pushes s n items x (Y.pushBack s n x)
  default_null : ∀ s, Y.Loads s .null (Y.defaultNode s).1 (Y.defaultNode s).2
  load_document : ∀ s d, Y.Loads s d (Y.load s d).1 (Y.load s d).2

end YamlCpp

end Conf
end Utils
end DtCore
