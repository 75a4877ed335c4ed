import DtCore.Utils.Conf.Yaml

/-!
# `Conf` on the nodes of yaml-cpp

`mergeNodes` writes into the live base tree through the alias `merged` while it
walks over the override, and an exception leaves the heap as it is at that moment.
The right-hand side of `merged[key] = mergeNodes(baseNode[key], ...)` is evaluated
before `merged[key]` creates a missing entry.  The recursion takes a depth that it
must not exceed.

Main definitions:

- `mergeNodes`: the recursive merge.
- `appendNode` and `append`: `Conf::Append`.
- `construct` and `build`: the constructors from one and from a list of documents.
- `lookup`: a chain of constant `Conf::operator[]`.
-/

namespace DtCore
namespace Utils
namespace Conf

variable (Y : YamlCpp)

/-! ## `mergeNodes` -/

/-- How a call ends: with a handle, where `none` is the handle of a missing key, by
an exception, or too deep in the recursion. -/
inductive Outcome where
  | returned (s : Y.Heap) (n : Option Y.Node)
  | threw (s : Y.Heap)
  | tooDeep

/-- `IsDefined`. -/
def isDefined (s : Y.Heap) (n : Y.Node) : Bool :=
  match Y.view s n with
  | .undefined => false
  | _ => true

/-- `IsDefined` and not `IsNull`. -/
def hasContent (s : Y.Heap) (n : Y.Node) : Bool :=
  match Y.view s n with
  | .undefined => false
  | .null => false
  | _ => true

/-- `merged[key] = rhs`; assigning the handle of a missing key throws after the
entry was created. -/
def assignKey (s : Y.Heap) (merged : Y.Node) (key : String) (rhs : Option Y.Node) :
    Y.Heap × Bool :=
  let (s', t) := Y.subscript s merged key
  match rhs with
  | none => (s', false)
  | some r => (Y.assign s' t r, true)

/-- The loop over the entries of the override map; iteration skips entries that are
not defined. -/
def mergeEntries (merge : Y.Heap → Option Y.Node → Y.Node → Outcome Y) (merged : Y.Node) :
    Y.Heap → List (Key × Y.Node) → Outcome Y
  | s, [] => .returned s (some merged)
  | s, (k, v) :: os =>
      if isDefined Y s v then
        match Y.keyString k with
        | none => .threw s
        | some key =>
            match merge s (Y.get s merged key) v with
            | .returned s' rhs =>
                match assignKey Y s' merged key rhs with
                | (s'', true) => mergeEntries merge merged s'' os
                | (s'', false) => .threw s''
            | .threw s' => .threw s'
            | .tooDeep => .tooDeep
      else mergeEntries merge merged s os

/-- `push_back` of every item of the override sequence. -/
def pushItems (merged : Y.Node) : Y.Heap → List Y.Node → Y.Heap
  | s, [] => s
  | s, x :: xs => pushItems merged (Y.pushBack s merged x) xs

/-- `mergeNodes`, to a depth of at most the second argument. -/
def mergeNodes (concatSequences : Bool) : Nat → Y.Heap → Option Y.Node → Y.Node → Outcome Y
  | 0, _, _, _ => .tooDeep
  | k + 1, s, base, o =>
      if hasContent Y s o then
        match base with
        | none => .returned s (some o)
        | some b =>
            if hasContent Y s b then
              match Y.view s b, Y.view s o with
              | .map _, .map os => mergeEntries Y (mergeNodes concatSequences k) b s os
              | .sequence _, .sequence xs =>
                  if concatSequences then .returned (pushItems Y b s xs) (some b)
                  else .returned s (some o)
              | _, _ => .returned s (some o)
            else .returned s (some o)
      else .returned s base

/-! ## `Conf` -/

/-- A `Conf` and the heap of its nodes. -/
structure State where
  heap : Y.Heap
  rootNode : Y.Node

/-- How a member function of `Conf` ends. -/
inductive Ended where
  | returned (s : State Y)
  | threw (s : State Y)
  | tooDeep

/-- `_rootNode = n`. -/
def State.setRoot (s : State Y) (heap : Y.Heap) (n : Y.Node) : State Y where
  heap := Y.assign heap s.rootNode n
  rootNode := n

/-- `Conf` from one document: `_rootNode` starts default constructed. -/
def construct (heap : Y.Heap) (d : Doc) : State Y :=
  let (heap', n) := Y.defaultNode heap
  let (heap'', o) := Y.load heap' d
  { heap := heap', rootNode := n : State Y }.setRoot Y heap'' o

/-- `Append` of a node that was read into the heap. -/
def appendNode (k : Nat) (s : State Y) (heap : Y.Heap) (o : Y.Node) (override : Bool) :
    Ended Y :=
  if isDefined Y s.heap s.rootNode then
    if isDefined Y heap o then
      match mergeNodes Y (!override) k heap (some s.rootNode) o with
      | .returned heap' (some r) => .returned (s.setRoot Y heap' r)
      | .returned heap' none => .threw { s with heap := heap' }
      | .threw heap' => .threw { s with heap := heap' }
      | .tooDeep => .tooDeep
    else .returned { s with heap := heap }
  else .returned (s.setRoot Y heap o)

/-- `Append`; the document is `none` when it cannot be read. -/
def append (k : Nat) (s : State Y) (doc : Option Doc) (override : Bool) : Ended Y :=
  match doc with
  | none => .threw s
  | some d =>
      let (heap, o) := Y.load s.heap d
      appendNode Y k s heap o override

/-- The loop of the constructors from a list. -/
def appendAll (k : Nat) : State Y → List Doc → Ended Y
  | s, [] => .returned s
  | s, d :: ds =>
      match append Y k s (some d) true with
      | .returned s' => appendAll k s' ds
      | .threw s' => .threw s'
      | .tooDeep => .tooDeep

/-- `Conf` from a list of documents: `_rootNode` starts default constructed. -/
def build (k : Nat) (heap : Y.Heap) (ds : List Doc) : Ended Y :=
  let (heap', n) := Y.defaultNode heap
  appendAll Y k { heap := heap', rootNode := n } ds

/-- A chain of constant `Conf::operator[]`: only a map has a value at a string. -/
def lookup (s : Y.Heap) : Y.Node → List String → Option Y.Node
  | n, [] => some n
  | n, key :: path =>
      match Y.view s n with
      | .map _ => (Y.get s n key).bind (fun m => lookup s m path)
      | _ => none

/-- Looking up a path gives a document. -/
def Gives (s : State Y) (path : List String) (d : Doc) : Prop :=
  ∃ n k, lookup Y s.heap s.rootNode path = some n ∧ (Y.graph s.heap).Denotes k n d

/-- A path to a scalar gives no other text. -/
theorem scalar_of_gives {s : State Y} {path : List String} {n : Y.Node} {text other : String}
    (hlookup : lookup Y s.heap s.rootNode path = some n)
    (hview : Y.view s.heap n = .scalar text) (h : Gives Y s path (.scalar other)) :
    text = other := by
  rcases h with ⟨m, k, hm, hd⟩
  rw [hlookup, Option.some.injEq] at hm
  subst hm
  cases k with
  | zero => exact hd.elim
  | succ k =>
      have hview' : (Y.graph s.heap).view n = .scalar text := hview
      unfold Graph.Denotes at hd
      rw [hview'] at hd
      simpa using hd

end Conf
end Utils
end DtCore
