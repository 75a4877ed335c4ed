import DtCore.Foundation.Worklist

/-!
# The schema of an MCAP file

`BuildFileDescriptorSet` collects the file of a message and the files it depends on,
so that a reader can rebuild the message type from the MCAP file alone.  It searches the
descriptors of protobuf, which tell their names and dependencies, and remembers the
names of the files it has met.

Main definitions:

- `Descriptors`: what the search reads of the descriptors.
- `Descriptors.buildFileDescriptorSet`: the search.

Main results:

- Theorem `buildLoop_eq`: it is a worklist search.
- Theorem `exists_files`: the files it copies are those that can be reached.
- Theorem `buildFileDescriptorSet_closed`: every dependency of a file of the set is the
  name of a file of the set.
-/

namespace DtCore
namespace DAQ
namespace Mcap

open Foundation

/-- What a file descriptor is copied to; `content` are its other fields. -/
structure FileDescriptorProto (P : Type) where
  name : String
  dependency : List String
  content : P
deriving DecidableEq

/-- The descriptors of messages and files that protobuf has built. -/
structure Descriptors (M F P : Type) where
  file : M → F
  name : F → String
  dependency : F → List F
  content : F → P

namespace Descriptors

variable {M F P : Type} (G : Descriptors M F P)

/-- `CopyTo`. -/
def copyTo (next : F) : FileDescriptorProto P where
  name := G.name next
  dependency := (G.dependency next).map G.name
  content := G.content next

/-- The loop over the dependencies of a file. -/
def addDependencies : List F → Finset String → List F → List F × Finset String
  | toAdd, seenDependencies, [] => (toAdd, seenDependencies)
  | toAdd, seenDependencies, dep :: deps =>
      if G.name dep ∈ seenDependencies then addDependencies toAdd seenDependencies deps
      else addDependencies (toAdd ++ [dep]) (insert (G.name dep) seenDependencies) deps

/-- The loop over the files to add; `none` when the rounds do not empty the queue. -/
def buildLoop : Nat → List F → Finset String → List (FileDescriptorProto P) →
    Option (List (FileDescriptorProto P))
  | _, [], _, fdSet => some fdSet
  | 0, _ :: _, _, _ => none
  | n + 1, next :: toAdd, seenDependencies, fdSet =>
      let (toAdd, seenDependencies) :=
        G.addDependencies toAdd seenDependencies (G.dependency next)
      buildLoop n toAdd seenDependencies (fdSet ++ [G.copyTo next])

/-- `BuildFileDescriptorSet`, when the loop takes no more than some number of rounds. -/
def buildFileDescriptorSet (n : Nat) (toplevelDescriptor : M) :
    Option (List (FileDescriptorProto P)) :=
  let file := G.file toplevelDescriptor
  G.buildLoop n [file] {G.name file} []

/-- A file can be reached from another one. -/
abbrev Reaches : F → F → Prop :=
  Search.Leads G.dependency

/-! ## The search -/

variable {G}

theorem addDependencies_eq (s : Search F String) (deps : List F) :
    G.addDependencies s.queue s.seen deps =
      ((s.discover G.name deps).queue, (s.discover G.name deps).seen) := by
  induction deps generalizing s with
  | nil => rfl
  | cons dep deps ih =>
      rw [addDependencies, Search.discover]
      split
      · exact ih s
      · exact ih { s with queue := s.queue ++ [dep], seen := insert (G.name dep) s.seen }

/-- The loop is a worklist search that copies the files it visits. -/
theorem buildLoop_eq (n : Nat) (s : Search F String) :
    G.buildLoop n s.queue s.seen (s.visited.map G.copyTo) =
      (s.run G.name G.dependency n).map (fun s => s.visited.map G.copyTo) := by
  induction n generalizing s with
  | zero =>
      rcases s with ⟨queue, seen, visited⟩
      cases queue <;> rfl
  | succ n ih =>
      rcases s with ⟨queue, seen, visited⟩
      cases queue with
      | nil => rfl
      | cons next queue =>
          have hadd := addDependencies_eq (G := G) ⟨queue, seen, visited ++ [next]⟩
            (G.dependency next)
          have hcopied : visited.map G.copyTo ++ [G.copyTo next] =
              (visited ++ [next]).map G.copyTo := by simp
          simp only at hadd
          rw [buildLoop, Search.run, hadd, ← ih]
          simp only [Search.discover_visited, hcopied]

/-- With unique names, enough rounds copy every file that can be reached, once. -/
theorem exists_files [Finite F] (hname : Function.Injective G.name) (toplevelDescriptor : M) :
    ∃ (n : Nat) (files : List F),
      (∀ m ≥ n, G.buildFileDescriptorSet m toplevelDescriptor = some (files.map G.copyTo)) ∧
        files.Nodup ∧ ∀ f, f ∈ files ↔ G.Reaches (G.file toplevelDescriptor) f := by
  have hfin : {f | G.Reaches (G.file toplevelDescriptor) f}.Finite := Set.toFinite _
  rcases Search.run_finds (hname.injOn) hfin le_rfl with ⟨s, hrun, hnodup, hmem⟩
  apply Exists.intro {f | G.Reaches (G.file toplevelDescriptor) f}.ncard
  apply Exists.intro s.visited
  constructor
  · intro m hm
    have hloop := buildLoop_eq (G := G) m (Search.start G.name (G.file toplevelDescriptor))
    rw [Search.run_mono hm hrun] at hloop
    exact hloop
  · exact ⟨hnodup, hmem⟩

/-- Files are told apart by their names, also when they are copied. -/
theorem copyTo_injective (hname : Function.Injective G.name) : Function.Injective G.copyTo := by
  intro f g h
  exact hname (congrArg FileDescriptorProto.name h)

/-- The search ends with the file of the message and every file that it depends on, each
once, and with no other file. -/
theorem buildFileDescriptorSet_complete [Finite F] (hname : Function.Injective G.name)
    (toplevelDescriptor : M) :
    ∃ (n : Nat) (fdSet : List (FileDescriptorProto P)),
      (∀ m ≥ n, G.buildFileDescriptorSet m toplevelDescriptor = some fdSet) ∧ fdSet.Nodup ∧
        ∀ p, p ∈ fdSet ↔ ∃ f, G.Reaches (G.file toplevelDescriptor) f ∧ p = G.copyTo f := by
  rcases exists_files hname toplevelDescriptor with ⟨n, files, hbuild, hnodup, hmem⟩
  apply Exists.intro n
  apply Exists.intro (files.map G.copyTo)
  apply And.intro hbuild
  apply And.intro (hnodup.map (copyTo_injective hname))
  intro p
  rw [List.mem_map]
  apply exists_congr
  intro f
  rw [hmem f]
  exact and_congr_right (fun _ => eq_comm)

/-- A file that two others import, which the file of the message imports. -/
def diamond : Descriptors Unit (Fin 4) Unit where
  file := fun _ => 0
  name := fun f => ["top.proto", "left.proto", "right.proto", "base.proto"][f]
  dependency := fun f => [[1, 2], [3], [3], []][f]
  content := fun _ => ()

theorem buildFileDescriptorSet_complete_diamond :
    ∃ (n : Nat) (fdSet : List (FileDescriptorProto Unit)),
      (∀ m ≥ n, diamond.buildFileDescriptorSet m () = some fdSet) ∧ fdSet.Nodup ∧
        ∀ p, p ∈ fdSet ↔ ∃ f, diamond.Reaches (diamond.file ()) f ∧ p = diamond.copyTo f :=
  buildFileDescriptorSet_complete (by unfold Function.Injective; decide) ()

/-- Every dependency of a file of the set is the name of a file of the set. -/
theorem buildFileDescriptorSet_closed [Finite F] (hname : Function.Injective G.name)
    (toplevelDescriptor : M) :
    ∃ (n : Nat) (fdSet : List (FileDescriptorProto P)),
      (∀ m ≥ n, G.buildFileDescriptorSet m toplevelDescriptor = some fdSet) ∧
        ∀ p ∈ fdSet, ∀ dep ∈ p.dependency, ∃ q ∈ fdSet, q.name = dep := by
  rcases exists_files hname toplevelDescriptor with ⟨n, files, hbuild, _, hmem⟩
  apply Exists.intro n
  apply Exists.intro (files.map G.copyTo)
  apply And.intro hbuild
  intro p hp dep hdep
  rcases List.mem_map.1 hp with ⟨f, hf, rfl⟩
  rcases List.mem_map.1 hdep with ⟨g, hg, rfl⟩
  have hg' : g ∈ files := (hmem g).2 (((hmem f).1 hf).tail hg)
  exact ⟨G.copyTo g, List.mem_map_of_mem hg', rfl⟩

end Descriptors
end Mcap
end DAQ
end DtCore
