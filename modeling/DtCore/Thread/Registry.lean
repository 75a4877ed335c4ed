import Mathlib.Data.List.Basic
import Mathlib.Logic.Function.Basic
import Mathlib.Tactic

/-!
# The registries of threads, semaphores and mutexes

`CreateThread`, `CreateSemaphore` and `CreateMutex` store a pointer to the new object in
an array, at the index of a counter that only grows, and hand the index out in the
caller's structure.  `Delete*` releases the object and clears its slot; `DeleteAll*`
walks the array down from the counter and releases what the slots point to.  The three
registries are separate static variables with the same code, up to `addList` and the test
of the index in `DeleteThread`.

A slot points into a structure of the caller (`ThreadInfo`, `SemInfo` or `MtxInfo`), which
can be used for another object later.  Objects are numbered in the order of their
creation.  Whether a call into the operating system succeeds is an argument.

The arrays of the model have no end: an access is recorded with its index, and whether the
index is inside the array of the source is a question of its own.

Main definitions:

- `Registry`: one array with its counter, and the structures of the callers.
- `Registry.create`, `Registry.delete`, `Registry.deleteAll`: the calls.
- `Registries`: the three registries of the library.
-/

namespace DtCore
namespace Thread

variable {H : Type}

/-! ## One registry -/

/-- What is registered. -/
inductive Kind where
  | thread
  | semaphore
  | mutex
deriving DecidableEq, Repr

/-- The sizes of `threadList`, `semList` and `mtxList`. -/
def Kind.capacity : Kind → Nat
  | .thread => 32
  | .semaphore => 64
  | .mutex => 64

/-- The object that a structure of the caller holds, and its `listIdx`. -/
structure Info where
  object : Option Nat
  listIdx : Int

/-- An array of pointers with its counter, and the structures that it may point into.

The remaining fields are history: the number of objects created, the accessed indices, the
indices handed out, the objects released by `Delete*` and by `DeleteAll*`, and those whose
release was called for after they had been released. -/
structure Registry (H : Type) where
  slots : Nat → Option H
  num : Nat
  info : H → Info
  created : Nat
  accessed : List Int
  handed : List (Nat × Int)
  deleted : List Nat
  bulk : List Nat
  again : List Nat

/-- Zero-initialized arrays and structures. -/
def Registry.start : Registry H where
  slots _ := none
  num := 0
  info _ := { object := none, listIdx := 0 }
  created := 0
  accessed := []
  handed := []
  deleted := []
  bulk := []
  again := []

/-- The object has been released. -/
def Registry.Released (s : Registry H) (object : Nat) : Prop :=
  object ∈ s.deleted ∨ object ∈ s.bulk

instance (s : Registry H) (object : Nat) : Decidable (s.Released object) :=
  inferInstanceAs (Decidable (_ ∨ _))

/-- The objects that exist. -/
def Registry.existing (s : Registry H) : List Nat :=
  (List.range s.created).filter fun object => ¬ s.Released object

/-- Record an access of the array. -/
def Registry.access (s : Registry H) (idx : Int) : Registry H :=
  { s with accessed := idx :: s.accessed }

/-- Record a call that releases an object. -/
def Registry.callRelease (s : Registry H) (object : Nat) : Registry H :=
  { s with again := if s.Released object then object :: s.again else s.again }

/-! ## The calls -/

/-- How a creation ends.  `late` is a thread that runs although a step after
`pthread_create` has failed. -/
inductive CreateResult where
  | ok
  | failed
  | late
deriving DecidableEq, Repr

/-- `CreateThread`, `CreateSemaphore` and `CreateMutex`; `addList` is for threads only. -/
def Registry.create [DecidableEq H] (kind : Kind) (s : Registry H) (h : H) (addList : Bool) :
    CreateResult → Registry H
  | .failed => s
  | .late =>
      { s with
        info := Function.update s.info h { s.info h with object := some s.created }
        created := s.created + 1 }
  | .ok =>
      if kind = .thread ∧ addList = false then
        { s with
          info := Function.update s.info h { object := some s.created, listIdx := -1 }
          created := s.created + 1
          handed := (s.created, -1) :: s.handed }
      else
        { s.access s.num with
          slots := Function.update s.slots s.num (some h)
          info := Function.update s.info h { object := some s.created, listIdx := s.num }
          num := s.num + 1
          created := s.created + 1
          handed := (s.created, s.num) :: s.handed }

/-- `list[listIdx] = nullptr`, which `DeleteThread` skips for a negative index. -/
def Registry.clear (kind : Kind) (s : Registry H) (listIdx : Int) : Registry H :=
  if kind = .thread ∧ listIdx < 0 then s
  else
    { s.access listIdx with
      slots := if listIdx < 0 then s.slots else Function.update s.slots listIdx.toNat none }

/-! Clearing a slot changes the slot only. -/

@[simp]
theorem Registry.clear_created (kind : Kind) (s : Registry H) (listIdx : Int) :
    (s.clear kind listIdx).created = s.created := by
  unfold Registry.clear
  split <;> rfl

@[simp]
theorem Registry.clear_deleted (kind : Kind) (s : Registry H) (listIdx : Int) :
    (s.clear kind listIdx).deleted = s.deleted := by
  unfold Registry.clear
  split <;> rfl

@[simp]
theorem Registry.clear_bulk (kind : Kind) (s : Registry H) (listIdx : Int) :
    (s.clear kind listIdx).bulk = s.bulk := by
  unfold Registry.clear
  split <;> rfl

@[simp]
theorem Registry.clear_again (kind : Kind) (s : Registry H) (listIdx : Int) :
    (s.clear kind listIdx).again = s.again := by
  unfold Registry.clear
  split <;> rfl

/-- `DeleteThread`, `DeleteSemaphore` and `DeleteMutex`; the release returns 0 if `ok`. -/
def Registry.delete (kind : Kind) (s : Registry H) (h : H) (ok : Bool) : Registry H :=
  match (s.info h).object with
  | none => s
  | some object =>
      let s' := s.callRelease object
      if ok then { s' with deleted := object :: s.deleted }.clear kind (s.info h).listIdx else s'

/-- The loop of `DeleteAll*` over the indices below `count`, from the top; `ok` gives the
results of the releases.  It ends early at a release that fails. -/
def Registry.deleteFrom (ok : Nat → Bool) (s : Registry H) : Nat → Registry H × Bool
  | 0 => (s, true)
  | idx + 1 =>
      match s.slots idx with
      | none => (s.access idx).deleteFrom ok idx
      | some h =>
          match (s.info h).object with
          | none => (s.access idx).deleteFrom ok idx
          | some object =>
              let s' := (s.access idx).callRelease object
              if ok idx then { s' with bulk := object :: s.bulk }.deleteFrom ok idx
              else (s', false)

/-- `DeleteAllThread`, `DeleteAllSemaphore` and `DeleteAllMutex`, and whether they
return 0. -/
def Registry.deleteAll (s : Registry H) (ok : Nat → Bool) : Registry H × Bool :=
  s.deleteFrom ok s.num

/-- A call for one registry. -/
inductive Call (H : Type) where
  | create (h : H) (addList : Bool) (result : CreateResult)
  | delete (h : H) (ok : Bool)
  | deleteAll (ok : Nat → Bool)

/-- One call. -/
def Registry.call [DecidableEq H] (kind : Kind) (s : Registry H) : Call H → Registry H
  | .create h addList result => s.create kind h addList result
  | .delete h ok => s.delete kind h ok
  | .deleteAll ok => (s.deleteAll ok).1

/-! ## The three registries -/

/-- The three registries. -/
abbrev Registries (H : Type) : Type :=
  Kind → Registry H

def Registries.start : Registries H :=
  fun _ => Registry.start

/-- One call for one of the registries. -/
def Registries.call [DecidableEq H] (r : Registries H) (c : Kind × Call H) : Registries H :=
  Function.update r c.1 ((r c.1).call c.1 c.2)

/-- A sequence of calls. -/
def Registries.calls [DecidableEq H] (r : Registries H) (cs : List (Kind × Call H)) :
    Registries H :=
  cs.foldl Registries.call r

end Thread
end DtCore
