import DtCore.DAQ.Mcap.Sink
import DtCore.Foundation.Segments
import DtCore.Utils.FileName

/-!
# The MCAP rotator

`DataSinkPBMcapRotator` writes messages to an MCAP file and counts their payload
sizes.  Before a message that would take the count over `_max_file_size` it closes
the file, renames the rotated files one up and opens a fresh one.  A failing rename
opens a fresh file too and throws out of `Publish` or `Write`.

A sink appends each message to the file that it opened, or drops it when it could
not open the file.  The outcomes of the renames and of the open that a call makes
are part of the call: the renames in order, the ones beyond the list succeed.
Nobody else touches the files, and the sizes stay in the range of `std::size_t`.

Main definitions:

- `renameFile`: `rename_file`.
- `State.rotate`: `Rotate`.
- `State.publish`, `State.write`: `Publish` and `Write`.
-/

namespace DtCore
namespace DAQ
namespace Mcap
namespace Rotator

open Foundation Utils

/-- The messages of a file, by their payloads. -/
abbrev File := List Bytes

/-- The files by the names that the system sees. -/
abbrev Files := Name → Option File

/-- The members of a rotator and the files; `mcap` is `none` for a null pointer and
tells else whether the sink could open its file. -/
structure State where
  files : Files
  fileName : Name
  maxFileSize : Nat
  maxFileCount : Nat
  currentFileSize : Nat
  mcap : Option Bool

/-- The file with an index. -/
def slotName (fileName : Name) (index : Nat) : Name :=
  cStr (annotateFilenameIndex fileName index)

/-- A new `DataSinkPBMcap` truncates the base file. -/
def State.openMcap (ok : Bool) (s : State) : State :=
  if ok then
    { s with files := Function.update s.files (cStr s.fileName) (some []), mcap := some true }
  else { s with mcap := some false }

/-- The constructor. -/
def State.construct (fileName : Name) (maxFileSize maxFileCount : Nat) (files : Files)
    (ok : Bool) : State :=
  State.openMcap ok
    { files := files
      fileName := fileName
      maxFileSize := maxFileSize
      maxFileCount := maxFileCount
      currentFileSize := 0
      mcap := none }

/-- `rename` of a file. -/
def rename (files : Files) (src dst : Name) : Files :=
  Function.update (Function.update files dst (files src)) src none

/-- `rename_file`: delete the target and rename the source to it. -/
def renameFile (ok : Bool) (src dst : Name) (files : Files) : Bool × Files :=
  let files := Function.update files dst none
  if ok ∧ (files src).isSome then (true, rename files src dst) else (false, files)

/-- The loop of `Rotate` for `i`, ..., `1`; it ends early at a failing rename. -/
def State.rotateLoop : Nat → List Bool → State → State × Bool
  | 0, _, s => (s, true)
  | i + 1, renames, s =>
      let source := slotName s.fileName i
      if (s.files source).isNone then State.rotateLoop i renames s
      else
        let r := renameFile (renames.headD true) source (slotName s.fileName (i + 1)) s.files
        if r.1 then State.rotateLoop i renames.tail { s with files := r.2 }
        else ({ s with files := r.2 }, false)

/-- `Rotate`; the flag tells whether it throws. -/
def State.rotate (renames : List Bool) (ok : Bool) (s : State) : State × Bool :=
  let r := State.rotateLoop s.maxFileCount renames { s with mcap := none }
  (r.1.openMcap ok, !r.2)

/-- `Publish` or `Write` of the current sink. -/
def State.record (payload : Bytes) (s : State) : State :=
  if s.mcap = some true then
    { s with
      files := Function.update s.files (cStr s.fileName)
        ((s.files (cStr s.fileName)).map (fun file => file ++ [payload])) }
  else s

/-- The common body of `Publish` and `Write`; the flag tells whether it throws. -/
def State.store (payload : Bytes) (renames : List Bool) (ok : Bool) (s : State) : State × Bool :=
  if s.mcap = none then (s, false)
  else
    let newFileSize := s.currentFileSize + payload.length
    if newFileSize > s.maxFileSize then
      let r := s.rotate renames ok
      if r.2 then (r.1, true)
      else ({ r.1.record payload with currentFileSize := payload.length }, false)
    else ({ s.record payload with currentFileSize := newFileSize }, false)

/-- `Publish` of a message that serializes to `serialized`. -/
def State.publish (serialized : Bytes) (renames : List Bool) (ok : Bool) (s : State) :
    State × Bool :=
  s.store serialized renames ok

/-- `Write`. -/
def State.write (msg : Message) (renames : List Bool) (ok : Bool) (s : State) : State × Bool :=
  s.store msg.data renames ok

/-! ## Runs -/

/-- A message for the rotator. -/
inductive Request where
  | publish (serialized : Bytes)
  | write (msg : Message)

/-- The payload that is recorded. -/
def Request.payload : Request → Bytes
  | .publish serialized => serialized
  | .write msg => msg.data

/-- A call with the outcomes of the renames and of the open that it may make. -/
structure Call where
  request : Request
  renames : List Bool
  opens : Bool

/-- One call. -/
def State.call (s : State) (c : Call) : State × Bool :=
  match c.request with
  | .publish serialized => s.publish serialized c.renames c.opens
  | .write msg => s.write msg c.renames c.opens

/-- A sequence of calls; the caller goes on after an exception. -/
def State.calls : List Call → State → State
  | [], s => s
  | c :: cs, s => State.calls cs (s.call c).1

/-- Publishing and writing differ in where the payload comes from. -/
theorem call_eq_store (s : State) (c : Call) :
    s.call c = s.store c.request.payload c.renames c.opens := by
  unfold State.call
  cases c.request with
  | publish serialized => rfl
  | write msg => rfl

end Rotator
end Mcap
end DAQ
end DtCore
