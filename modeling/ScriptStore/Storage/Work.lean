import ScriptStore.Notice
import ScriptStore.Storage.Error
import ScriptStore.Types.Saving

/-!
# Work on the disk

Operations of storages change the disk and give notices. Those that can fail say so in their
result, because what they did before they failed stays done.
-/

namespace ScriptStore.Storage

open ScriptStore.Types (Saved Registry)

abbrev Work := StateT Disk Logged

/-- Runs an operation of the disk; if it fails, the disk stays as it was. -/
def onDisk (f : Disk → Except FileError Disk) : Work (Except Error Unit) := do
  match f (← get) with
  | .ok d => do
    set d
    return .ok ()
  | .error e => return .error (.file e)

/-- Creates a directory and those above it. -/
def createDirectories (r : Disk.Route) : Work (Except Error Unit) := do
  let (d, made) := (← get).createDirectories r
  set d
  return made.mapError .file

/-- A variable that a storage hands over when it is loaded: its value, or that it was deleted. -/
abbrev Event := String × Option Value

/-- A change that is saved: a new value, or none for a variable that is deleted. -/
abbrev Change := String × Option Saved

/-- What came of loading a storage, which is left as `storage` says. Events before a failure were
handed over all the same. -/
structure Load (σ : Type) where
  storage : σ
  events : List Event
  failure : Option Error := none

/-- Tells of the variables that could not be loaded. -/
def reportLost (names : List String) : Logged Unit := do
  let plural := if names.length == 1 then "" else "s"
  Logged.error s!"{names.length} variable{plural} could not be loaded!"
  Logged.error ("Affected variables: " ++ Text.join ", " names)

end ScriptStore.Storage
