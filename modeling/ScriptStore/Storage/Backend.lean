import ScriptStore.Storage.FlatFile
import ScriptStore.Storage.Memory
import ScriptStore.Storage.Relay
import ScriptStore.Storage.Table

/-!
# Backends

The places where variables can be kept, under one set of operations.
-/

namespace ScriptStore.Storage

open ScriptStore.Types (Saved Registry)

inductive Backend where
  | memory (m : Memory)
  | flatFile (f : FlatFile)
  | table (t : Table)
  | relay (s : Relay)

/-- A backend after an operation, and what came of it. -/
abbrev Reply := Backend × Except Error Unit

namespace Backend

def load (b : Backend) (r : Registry) : Work (Load Backend) := do
  match b with
  | .memory m => return ⟨b, ← m.load r, none⟩
  | .flatFile f => do
    let l ← f.load r
    return ⟨.flatFile l.storage, l.events, l.failure⟩
  | .table t => do
    let l ← t.load r
    return ⟨.table l.storage, l.events, l.failure⟩
  | .relay s => do
    let l ← s.load r
    return ⟨.relay l.storage, l.events, l.failure⟩

/-- Persists one change. -/
def save (b : Backend) (change : Change) : Work Reply := do
  match b with
  | .memory m => return (.memory (m.save change), .ok ())
  | .flatFile f => do
    let (f, reply) ← f.save change
    return (.flatFile f, reply)
  | .table t => return (b, ← t.save change)
  | .relay s => return (.relay (s.save change), s.reply .save)

/-- Replaces the whole content. -/
def replace (b : Backend) (vars : List (String × Saved)) : Work Reply := do
  match b with
  | .memory _ => return (.memory (.ofEntries vars), .ok ())
  | .flatFile f => do
    let (f, reply) ← f.replace vars
    return (.flatFile f, reply)
  | .table t => return (b, ← t.replace vars)
  | .relay s => return (.relay (s.replace vars), s.reply .replace)

def connect (b : Backend) : Work Reply := do
  match b with
  | .flatFile f => do
    let (f, reply) ← f.connect
    return (.flatFile f, reply)
  | .table t => do
    let (t, reply) ← t.connect
    return (.table t, reply)
  | _ => return (b, .ok ())

def disconnect (b : Backend) : Reply :=
  match b with
  | .memory _ => (b, .ok ())
  | .flatFile f => (.flatFile f.disconnect, .ok ())
  | .table t => (.table t.disconnect, .ok ())
  | .relay s => (b, s.reply .disconnect)

/-- Is told that all storages are loaded. -/
def allLoaded (b : Backend) : Except Error Unit :=
  match b with
  | .relay s => s.reply .allLoaded
  | _ => .ok ()

/-- Copies the content aside, where that is supported. -/
def backup (b : Backend) : Work (Except Error Unit) :=
  match b with
  | .flatFile f => f.backup
  | _ => pure (.ok ())

/-- The file or directory behind a backend. -/
def file? : Backend → Option String
  | .flatFile f => some f.file
  | .table t => some t.directory
  | _ => none

end Backend

end ScriptStore.Storage
