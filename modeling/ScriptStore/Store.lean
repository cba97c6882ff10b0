import ScriptStore.Storage.Outlet
import ScriptStore.Variables.Map

/-!
# The store

The global variables together with the outlets that keep them. A variable belongs to the first
outlet that accepts its name. Changes that come while another one is being made wait, and are made
with the next operation that looks at the variables.
-/

namespace ScriptStore

open Storage
open ScriptStore.Types (Registry Saved)

structure Store where
  registry : Registry
  vars : VariableMap := {}
  /-- Changes that wait, the oldest first. -/
  pending : List Event := []
  outlets : List Outlet
  closed : Bool := false
  /-- Changes that the embedding program makes when a serializer next yields to it. -/
  arrivals : List Event := []

namespace Store

/-- The value that is kept for a value: converted to the kind as which it is saved. -/
def storable (r : Registry) (v : Value) : Logged Value :=
  match (r.nearest? v.kind).bind (·.serializeAs) with
  | none => pure v
  | some target =>
    match r.graph.convert v target with
    | some w => pure w
    | none => do
      Logged.warn "can't convert value to its storage type"
      return v

def storable? (r : Registry) : Option Value → Logged (Option Value)
  | none => pure none
  | some v => some <$> storable r v

def tooLate : Logged Unit := Logged.warn "variables are closed, change ignored"

/-! ## Saving -/

/-- Takes a change that comes while another one is being made. -/
def receive (s : Store) (change : Event) : Logged Store := do
  if s.closed then
    tooLate
    return s
  else
    let v ← storable? s.registry change.2
    return { s with pending := s.pending ++ [(change.1, v)] }

def receiveAll (s : Store) : List Event → Logged Store
  | [] => pure s
  | change :: rest => do (← s.receive change).receiveAll rest

/-- Encodes a value. A serializer that yields lets the arrivals in first. -/
def encode (s : Store) (v : Value) : Logged (Option Saved × Store) :=
  match s.registry.plan? v with
  | none => pure (none, s)
  | some plan => do
    let s ← if plan.serializer.yields then receiveAll { s with arrivals := [] } s.arrivals else pure s
    return (← plan.save, s)

/-- The place of the outlet that a variable belongs to. -/
def home? (outlets : List Outlet) (name : String) : Option Nat :=
  outlets.findIdx? (·.accepts name)

/-- Hands a change to the outlet at a place. -/
def queueAt (change : Change) : List Outlet → Nat → Work (List Outlet)
  | [], _ => pure []
  | o :: rest, 0 => do return (← o.queue change) :: rest
  | o :: rest, i + 1 => do return o :: (← queueAt change rest i)

def unsaved : Logged Unit := Logged.warn "can't save variable, its type is not serializable"

/-- Persists a change where the variable belongs, if it belongs anywhere. -/
def saveChange (s : Store) (change : Event) : Work Store := do
  match home? s.outlets change.1 with
  | none => return s
  | some i =>
    match change.2 with
    | none => return { s with outlets := ← queueAt (change.1, none) s.outlets i }
    | some v =>
      match ← s.encode v with
      | (some saved, s) =>
        return { s with outlets := ← queueAt (change.1, some saved) s.outlets i }
      | (none, s) => do
        unsaved
        return s

def saveDeletions (s : Store) : List String → Work Store
  | [] => pure s
  | name :: rest => do (← s.saveChange (name, none)).saveDeletions rest

/-! ## Changes -/

/-- Makes a change: of the variables, and of what is kept of them. -/
def apply (s : Store) (change : Event) : Work Store := do
  let (name, v) := change
  if Variables.isList name then
    if v.isSome then
      Logged.warn "can't set a whole list to a single value"
      return s
    else
      let (removed, vars) := s.vars.removeList name
      saveDeletions { s with vars } removed
  else saveChange { s with vars := s.vars.setSingle name v } change

/-- Makes up to `n` of the changes that wait, oldest first. -/
def drainUpTo : (n : Nat) → Store → Work Store
  | 0, s => pure s
  | n + 1, s =>
    match s.pending with
    | [] => pure s
    | change :: rest => do drainUpTo n (← apply { s with pending := rest } change)

/-- Makes the changes that wait. Only the arrivals can add to them meanwhile, and only once. -/
def drain (s : Store) : Work Store := drainUpTo (s.pending.length + s.arrivals.length) s

/-- Sets a variable, or deletes it; the name of a list deletes its elements. -/
def set (s : Store) (name : String) (v : Option Value) : Work Store := do
  if s.closed then
    tooLate
    return s
  else
    let v ← storable? s.registry v
    (← s.drain).apply (name, v)

/-- A single variable, or all elements of a list. -/
def get? (s : Store) (name : String) : Work (Option Variables.Variable × Store) := do
  let s ← s.drain
  return (s.vars.get? name, s)

/-- The number of single values, without those that wait. -/
def count (s : Store) : Nat := s.vars.size

/-! ## Saving all -/

/-- Encodes variables, each with the place of its outlet. -/
def collect (s : Store) : List (String × Value) → Logged (List (Nat × String × Saved) × Store)
  | [] => pure ([], s)
  | (name, v) :: rest =>
    match home? s.outlets name with
    | none => s.collect rest
    | some i => do
      match ← s.encode v with
      | (some saved, s) => do
        let (all, s) ← s.collect rest
        return ((i, name, saved) :: all, s)
      | (none, s) => do
        unsaved
        s.collect rest

/-- Replaces the contents of outlets, the first of which stands at `place`; the first failure ends
it. -/
def replaceContents (all : List (Nat × String × Saved)) :
    (place : Nat) → List Outlet → Work (List Outlet × Except Error Unit)
  | _, [] => pure ([], .ok ())
  | place, o :: rest => do
    match ← o.backend.replace ((all.filter (·.1 == place)).map (·.2)) with
    | (backend, .error e) => return ({ o with backend } :: rest, .error e)
    | (backend, .ok _) => do
      let (rest, result) ← replaceContents all (place + 1) rest
      return ({ o with backend } :: rest, result)

/-- Replaces what every outlet keeps by the variables that belong to it. -/
def saveAll (s : Store) : Work (Store × Except Error Unit) := do
  let s ← s.drain
  let (all, s) ← s.collect s.vars.entries
  let (outlets, result) ← replaceContents all 0 s.outlets
  return ({ s with outlets }, result)

/-! ## Closing -/

def closeOutlets : List Outlet → Work (List Outlet)
  | [] => pure []
  | o :: rest => do return (← o.close) :: (← closeOutlets rest)

/-- Takes no more changes, makes those that wait, and closes the outlets. -/
def close (s : Store) : Work Store := do
  if s.closed then return s
  else
    let s ← drain { s with closed := true }
    return { s with outlets := ← closeOutlets s.outlets }

def describe (s : Store) (disk : Disk) : String :=
  "Variables \x7b storages: [" ++ Text.join ", " (s.outlets.map (·.describe disk)) ++
    s!"], pending: {s.pending.length}, .. \x7d"

end Store

end ScriptStore
