import ScriptStore.Store

/-!
# Building a store

The outlets are loaded one after the other. If two have a variable of the same name, the later one
wins and the older one is told to delete it. Then every variable is put where it belongs, moved if
its outlet no longer accepts it.
-/

namespace ScriptStore.Store

open Storage
open ScriptStore.Types (Registry Saved)

/-- What was loaded so far, every variable with the place of the outlet it came from. -/
structure Loading where
  outlets : List Outlet := []
  vars : Dict String (Value × Nat) := {}
  conflicts : Nat := 0
  failures : Nat := 0

namespace Loading

/-- Conflicts that are told one by one. -/
def maxConflictWarnings : Nat := 10

/-- Tells of the `n`th conflict. -/
def warnOfConflict (n : Nat) (name older current : String) : Logged Unit :=
  if n ≤ maxConflictWarnings then
    Logged.warn ("The variable \x7b" ++ name ++ "\x7d was loaded twice from different databases (" ++
      older ++ " and " ++ current ++ "), only the one from " ++ current ++ " will be kept.")
  else if n = maxConflictWarnings + 1 then
    Logged.warn (s!"[!] More than {maxConflictWarnings} variables were loaded more than once from " ++
      "different databases, no more warnings will be printed.")
  else pure ()

/-- Takes a variable from the outlet `current`, which stands next. -/
def merge (l : Loading) (current : String) (event : Event) : Work Loading := do
  let (name, v) := event
  let place := l.outlets.length
  let before := (l.vars.get? name).map (·.2)
  match v with
  | none =>
    return if before = some place then { l with vars := l.vars.erase name } else l
  | some v => do
    let l := { l with vars := l.vars.insert name (v, place) }
    match before.bind fun i => l.outlets[i]?.map (i, ·) with
    | none => return l
    | some (i, older) => do
      warnOfConflict (l.conflicts + 1) name older.name current
      return { l with
        conflicts := l.conflicts + 1
        outlets := ← queueAt (name, none) l.outlets i }

def mergeAll (l : Loading) (current : String) : List Event → Work Loading
  | [] => pure l
  | event :: rest => do (← l.merge current event).mergeAll current rest

/-- Loads an outlet. Nothing is taken from one that fails, and it is closed. -/
def add (l : Loading) (r : Registry) (o : Outlet) : Work Loading := do
  let loaded ← o.backend.load r
  let o := { o with backend := loaded.storage }
  match loaded.failure with
  | some e => do
    Logged.error e.message
    let _ ← o.close
    return { l with failures := l.failures + 1 }
  | none => do
    let o ← o.start
    let l ← l.mergeAll o.name loaded.events
    return { l with outlets := l.outlets ++ [o] }

def addAll (l : Loading) (r : Registry) : List Outlet → Work Loading
  | [] => pure l
  | o :: rest => do (← l.add r o).addAll r rest

end Loading

/-- Puts a loaded variable from the outlet at `source` where it belongs; says whether it belongs
nowhere. -/
def place (s : Store) (name : String) (v : Value) (source : Nat) : Work (Bool × Store) := do
  let target := home? s.outlets name
  let outlets ← match target with
    | none => pure s.outlets
    | some i =>
      if i = source then pure s.outlets
      else do
        match ← s.registry.serialize v with
        | some saved => do
          queueAt (name, none) (← queueAt (name, some saved) s.outlets i) source
        | none => do
          Logged.warn "can't move variable, its type is not serializable"
          pure s.outlets
  return (target.isNone, { s with outlets, vars := ← s.vars.set name (some v) })

/-- Puts loaded variables where they belong; counts those that belong nowhere. -/
def placeAll (s : Store) : List (String × Value × Nat) → Work (Nat × Store)
  | [] => pure (0, s)
  | (name, v, source) :: rest => do
    let (homeless, s) ← s.place name v source
    let (n, s) ← s.placeAll rest
    return (if homeless then n + 1 else n, s)

/-- Tells outlets that all are loaded; counts those that fail. -/
def announce : List Outlet → Logged Nat
  | [] => pure 0
  | o :: rest =>
    match o.backend.allLoaded with
    | .ok _ => announce rest
    | .error e => do
      Logged.error e.message
      return (← announce rest) + 1

/-- A store over these outlets. The variables are put where they belong in the order that `arrange`
brings them into. `failures` counts outlets that could not even be made. If anything fails, the store
is left closed. -/
def buildIn (arrange : List (String × Value × Nat) → List (String × Value × Nat)) (r : Registry)
    (outlets : List Outlet) (failures : Nat) : Work (Store × Except Error Unit) := do
  let l ← Loading.addAll { failures } r outlets
  if Loading.maxConflictWarnings < l.conflicts then
    Logged.warn (s!"A total of {l.conflicts} variables were loaded more than once from " ++
      "different databases")
  let (discarded, s) ← placeAll { registry := r, outlets := l.outlets } (arrange l.vars.entries)
  if discarded ≠ 0 then
    Logged.warn (s!"{discarded} variables were possibly discarded due to not belonging to any " ++
      "database (LMDB and memory databases keep such variables and will continue to generate " ++
      "this warning, while CSV discards them).")
  let failures := l.failures + (← announce s.outlets)
  if 0 < failures then return (← s.close, .error (.loadFailed failures))
  else if s.outlets.isEmpty then
    Logged.error Error.noDatabases.message
    return (← s.close, .error .noDatabases)
  else return (s, .ok ())

/-- A store over these outlets, for which the order in which its variables came is kept. -/
def build (r : Registry) (outlets : List Outlet) (failures : Nat) :
    Work (Store × Except Error Unit) :=
  buildIn id r outlets failures

/-- Where an outlet is to be made: its name, its pattern and its backend. -/
structure Plan where
  name : String
  pattern : String
  backend : Backend

/-- Makes outlets. If one cannot be made, those before it are closed. -/
def makeOutlets (made : List Outlet) : List Plan → Work (Except Error (List Outlet))
  | [] => pure (.ok made)
  | p :: rest =>
    match Outlet.make p.name p.pattern p.backend with
    | .ok o => makeOutlets (made ++ [o]) rest
    | .error e => do
      let _ ← closeOutlets made
      return .error e

/-- A store over outlets that are made as planned. -/
def ofPlans (r : Registry) (plans : List Plan) : Work (Store × Except Error Unit) := do
  match ← makeOutlets [] plans with
  | .ok outlets => build r outlets 0
  | .error e => return ({ registry := r, outlets := [], closed := true }, .error e)

end ScriptStore.Store
