import ScriptStore.Config.Rule
import ScriptStore.Store.Loading
import ScriptStore.Types.Parsing

/-!
# Databases in a configuration

The section `databases` of a configuration defines the outlets of a store, one subsection each.
-/

namespace ScriptStore.Store

open Storage
open ScriptStore.Types (Registry Saved)

/-- Where a database may keep its variables. -/
inductive Medium where
  | flatFile
  | table
  | memory
  deriving DecidableEq

/-- The medium that a type names; none for a database that is switched off. -/
def Medium.ofType (type : String) : Except Error (Option Medium) :=
  match Text.asciiLowercase type with
  | "csv" | "file" | "flatfile" => .ok (some .flatFile)
  | "lmdb" | "database" => .ok (some .table)
  | "memory" => .ok (some .memory)
  | "disabled" | "none" => .ok none
  | _ => .error (.invalidDatabaseType type)

namespace Definition

def rules : Config.Rules where
  rules := ["type", "pattern", "file", "backup interval"].map fun key => ⟨key, .entry, true⟩
  allowOtherEntries := true

def report : List Config.Diagnostic → Logged Unit
  | [] => pure ()
  | d :: rest => do
    match d.severity with
    | .error => Logged.error d.message
    | .warning => Logged.warn d.message
    report rest

def required (database : String) (s : Config.Section) (key : String) : Except Error String :=
  match s.value? key with
  | some text => .ok text
  | none => .error (.missingEntry key database)

def backend (database : String) (s : Config.Section) : Medium → Except Error Backend
  | .memory => .ok (.memory {})
  | .flatFile => do return .flatFile { file := ← required database s "file" }
  | .table => do return .table { directory := ← required database s "file" }

/-- The time between backups has to be a timespan; `0` stands for none. What is kept in memory has
none. -/
def checkInterval (r : Registry) (database : String) (s : Config.Section) (medium : Medium) :
    Except Error Unit :=
  match (s.value? "backup interval").map Text.trimmed with
  | none | some "0" => .ok ()
  | some text =>
    if medium = .memory then .ok ()
    else
      match (r.parse text .timespan .config {}).1 with
      | some (.timespan _) => .ok ()
      | _ => .error (.invalidEntry "backup interval" database "a timespan")

/-- The outlet that a section defines; none for one that is switched off. -/
def outlet? (r : Registry) (database : String) (s : Config.Section) :
    Except Error (Option Outlet) := do
  match ← Medium.ofType (← required database s "type") with
  | none => return none
  | some medium =>
    let pattern ← required database s "pattern"
    let backend ← backend database s medium
    checkInterval r database s medium
    return some (← Outlet.make database pattern backend)

/-- The outlets that nodes define, and how many nodes are wrong. -/
def readAll (r : Registry) : List Config.Node → Logged (List Outlet × Nat)
  | [] => pure ([], 0)
  | node :: rest => do
    match node.key, node.section? with
    | some database, some s => do
      report (rules.check s)
      match outlet? r database s with
      | .ok o => do
        let (outlets, failures) ← readAll r rest
        return (o.toList ++ outlets, failures)
      | .error e => do
        Logged.error e.message
        let (outlets, failures) ← readAll r rest
        return (outlets, failures + 1)
    | _, _ => do
      Logged.error "Invalid line in databases: databases must be defined as sections"
      let (outlets, failures) ← readAll r rest
      return (outlets, failures + 1)

end Definition

/-- The store that a configuration defines. -/
def ofConfig (r : Registry) (root : Config.Section) : Work (Store × Except Error Unit) := do
  match root.section? "databases" with
  | none => do
    Logged.error Error.missingDatabases.message
    return ({ registry := r, outlets := [], closed := true }, .error .missingDatabases)
  | some databases => do
    let (outlets, failures) ← Definition.readAll r databases.content
    build r outlets failures

end ScriptStore.Store
