import ScriptStore.Disk
import ScriptStore.Pattern

/-!
# Storage errors

Why variables cannot be loaded, written or stored at all.
-/

namespace ScriptStore.Storage

inductive Error where
  | file (cause : FileError)
  /-- A keyed table refuses an operation. -/
  | table (text : String)
  | invalidLine (line : Nat) (content : String)
  | invalidHex (text : String)
  | corruptRecord (variableName : String)
  | invalidPattern (pattern : String) (cause : Pattern.Error)
  | missingEntry (key database : String)
  | invalidEntry (key database expected : String)
  | invalidDatabaseType (type : String)
  | notAFile (path : String)
  | missingDatabases
  | noDatabases
  | loadFailed (count : Nat)
  | closed (database : String)
  deriving DecidableEq

namespace Error

/-- The name of the cause alone. -/
def name : Error → String
  | .file _ => "Io"
  | .table _ => "Lmdb"
  | .invalidLine .. => "InvalidLine"
  | .invalidHex _ => "InvalidHex"
  | .corruptRecord _ => "CorruptRecord"
  | .invalidPattern .. => "InvalidPattern"
  | .missingEntry .. => "MissingEntry"
  | .invalidEntry .. => "InvalidEntry"
  | .invalidDatabaseType _ => "InvalidDatabaseType"
  | .notAFile _ => "NotAFile"
  | .missingDatabases => "MissingDatabases"
  | .noDatabases => "NoDatabases"
  | .loadFailed _ => "LoadFailed"
  | .closed _ => "Closed"

def message : Error → String
  | .file cause => s!"io error: {cause.message}"
  | .table text => s!"lmdb error: {text}"
  | .invalidLine n content => s!"invalid amount of commas in line {n} ('{content}')"
  | .invalidHex text => s!"invalid hex data '{text}'"
  | .corruptRecord n => s!"corrupt record for variable '{n}'"
  | .invalidPattern p cause => s!"Invalid pattern '{p}': {cause.message}"
  | .missingEntry key d => s!"The config is missing the entry for '{key}' in the database '{d}'"
  | .invalidEntry key d expected => s!"The entry for '{key}' in the database '{d}' must be {expected}"
  | .invalidDatabaseType t => s!"Invalid database type '{t}'"
  | .notAFile p => s!"The database file '{p}' must be an actual file, not a directory."
  | .missingDatabases =>
    "The config is missing the required 'databases' section that defines where the variables are saved"
  | .noDatabases =>
    "No databases to store variables are defined. Please enable at least the default database, " ++
      "even if you don't use variables at all."
  | .loadFailed n => s!"{n} database(s) could not be loaded"
  | .closed d => s!"the database '{d}' is closed"

end Error

end ScriptStore.Storage
