import ScriptStore.Disk

/-!
# Errors and diagnostics of documents

A document with mistakes in it still loads: each mistake becomes an invalid node and a diagnostic.
Errors are left for what cannot be made sense of at all.
-/

namespace ScriptStore.Config

inductive Error where
  | file (cause : FileError)
  | doubleReset
  | emptySeparator
  | notSimple (name : String)
  | notASection (key : String)
  deriving DecidableEq

/-- The name of the cause alone. -/
def Error.name : Error → String
  | .file _ => "Io"
  | .doubleReset => "DoubleReset"
  | .emptySeparator => "EmptySeparator"
  | .notSimple _ => "NotSimple"
  | .notASection _ => "NotASection"

def Error.message : Error → String
  | .file cause => "io error: " ++ cause.message
  | .doubleReset => "reset was called twice without a read in between"
  | .emptySeparator => "the key/value separator must not be empty"
  | .notSimple name => s!"config '{name}' is not simple"
  | .notASection key => s!"'{key}' is not a section"

inductive Severity where
  | warning
  | error
  deriving DecidableEq

/-- A finding, with the line it is about if there is one. -/
structure Diagnostic where
  severity : Severity
  message : String
  line : Option Nat
  deriving DecidableEq

end ScriptStore.Config
