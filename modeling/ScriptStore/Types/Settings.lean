import ScriptStore.Config.Document

/-!
# Settings

Switches for registering types and reading values.
-/

namespace ScriptStore.Types

structure Settings where
  /-- Duplicate registrations are errors, and not ignored with a warning. -/
  strict : Bool := false
  debug : Bool := false
  /-- Warn when a missing value is written as text. -/
  warnAboutNone : Bool := true
  allowEmptySections : Bool := false
  disableEmptySectionWarnings : Bool := false
  /-- The families of parsers that are not used. -/
  disabledFamilies : List String := []
  deriving DecidableEq

namespace Settings

/-- Settings for development: mistakes in registration are fatal. -/
def forDevelopment : Settings := { strict := true, debug := true }

def isDisabled (s : Settings) (family : String) : Bool := s.disabledFamilies.contains family

/-- How configuration is read under these settings. -/
def readOptions (s : Settings) : Config.Options :=
  { allowEmptySections := s.allowEmptySections
    warnEmptySections := !s.disableEmptySectionWarnings }

end Settings

end ScriptStore.Types
