import ScriptStore.Kind
import ScriptStore.Pattern
import ScriptStore.Text.Split

/-!
# Registration errors

Why a type, a subtype declaration or a whole registry is refused.
-/

namespace ScriptStore.Types

/-- Why values cannot be saved as another kind. -/
inductive RedirectFault where
  | notRegistered
  | noSerializer
  | notConvertible
  deriving DecidableEq

def RedirectFault.text : RedirectFault → String
  | .notRegistered => "is not registered"
  | .noSerializer => "has no serializer"
  | .notConvertible => "can't be converted to"

inductive Error where
  | duplicateCode (code : String) (kind existing : Kind)
  | duplicateKind (code : String) (kind : Kind)
  | invalidCode (code : String)
  | codeTooLong (code : String)
  | setTwice (code what : String)
  | serializerConflict (code : String)
  | invalidRedirect (code : String) (target : Kind) (fault : RedirectFault)
  | invalidPattern (code : String) (cause : Pattern.Error)
  | subtypeCycle (sub sup : Kind)
  /-- The infos that could not be placed, each with those it waits for. -/
  | circularOrder (waiting : List (String × List String))
  deriving DecidableEq

/-- The longest code name that fits beside a saved value. -/
def maxCodeLength : Nat := 50

/-- The name of the cause alone. -/
def Error.name : Error → String
  | .duplicateCode .. => "DuplicateCodeName"
  | .duplicateKind .. => "DuplicateType"
  | .invalidCode .. => "InvalidCodeName"
  | .codeTooLong .. => "CodeNameTooLong"
  | .setTwice .. => "FieldSetTwice"
  | .serializerConflict .. => "SerializerConflict"
  | .invalidRedirect .. => "InvalidSerializeAs"
  | .invalidPattern .. => "InvalidPattern"
  | .subtypeCycle .. => "SubtypeCycle"
  | .circularOrder .. => "CircularDependency"

def Error.message : Error → String
  | .duplicateCode c k e =>
    s!"can't register {k.name} with the code name '{c}' because that name is already used by {e.name}"
  | .duplicateKind c k =>
    s!"can't register the class info '{c}' because the type {k.name} is already registered"
  | .invalidCode c =>
    s!"invalid code name '{c}': code names must only consist of lowercase latin letters and digits"
  | .codeTooLong c => s!"the code name '{c}' is too long, the maximum length is {maxCodeLength}"
  | .setTwice c a => s!"'{a}' was set more than once on class info '{c}'"
  | .serializerConflict c => s!"class info '{c}' can't have both a serializer and a serialize-as type"
  | .invalidRedirect c t f => s!"class info '{c}' is serialized as {t.name}, which {f.text}"
  | .invalidPattern c e => s!"invalid user input pattern for '{c}': {e.message}"
  | .subtypeCycle sub sup =>
    s!"declaring {sub.name} a subtype of {sup.name} would create a cycle"
  | .circularOrder waiting =>
    let one (w : String × List String) : String :=
      w.1 ++ " (after: " ++ Text.join ", " w.2 ++ ")"
    "ClassInfos with circular dependencies detected: " ++ Text.join ", " (waiting.map one)

end ScriptStore.Types
