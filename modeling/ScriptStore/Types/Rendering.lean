import ScriptStore.Types.Registry

/-!
# Writing values as text

A value is written by the first parser, in the order of trial, of a type that it belongs to. Lists
are written as English enumerations; a missing value, and an empty list, is `<none>`.
-/

namespace ScriptStore.Types

/-- Writes texts as an enumeration: `a`, `a and b`, `a, b and c`, with another last word if given. -/
def enumeration (last : String) : List String → String
  | [] => ""
  | [s] => s
  | [a, b] => a ++ last ++ b
  | a :: rest => a ++ ", " ++ enumeration last rest

namespace Registry

/-- Writes a missing value. -/
def renderNone (r : Registry) (mode : Mode) : Logged String := do
  if mode != .debug && r.settings.warnAboutNone then
    Logged.warn "a none value was converted to text"
  return "<none>"

/-- Writes a value that is not a list. -/
def renderSingle (r : Registry) (mode : Mode) (flags : Nat) (v : Value) : String :=
  let found := r.infos.findSome? fun info =>
    if r.hierarchy.isInstance info.kind v then info.parser.map (info, ·) else none
  match found with
  | some (info, p) =>
    match mode with
    | .debug => s!"[{info.code}:{p.debug v}]"
    | mode => p.renderAs v mode flags
  | none =>
    match mode with
    | .variableName => s!"object:{v.describe}"
    | _ => v.describe

/-- Writes the texts of a list's elements as an enumeration. -/
def enumerate (r : Registry) (mode : Mode) (last : String) : List String → Logged String
  | [] => r.renderNone mode
  | texts => pure (enumeration last texts)

mutual

/-- Writes a value. -/
def render (r : Registry) (mode : Mode) (flags : Nat) : Value → Logged String
  | .list vs => do
    let texts ← renderEach r mode flags vs
    r.enumerate mode " and " texts
  | v => pure (r.renderSingle mode flags v)

def renderEach (r : Registry) (mode : Mode) (flags : Nat) : List Value → Logged (List String)
  | [] => pure []
  | v :: rest => do
    let first ← render r mode flags v
    let others ← renderEach r mode flags rest
    return first :: others

end

/-- Writes a value that may be missing. -/
def renderOption (r : Registry) (mode : Mode) (flags : Nat) : Option Value → Logged String
  | none => r.renderNone mode
  | some v => r.render mode flags v

/-- Writes values as an enumeration, ending in `and` or in `or`. -/
def renderList (r : Registry) (mode : Mode) (flags : Nat) (conjunction : Bool) (vs : List Value) :
    Logged String := do
  let texts ← r.renderEach mode flags vs
  r.enumerate mode (if conjunction then " and " else " or ") texts

end Registry

end ScriptStore.Types
