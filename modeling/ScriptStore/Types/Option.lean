import ScriptStore.Types.Parsing

/-!
# Options

Entries of a configuration with a type and a default. The entry is looked up by a path of keys and
read by the registry.
-/

namespace ScriptStore.Types

/-- An option whose current value also says of which kind it is. -/
structure ConfigOption where
  key : String
  value : Value
  /-- Whether the entry may be missing. -/
  optional : Bool := false

namespace ConfigOption

/-- Reads the option from a section. If that fails, which the result tells, it keeps its value. -/
def load (o : ConfigOption) (s : Config.Section) (r : Registry) : Logged (Bool × ConfigOption) :=
  match s.lookup o.key with
  | none =>
    if o.optional then pure (true, o)
    else do
      Logged.error s!"Required entry '{o.key}' is missing"
      return (false, o)
  | some text =>
    let target := o.value.kind
    match (r.parse text target .config {}).1.filter fun v => v.kind == target with
    | some value => pure (true, { o with value })
    | none => do
      let expected := ((r.infoOf? target).map (·.name)).getD target.name
      Logged.error s!"'{text}' is not a valid {expected}"
      return (false, o)

end ConfigOption

namespace Settings

/-- Reads a switch that may be missing; tells whether the entry was valid. -/
def loadSwitch (s : Config.Section) (r : Registry) (key : String) (current : Bool) :
    Logged (Bool × Bool) := do
  let (ok, o) ← ConfigOption.load { key, value := .boolean current, optional := true } s r
  return (ok, match o.value with
    | .boolean b => b
    | _ => current)

/-- Reads the text of an entry that may be missing. -/
def loadText (s : Config.Section) (r : Registry) (key : String) : Logged (Bool × String) := do
  let (ok, o) ← ConfigOption.load { key, value := .string "", optional := true } s r
  return (ok, match o.value with
    | .string text => text
    | _ => "")

/-- The families named in a text, in lower case. -/
def familiesOf (text : String) : List String :=
  (((Text.splitAtChar ',' text).map fun f => Text.lowercase (Text.trimmed f)).filter
    fun f => !f.isEmpty).eraseDups

/-- Reads the switches from a section; gives the number of invalid entries, which change nothing.
Strictness concerns registration, which is over, and is not read. -/
def load (settings : Settings) (s : Config.Section) (r : Registry) : Logged (Nat × Settings) := do
  let (ok₁, debug) ← loadSwitch s r "debug" settings.debug
  let (ok₂, warnAboutNone) ← loadSwitch s r "warn when using none values" settings.warnAboutNone
  let (ok₃, allowEmptySections) ← loadSwitch s r "allow empty sections" settings.allowEmptySections
  let (ok₄, disableEmptySectionWarnings) ←
    loadSwitch s r "disable empty section warnings" settings.disableEmptySectionWarnings
  let (ok₅, families) ← loadText s r "disabled parser families"
  let disabledFamilies :=
    if (Text.trim families.toList).isEmpty then settings.disabledFamilies else familiesOf families
  let errors := [ok₁, ok₂, ok₃, ok₄, ok₅].countP (!·)
  return (errors, { settings with
    debug, warnAboutNone, allowEmptySections, disableEmptySectionWarnings, disabledFamilies })

end Settings

end ScriptStore.Types
