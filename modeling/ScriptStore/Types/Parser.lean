import ScriptStore.Types.ParseLog
import ScriptStore.Value

/-!
# Parsers

How the values of a type are read from text and written as text.
-/

namespace ScriptStore.Types

/-- Where a text comes from. -/
inductive Context where
  /-- Literals in the expressions of a script. -/
  | default
  /-- Values of an event. -/
  | event
  /-- Arguments of a command. -/
  | command
  /-- Values of configuration entries. -/
  | config
  /-- Other text of a script. -/
  | script
  deriving DecidableEq

/-- What a value is written for. -/
inductive Mode where
  | message
  | debug
  | variableName
  | command
  deriving DecidableEq

structure Parser where
  /-- Reads a value, or gives none; either way it may report something. -/
  parse : String → Context → Option Value × List Report
  canParse : Context → Bool
  /-- Writes a value for a message, as the flags say. -/
  render : Value → (flags : Nat) → String
  /-- Writes a value as part of a variable's name. -/
  variableName : Value → String
  debug : Value → String

namespace Parser

/-- Writes a value for the given purpose. A command is written like a message. -/
def renderAs (p : Parser) (v : Value) (mode : Mode) (flags : Nat) : String :=
  match mode with
  | .message | .command => p.render v flags
  | .debug => p.debug v
  | .variableName => p.variableName v

/-- How the values of one kind are read and written. -/
structure Typed (α : Type) where
  toValue : α → Value
  ofValue? : Value → Option α
  parse : String → Context → Option α × List Report
  render : α → String
  /-- Writing in a variable's name, if it differs. -/
  variableName : Option (α → String) := none
  /-- Writing for debugging, if it differs. -/
  debug : Option (α → String) := none
  /-- The only contexts in which text is read, if not all. -/
  contexts : Option (List Context) := none

/-- The parser of one kind. Values of other kinds are merely described. -/
def ofTyped {α : Type} (t : Typed α) : Parser :=
  let write (render : Option (α → String)) (v : Value) : String :=
    match t.ofValue? v with
    | some a => (render.getD t.render) a
    | none => v.describe
  { parse := fun input context =>
      let (a, reports) := t.parse input context
      (a.map t.toValue, reports)
    canParse := fun context =>
      match t.contexts with
      | none => true
      | some cs => cs.contains context
    render := fun v _ => write none v
    variableName := write t.variableName
    debug := write t.debug }

/-- Reads with a parser, then converts. The values that come out are merely described. -/
def followedBy (p : Parser) (convert : Value → Option Value) : Parser :=
  { parse := fun input context =>
      let (v, reports) := p.parse input context
      (v.bind convert, reports)
    canParse := p.canParse
    render := fun v _ => v.describe
    variableName := Value.describe
    debug := Value.describe }

end Parser

end ScriptStore.Types
