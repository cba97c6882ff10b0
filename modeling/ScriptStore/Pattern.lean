import ScriptStore.Pattern.Reader

/-!
# Patterns

A pattern that a whole text has to match. Its written form is set between anchors before it is read,
and its size is limited.
-/

namespace ScriptStore

structure Pattern where
  /-- The written form, with anchors and flags. -/
  source : String
  regex : Pattern.Regex

namespace Pattern

/-- Reads a written form that already has its anchors. -/
def ofSource (source : String) : Except Error Pattern :=
  match Expr.parse source with
  | .ok e => if e.fits then .ok ⟨source, e.regex⟩ else .error .tooLarge
  | .error e => .error e

/-- The pattern for whole texts. -/
def whole (text : String) : Except Error Pattern := ofSource s!"^(?:{text})$"

/-- The pattern for whole texts, whatever their case. -/
def wholeIgnoringCase (text : String) : Except Error Pattern := ofSource s!"(?i)^(?:{text})$"

def accepts (p : Pattern) (text : String) : Bool := p.regex.foundIn text.toList

end Pattern

end ScriptStore
