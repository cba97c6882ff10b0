import ScriptStore.Pattern.Size

/-!
# Faults in patterns
-/

namespace ScriptStore.Pattern

/-- Why a text is no pattern. -/
inductive Error where
  | unclosedGroup
  | unopenedGroup
  | unknownGroup
  | unclosedSet
  | invalidRange
  | invalidEscape
  | missingOperand
  | invalidCount
  | nestedTooDeep
  | tooLarge
  deriving DecidableEq

def Error.message : Error → String
  | .unclosedGroup => "regex parse error: unclosed group"
  | .unopenedGroup => "regex parse error: unopened group"
  | .unknownGroup => "regex parse error: unrecognized flag"
  | .unclosedSet => "regex parse error: unclosed character class"
  | .invalidRange => "regex parse error: invalid character class range"
  | .invalidEscape => "regex parse error: unrecognized escape sequence"
  | .missingOperand => "regex parse error: repetition operator missing expression"
  | .invalidCount => "regex parse error: invalid repetition count"
  | .nestedTooDeep =>
    "regex parse error: exceeded the maximum number of nested parentheses/brackets"
  | .tooLarge => s!"Compiled regex exceeds size limit of {maxSize} bytes."

end ScriptStore.Pattern
