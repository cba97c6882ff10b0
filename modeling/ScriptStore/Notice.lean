/-!
# Notices

What the program has to tell its operator while it goes on: warnings, and errors that cost
something but do not stop it. A computation that may do so returns its notices in order with its
result.
-/

namespace ScriptStore

inductive Level where
  | warn
  | error
  deriving DecidableEq

structure Notice where
  level : Level
  message : String
  /-- The text of the error behind it. -/
  cause : Option String := none
  deriving DecidableEq

def Level.text : Level → String
  | .warn => "WARN"
  | .error => "ERROR"

def Notice.text (n : Notice) : String :=
  n.level.text ++ " " ++ n.message ++
    match n.cause with
    | none => ""
    | some cause => s!" (error: {cause})"

/-- A result with the notices given on the way to it. -/
structure Logged (α : Type) where
  value : α
  notices : List Notice

namespace Logged

instance : Monad Logged where
  pure a := ⟨a, []⟩
  bind x f :=
    let y := f x.value
    ⟨y.value, x.notices ++ y.notices⟩

def tell (n : Notice) : Logged Unit := ⟨(), [n]⟩

def warn (message : String) : Logged Unit := tell { level := .warn, message }

def warnOf (message cause : String) : Logged Unit :=
  tell { level := .warn, message, cause := some cause }

def error (message : String) : Logged Unit := tell { level := .error, message }

def errorOf (message cause : String) : Logged Unit :=
  tell { level := .error, message, cause := some cause }

end Logged

end ScriptStore
