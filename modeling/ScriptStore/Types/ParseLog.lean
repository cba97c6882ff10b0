import ScriptStore.Notice

/-!
# Parse logs

What an attempt to parse has to say. Warnings are kept in order; of the errors only the best is
kept, and of equally good ones the first, so that a failure against many candidates is explained
by the most useful reason.
-/

namespace ScriptStore.Types

/-- How useful an error is to whoever reads it. -/
inductive Quality where
  | none
  /-- The text is nothing of the kind. -/
  | notAnExpression
  /-- The text is recognised but makes no sense. -/
  | semanticError
  /-- A parser took care to say what is wrong. -/
  | generic
  deriving DecidableEq

def Quality.rank : Quality → Nat
  | .none => 0
  | .notAnExpression => 1
  | .semanticError => 2
  | .generic => 3

def Quality.name : Quality → String
  | .none => "None"
  | .notAnExpression => "NotAnExpression"
  | .semanticError => "SemanticError"
  | .generic => "Generic"

structure LoggedError where
  message : String
  quality : Quality
  deriving DecidableEq

/-- One thing a parser reports. -/
inductive Report where
  | warning (message : String)
  | error (message : String) (quality : Quality)
  deriving DecidableEq

structure ParseLog where
  warnings : List String := []
  best : Option LoggedError := none
  deriving DecidableEq

namespace ParseLog

def warning (log : ParseLog) (message : String) : ParseLog :=
  { log with warnings := log.warnings ++ [message] }

/-- Keeps an error if it is better than the one kept so far. -/
def error (log : ParseLog) (message : String) (quality : Quality) : ParseLog :=
  match log.best with
  | some e => if e.quality.rank < quality.rank then { log with best := some ⟨message, quality⟩ } else log
  | none => { log with best := some ⟨message, quality⟩ }

def record (log : ParseLog) : Report → ParseLog
  | .warning message => log.warning message
  | .error message quality => log.error message quality

def recordAll (log : ParseLog) (reports : List Report) : ParseLog := reports.foldl record log

/-- Forgets the warnings of an abandoned attempt. -/
def clear (log : ParseLog) : ParseLog := { log with warnings := [] }

/-- Hands the warnings of a successful attempt on. -/
def printWarnings (log parent : ParseLog) : ParseLog :=
  { parent with warnings := parent.warnings ++ log.warnings }

/-- Hands the best error of a failed attempt on, or a default if there is none. -/
def printError (log parent : ParseLog) (default : Option String) : ParseLog :=
  match log.best, default with
  | some e, _ => parent.error e.message e.quality
  | none, some message => parent.error message .semanticError
  | none, none => parent

/-- Gives out everything that is kept, and keeps nothing. -/
def flush (log : ParseLog) : Logged ParseLog := do
  log.warnings.forM Logged.warn
  if let some e := log.best then Logged.error e.message
  return {}

end ParseLog

end ScriptStore.Types
