import ScriptStore.Storage.Work

/-!
# Storage in the hands of the embedding program

The embedding program may keep variables itself. It hands over what it has, is told of every change
and of every new content, and may refuse one kind of call.
-/

namespace ScriptStore.Storage

open ScriptStore.Types (Saved Registry)

/-- The calls that an embedding program may refuse. -/
inductive Call where
  | load
  | save
  | replace
  | disconnect
  | allLoaded
  deriving DecidableEq

def Call.name : Call → String
  | .load => "load"
  | .save => "save"
  | .replace => "rewrite"
  | .disconnect => "disconnect"
  | .allLoaded => "all_loaded"

def Call.ofName? (name : String) : Option Call :=
  [Call.load, .save, .replace, .disconnect, .allLoaded].find? fun c => c.name == name

structure Relay where
  /-- How the embedding program is called in errors. -/
  owner : String
  /-- What it has, in the order in which it is handed over. -/
  entries : List Change := []
  refused : Option Call := none
  /-- What it was told, in order. -/
  saves : List Change := []
  contents : List (List (String × Saved)) := []

namespace Relay

/-- The outcome of a call. -/
def reply (s : Relay) (call : Call) : Except Error Unit :=
  if s.refused = some call then .error (.closed s!"{s.owner} {call.name}") else .ok ()

/-- Hands entries over; what cannot be decoded counts as deleted. -/
def loadAll (r : Registry) : List Change → Logged (List Event)
  | [] => pure []
  | (name, saved) :: rest => do
    let value ← match saved with
      | some saved => r.load saved
      | none => pure none
    return (name, value) :: (← loadAll r rest)

def load (s : Relay) (r : Registry) : Logged (Load Relay) := do
  let events ← loadAll r s.entries
  return ⟨s, events, match s.reply .load with
    | .ok _ => none
    | .error e => some e⟩

def save (s : Relay) (change : Change) : Relay := { s with saves := s.saves ++ [change] }

def replace (s : Relay) (vars : List (String × Saved)) : Relay :=
  { s with contents := s.contents ++ [vars] }

end Relay

end ScriptStore.Storage
