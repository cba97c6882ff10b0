import ScriptStore.Storage.Work

/-!
# Storage in memory

Saved variables that last as long as the storage itself.
-/

namespace ScriptStore.Storage

open ScriptStore.Types (Saved Registry)

structure Memory where
  entries : Dict String Saved := {}

namespace Memory

def ofEntries (entries : List (String × Saved)) : Memory := ⟨.ofList entries⟩

def get? (m : Memory) (name : String) : Option Saved := m.entries.get? name

/-- The entries in the order of their names. -/
def sorted (m : Memory) : List (String × Saved) := m.entries.entries.mergeSort fun a b => a.1 ≤ b.1

/-- Loads entries; one that cannot be decoded is left out with a warning. -/
def loadAll (r : Registry) : List (String × Saved) → Logged (List Event)
  | [] => pure []
  | (name, saved) :: rest => do
    match ← r.load saved with
    | some v => return (name, some v) :: (← loadAll r rest)
    | none => do
      Logged.warn s!"could not load variable of type '{saved.code}'"
      loadAll r rest

def load (m : Memory) (r : Registry) : Logged (List Event) := loadAll r m.sorted

def save (m : Memory) (change : Change) : Memory :=
  match change with
  | (name, some saved) => ⟨m.entries.insert name saved⟩
  | (name, none) => ⟨m.entries.erase name⟩

end Memory

end ScriptStore.Storage
