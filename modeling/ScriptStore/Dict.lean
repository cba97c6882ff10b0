/-!
# Dictionaries

A finite map kept as the list of its bindings in the order in which the keys first came. Setting a
key that is there replaces its value in place, so the order of a dictionary is that of the first
insertions; where another order is wanted it is asked for by sorting the bindings.
-/

namespace ScriptStore

structure Dict (α β : Type) where
  entries : List (α × β)
  deriving DecidableEq

namespace Dict

variable {α β : Type} [DecidableEq α]

def empty : Dict α β := ⟨[]⟩

instance : EmptyCollection (Dict α β) := ⟨empty⟩

instance : Inhabited (Dict α β) := ⟨empty⟩

def lookup (k : α) : List (α × β) → Option β
  | [] => none
  | (k', v) :: rest => if k' = k then some v else lookup k rest

def get? (d : Dict α β) (k : α) : Option β := lookup k d.entries

def contains (d : Dict α β) (k : α) : Bool := (d.get? k).isSome

/-- Replaces the value of `k` where it stands, or appends a binding. -/
def put (k : α) (v : β) : List (α × β) → List (α × β)
  | [] => [(k, v)]
  | (k', v') :: rest => if k' = k then (k', v) :: rest else (k', v') :: put k v rest

def insert (d : Dict α β) (k : α) (v : β) : Dict α β := ⟨put k v d.entries⟩

def erase (d : Dict α β) (k : α) : Dict α β := ⟨d.entries.filter fun e => e.1 ≠ k⟩

def keys (d : Dict α β) : List α := d.entries.map (·.1)

def size (d : Dict α β) : Nat := d.entries.length

def isEmpty (d : Dict α β) : Bool := d.entries.isEmpty

/-- Later bindings of a key win. -/
def ofList (l : List (α × β)) : Dict α β := l.foldl (fun d e => d.insert e.1 e.2) empty

end Dict

end ScriptStore
