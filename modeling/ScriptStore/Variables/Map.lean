import ScriptStore.Dict
import ScriptStore.Notice
import ScriptStore.Variables.Tree

/-!
# Maps of variables

All variables of one scope: the tree, through which lists are read and deleted, and beside it all
single values by their full names.
-/

namespace ScriptStore

structure VariableMap where
  tree : Variables.Children := []
  flat : Dict String Value := {}

namespace VariableMap

open Variables

/-- The value of a single variable. -/
def value? (m : VariableMap) (name : String) : Option Value := m.flat.get? name

/-- A single variable, or all elements of a list. -/
def get? (m : VariableMap) (name : String) : Option Variable :=
  if isList name then (Variable.list none m.tree).descend (segments name)
  else (m.value? name).map .value

/-- Deletes all elements of a list; its own value stays. Gives the names of the deleted values. -/
def removeList (m : VariableMap) (name : String) : List String × VariableMap :=
  let path := match listFront? name with
    | none | some "" => []
    | some front => segments front
  let (removed, tree) := Children.deleteList path "" m.tree
  (removed, { tree, flat := removed.foldl Dict.erase m.flat })

/-- Sets or deletes a single variable. -/
def setSingle (m : VariableMap) (name : String) (v : Option Value) : VariableMap where
  tree := Children.set (segments name) v m.tree
  flat := match v with
    | some v => m.flat.insert name v
    | none => m.flat.erase name

/-- Sets a variable, or deletes it. A list can only be deleted. -/
def set (m : VariableMap) (name : String) (v : Option Value) : Logged VariableMap :=
  if isList name then
    match v with
    | some _ => do
      Logged.warn "can't set a whole list to a single value"
      return m
    | none => pure (m.removeList name).2
  else pure (m.setSingle name v)

/-- The number of single values, own values of lists included. -/
def size (m : VariableMap) : Nat := m.flat.size

def isEmpty (m : VariableMap) : Bool := m.flat.isEmpty

/-- All values with their full names, in the order of the tree. -/
def entries (m : VariableMap) : List (String × Value) := Children.entries "" m.tree

end VariableMap

end ScriptStore
