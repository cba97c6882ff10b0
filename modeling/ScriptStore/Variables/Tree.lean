import ScriptStore.Value
import ScriptStore.Variables.Name

/-!
# The tree of variables

A variable is a single value, or a list of variables that may have a value of its own besides. The
elements of a list stand in the order of their segments. A list that has neither a value nor
elements does not stay in the tree.
-/

namespace ScriptStore.Variables

inductive Variable where
  | value (v : Value)
  | list (own : Option Value) (children : List (String × Variable))

instance : Inhabited Variable := ⟨.list none []⟩

/-- The elements of a list by their segments. -/
abbrev Children := List (String × Variable)

/-- The full name of the element `segment` of the list `front`. -/
def childName (front segment : String) : String :=
  if front.isEmpty then segment else front ++ "::" ++ segment

namespace Children

def find? (cs : Children) (segment : String) : Option Variable :=
  List.lookup segment cs

/-- Replaces the element of a segment, or puts it where its segment belongs. -/
def put (segment : String) (v : Variable) : Children → Children
  | [] => [(segment, v)]
  | c :: rest =>
    if c.1 = segment then (segment, v) :: rest
    else if compareSegments segment c.1 = .lt then (segment, v) :: c :: rest
    else c :: put segment v rest

def erase (segment : String) (cs : Children) : Children := cs.filter fun c => c.1 != segment

/-- Makes the element of a segment a list, unless it would be of no use. -/
def putList (segment : String) (own : Option Value) (inner cs : Children) : Children :=
  if own.isNone && inner.isEmpty then erase segment cs else put segment (.list own inner) cs

/-- Sets the value at a path, or deletes it. A single value on the way becomes the own value of a
list; nothing is made of a path only to delete there. -/
def set : (path : List String) → Option Value → Children → Children
  | [], _, cs => cs
  | [segment], v, cs =>
    match find? cs segment, v with
    | some (.list _ inner), v => putList segment v inner cs
    | _, some v => put segment (.value v) cs
    | _, none => erase segment cs
  | segment :: path, v, cs =>
    match find? cs segment with
    | some (.list own inner) => putList segment own (set path v inner) cs
    | some (.value own) => if v.isNone then cs else putList segment (some own) (set path v []) cs
    | none => if v.isNone then cs else putList segment none (set path v []) cs

end Children

mutual

/-- The values in a variable with their full names. The own value of a list comes first. -/
def Variable.entries (name : String) : Variable → List (String × Value)
  | .value v => [(name, v)]
  | .list own cs => own.toList.map (name, ·) ++ Children.entries name cs

/-- The values in the elements of the list `front`, in their order. -/
def Children.entries (front : String) : List (String × Variable) → List (String × Value)
  | [] => []
  | (segment, v) :: rest => v.entries (childName front segment) ++ Children.entries front rest

end

namespace Children

/-- Deletes all elements of the list at a path below `front`; the list's own value stays, as a
single value. Gives the names of the values that were deleted. -/
def deleteList : (path : List String) → (front : String) → Children → List String × Children
  | [], front, cs => ((entries front cs).map (·.1), [])
  | segment :: path, front, cs =>
    match find? cs segment with
    | some (.list own inner) =>
      let (removed, inner) := deleteList path (childName front segment) inner
      match path, own with
      | [], some v => (removed, put segment (.value v) cs)
      | _, _ => (removed, putList segment own inner cs)
    | _ => ([], cs)

end Children

namespace Variable

/-- The value of a single variable, or the own value of a list. -/
def own? : Variable → Option Value
  | .value v => some v
  | .list own _ => own

def children? : Variable → Option Children
  | .value _ => none
  | .list _ cs => some cs

/-- Follows a path of segments down to the list that `*` stands for. -/
def descend (v : Variable) : (path : List String) → Option Variable
  | [] => none
  | segment :: path =>
    match v with
    | .value _ => none
    | .list own cs =>
      if segment = "*" then some (.list own cs)
      else (Children.find? cs segment).bind fun child => child.descend path

mutual

def describe : Variable → String
  | .value v => s!"Value({v.describe})"
  | .list own cs =>
    let own := match own with
      | none => "None"
      | some v => s!"Some({v.describe})"
    "List(List \x7b value: " ++ own ++ ", children: \x7b" ++ describeAll cs ++ "\x7d \x7d)"

def describeAll : List (String × Variable) → String
  | [] => ""
  | [(segment, v)] => Text.quoted segment ++ ": " ++ v.describe
  | (segment, v) :: rest =>
    Text.quoted segment ++ ": " ++ v.describe ++ ", " ++ describeAll rest

end

end Variable

end ScriptStore.Variables
