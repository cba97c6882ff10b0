import ScriptStore.Config.Node

/-!
# Sections

Finding, adding, replacing and removing nodes of a section, and the operations on whole sections:
splitting simple lines into entries, flattening, and taking over the values of another section.

Keys are compared by their lower-cased form, and of several nodes with one key the last counts.
-/

namespace ScriptStore.Config

/-- Records a node at a position, if it is one that has a name. -/
def Index.note (index : Index) (n : Node) (position : Nat) : Index :=
  if n.isNamed then
    match n.key with
    | some key => index.insert (Text.lowercase key) position
    | none => index
  else index

def Index.noteAll (index : Index) (start : Nat) : List Node → Index
  | [] => index
  | n :: rest => noteAll (index.note n start) (start + 1) rest

def Index.ofNodes (nodes : List Node) : Index := Index.noteAll {} 0 nodes

namespace Section

/-! ## Reading -/

def empty : Section := {}

/-- Whether there are no nodes but void ones. -/
def isEmpty (s : Section) : Bool := s.nodes.all Node.isVoid

/-- The nodes that are not void. -/
def content (s : Section) : List Node := s.nodes.filter fun n => !n.isVoid

def position (s : Section) (key : String) : Option Nat := s.index.get? (Text.lowercase key)

/-- The entry or section of that name. -/
def get? (s : Section) (key : String) : Option Node :=
  (s.position key).bind fun i => s.nodes[i]?

def section? (s : Section) (key : String) : Option Section := (s.get? key).bind Node.section?

def value? (s : Section) (key : String) : Option String := (s.get? key).bind Node.value?

def valueD (s : Section) (key default : String) : String := (s.value? key).getD default

/-- The section reached by a path of keys. -/
def descend (s : Section) : List String → Option Section
  | [] => some s
  | key :: rest =>
    match s.section? key with
    | some child => child.descend rest
    | none => none

/-- The value of the entry at the end of a path of keys. -/
def valueAt (s : Section) : List String → Option String
  | [] => none
  | [key] => s.value? key
  | key :: next :: rest =>
    match s.section? key with
    | some child => child.valueAt (next :: rest)
    | none => none

/-- The value at a path with dots between the keys. -/
def lookup (s : Section) (path : String) : Option String := s.valueAt (Text.splitAtChar '.' path)

/-! ## Changing -/

/-- The section with other nodes, whose index is made anew. -/
def withNodes (s : Section) (nodes : List Node) : Section :=
  { s with nodes, index := Index.ofNodes nodes }

/-- A section with these nodes. -/
def ofNodes (nodes : List Node) : Section :=
  let nodes := nodes.map (·.setLevel 0)
  { nodes, index := Index.ofNodes nodes }

/-- Appends a node. -/
def add (s : Section) (n : Node) : Section :=
  let n := n.setLevel s.childLevel
  { s with nodes := s.nodes ++ [n], index := s.index.note n s.nodes.length }

/-- Inserts a node before the given position, or at the end if there are fewer nodes. -/
def insert (s : Section) (i : Nat) (n : Node) : Section :=
  s.withNodes (s.nodes.take i ++ n.setLevel s.childLevel :: s.nodes.drop i)

def removeAt (s : Section) (i : Nat) : Option Node × Section :=
  match s.nodes[i]? with
  | none => (none, s)
  | some n => (some n, s.withNodes (s.nodes.eraseIdx i))

def remove (s : Section) (key : String) : Option Node × Section :=
  match s.position key with
  | none => (none, s)
  | some i => s.removeAt i

/-- Replaces the node of that name where it stands, or appends. -/
def setNode (s : Section) (key : String) (n : Node) : Section :=
  match s.position key with
  | some i => s.withNodes (s.nodes.set i (n.setLevel s.childLevel))
  | none => s.add n

/-- Sets the value of an entry. A section of that name gives way to a new entry. -/
def set (s : Section) (key value : String) : Section :=
  match (s.get? key).bind (·.setValue? value), s.position key with
  | some n, some i => { s with nodes := s.nodes.set i n }
  | _, _ => s.setNode key (Node.entry key value)

def rename (s : Section) (key new : String) : Option Section :=
  match s.position key with
  | none => none
  | some i => some (s.withNodes (s.nodes.modify i (·.setKey new)))

/-- Changes the node of that name where it stands. The change must keep its key and kind. -/
def modify (s : Section) (key : String) (f : Node → Node) : Section :=
  match s.position key with
  | none => s
  | some i => { s with nodes := s.nodes.modify i f }

/-- A block with another content. -/
def replaceIn (s : Section) : Node → Node
  | .leaf h content => .leaf h content
  | .block h _ _ _ => .block h s.index s.childLevel s.nodes

/-- Runs an operation on the section at the end of a path of keys. -/
def updateAt {α : Type} (f : Section → α × Section) : List String → Section → Option (α × Section)
  | [], s => some (f s)
  | key :: rest, s =>
    match s.section? key with
    | none => none
    | some child =>
      match updateAt f rest child with
      | none => none
      | some (a, child) => some (a, s.modify key child.replaceIn)

/-! ## Entries from simple lines -/

/-- Splits a text at the first separator into an entry, both sides trimmed. Without a separator
the line is invalid. -/
def entryFromText (text separator : String) (comment : String) (line : Option Nat) :
    Node × Option Diagnostic :=
  match Text.splitOnce separator.toList text.toList with
  | some (key, value) =>
    (Node.ofLeaf (some (String.ofList (Text.trim key))) comment line
      (.entry (String.ofList (Text.trim value))), none)
  | none =>
    (Node.ofLeaf (some text) comment line .invalid,
      some ⟨.error, s!"'{text}' is not an entry (like 'name {separator} value')", line⟩)

mutual

/-- Turns simple lines into entries, down to `levels` sections below, or all the way. -/
def convertNode (separator : String) (levels : Option Nat) : Node → Node × List Diagnostic
  | .leaf h .simple =>
    let (n, d) := entryFromText (h.key.getD "") separator h.comment h.line
    (n, d.toList)
  | .leaf h content => (.leaf h content, [])
  | .block h index level nodes =>
    match levels with
    | some 0 => (.block h index level nodes, [])
    | _ =>
      let (nodes, found) := convertNodes separator (levels.map (· - 1)) nodes
      let nodes := setLevels level nodes
      (.block h (Index.ofNodes nodes) level nodes, found)

def convertNodes (separator : String) (levels : Option Nat) : List Node → List Node × List Diagnostic
  | [] => ([], [])
  | n :: rest =>
    let (n, found) := convertNode separator levels n
    let (rest, more) := convertNodes separator levels rest
    (n :: rest, found ++ more)

end

def convertToEntries (s : Section) (levels : Option Nat) (separator : String) :
    Section × List Diagnostic :=
  let (nodes, found) := convertNodes separator levels s.nodes
  (s.withNodes (setLevels s.childLevel nodes), found)

/-! ## Flattening -/

mutual

def flattenNode (separator : String) (front : String) : Node → Dict String String → Dict String String
  | .leaf h (.entry v), out => out.insert (front ++ h.key.getD "") v
  | .leaf _ _, out => out
  | .block h _ _ nodes, out => flattenNodes separator (front ++ h.key.getD "" ++ separator) nodes out

def flattenNodes (separator : String) (front : String) :
    List Node → Dict String String → Dict String String
  | [], out => out
  | n :: rest, out => flattenNodes separator front rest (flattenNode separator front n out)

end

/-- The values of all entries by their path, with `front` before each path. -/
def flatten (s : Section) (front separator : String) : Dict String String :=
  flattenNodes separator front s.nodes {}

/-! ## Taking over values -/

/-- Whether a section has a key that the other lacks. -/
def hasExtraKey (other mine : Section) : Bool :=
  (other.content.filterMap Node.key).any fun key => (mine.get? key).isNone

mutual

/-- Takes over the value of the node's counterpart, and tells whether the keys differ. -/
def adoptNode (other : Section) : Node → Node × Bool
  | .leaf h content =>
    match content, h.key with
    | .void, _ => (.leaf h content, false)
    | _, none => (.leaf h content, false)
    | .entry v, some key =>
      match other.get? key with
      | none => (.leaf h (.entry v), true)
      | some (.leaf _ (.entry new)) => (.leaf h (.entry new), false)
      | some _ => (.leaf h (.entry v), true)
    | _, some key => (.leaf h content, (other.get? key).isNone)
  | .block h index level nodes =>
    match h.key with
    | none => (.block h index level nodes, false)
    | some key =>
      match other.get? key with
      | none => (.block h index level nodes, true)
      | some theirs =>
        match theirs.section? with
        | none => (.block h index level nodes, true)
        | some theirs =>
          let (nodes, differs) := adoptNodes theirs [] nodes
          (.block h index level nodes, differs || hasExtraKey theirs ⟨nodes, index, level⟩)

def adoptNodes (other : Section) (excluded : List String) : List Node → List Node × Bool
  | [] => ([], false)
  | n :: rest =>
    let skipped := !n.isVoid && n.key.any fun key => excluded.any (Text.sameIgnoringAsciiCase · key)
    let (n, differs) := if skipped then (n, false) else adoptNode other n
    let (rest, more) := adoptNodes other excluded rest
    (n :: rest, differs || more)

end

/-- Copies the values of the entries that another section has too, and tells whether the two
sections differ in their keys. Keys in `excluded` are left alone. -/
def setValues (s other : Section) (excluded : List String) : Section × Bool :=
  let (nodes, differs) := adoptNodes other excluded s.nodes
  let s := { s with nodes }
  (s, differs || hasExtraKey other s)

end Section

end ScriptStore.Config
