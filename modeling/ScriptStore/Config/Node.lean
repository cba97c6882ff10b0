import ScriptStore.Config.Error
import ScriptStore.Config.Line
import ScriptStore.Dict
import ScriptStore.Text.Case
import ScriptStore.Text.Split

/-!
# Nodes

One node for each line of a document. An entry has a key and a value, a section a key and the
nodes of the indented block below it; a simple line is text not yet split into key and value, a
void line is empty but for a comment, and an invalid line broke the rules.

A section keeps two things beside its nodes: an index from lower-cased keys to positions, for the
entries and sections among them, and the level its nodes stand at. Every operation that changes
the nodes is responsible for both.
-/

namespace ScriptStore.Config

structure Header where
  key : Option String
  /-- Empty, or the comment with its `#`. -/
  comment : String := ""
  /-- The line of the source, if the node comes from one. -/
  line : Option Nat := none
  /-- The number of sections around the node, the root not counted. -/
  level : Nat := 0
  deriving DecidableEq

/-- What a node without a block below it is. -/
inductive Leaf where
  | entry (value : String)
  | simple
  | void
  | invalid
  deriving DecidableEq

/-- Positions of entries and sections by lower-cased key. -/
abbrev Index := Dict String Nat

inductive Node where
  | leaf (header : Header) (content : Leaf)
  | block (header : Header) (index : Index) (childLevel : Nat) (nodes : List Node)

instance : Inhabited Node := ⟨.leaf { key := none } .void⟩

/-- The nodes of a block, or of a whole document. -/
structure Section where
  nodes : List Node := []
  index : Index := {}
  childLevel : Nat := 0

namespace Node

def header : Node → Header
  | .leaf h _ => h
  | .block h _ _ _ => h

def withHeader (h : Header) : Node → Node
  | .leaf _ content => .leaf h content
  | .block _ index level nodes => .block h index level nodes

def key (n : Node) : Option String := n.header.key

def comment (n : Node) : String := n.header.comment

def line (n : Node) : Option Nat := n.header.line

def level (n : Node) : Nat := n.header.level

def section? : Node → Option Section
  | .leaf _ _ => none
  | .block _ index level nodes => some ⟨nodes, index, level⟩

def value? : Node → Option String
  | .leaf _ (.entry v) => some v
  | _ => none

def isVoid : Node → Bool
  | .leaf _ .void => true
  | _ => false

def isEntry : Node → Bool
  | .leaf _ (.entry _) => true
  | _ => false

def isSection : Node → Bool
  | .block .. => true
  | _ => false

def isInvalid : Node → Bool
  | .leaf _ .invalid => true
  | _ => false

/-- Whether the node can be found by its key. -/
def isNamed (n : Node) : Bool := n.isEntry || n.isSection

/-- Whether the comment marks the node for diagnostic output. -/
def isDebug (n : Node) : Bool := n.comment == "#DEBUG#"

/-- Sets the comment. Text that does not start with `#` gets one. -/
def setComment (n : Node) (text : String) : Node :=
  let comment := if text.isEmpty || text.toList.head? == some '#' then text else "#" ++ text
  n.withHeader { n.header with comment }

/-- Sets the value of an entry. -/
def setValue? (n : Node) (v : String) : Option Node :=
  match n with
  | .leaf h (.entry _) => some (.leaf h (.entry v))
  | _ => none

def setKey (n : Node) (key : String) : Node := n.withHeader { n.header with key := some key }

end Node

/-! ## Levels -/

mutual

/-- Moves a node to a level, and the nodes of its block to the levels below. -/
def Node.setLevel (level : Nat) : Node → Node
  | .leaf h content => .leaf { h with level } content
  | .block h index _ nodes => .block { h with level } index (level + 1) (setLevels (level + 1) nodes)

def setLevels (level : Nat) : List Node → List Node
  | [] => []
  | n :: rest => n.setLevel level :: setLevels level rest

end

theorem setLevels_eq_map (level : Nat) (nodes : List Node) :
    setLevels level nodes = nodes.map (·.setLevel level) := by
  induction nodes with
  | nil => rfl
  | cons n rest ih => rw [setLevels, ih, List.map_cons]

/-! ## Making nodes -/

namespace Node

def ofLeaf (key : Option String) (comment : String) (line : Option Nat) (content : Leaf) : Node :=
  .leaf { key, comment, line } content

/-- A section node. Its nodes move to the level below. -/
def ofSection (key : String) (comment : String) (line : Option Nat) (s : Section) : Node :=
  (Node.block { key := some key, comment, line } s.index s.childLevel s.nodes).setLevel 0

def entry (key value : String) : Node := ofLeaf (some key) "" none (.entry value)

def simple (text : String) : Node := ofLeaf (some text) "" none .simple

def void (comment : String) : Node := ofLeaf none comment none .void

end Node

/-! ## Comparing -/

mutual

/-- Whether two nodes agree in key, comment, line, level, content and block. -/
def Node.same : Node → Node → Bool
  | .leaf h c, .leaf h' c' => h == h' && c == c'
  | .block h _ _ nodes, .block h' _ _ nodes' => h == h' && sameNodes nodes nodes'
  | _, _ => false

def sameNodes : List Node → List Node → Bool
  | [], [] => true
  | n :: rest, n' :: rest' => n.same n' && sameNodes rest rest'
  | _, _ => false

end

/-! ## Writing -/

namespace Node

/-- The text of a node without indentation, escapes and comment. -/
def body (separator : List Char) (n : Node) : List Char :=
  let key := (n.key.getD "").toList
  match n with
  | .block .. => key ++ [':']
  | .leaf _ (.entry v) => key ++ separator ++ v.toList
  | .leaf _ _ => key

/-- Whether a blank has to stand between an escaped body and a comment. -/
def needsGap (body : List Char) : Bool :=
  match body.getLast? with
  | none => false
  | some c => !Text.isBlank c

/-- The line of a node. A void node without comment is an empty line at any level. -/
def lineText (indentation separator : List Char) (n : Node) : List Char :=
  if n.isVoid && n.comment.isEmpty then []
  else
    let body := Line.escape (n.body separator)
    let front := (List.replicate n.level indentation).flatten ++ body
    if n.comment.isEmpty then front
    else front ++ (if needsGap body then [' '] else []) ++ n.comment.toList

/-- A node in messages. -/
def describe (n : Node) : String :=
  let place := match n.line with
    | some l => s!" (line {l})"
    | none => " (unknown line)"
  String.ofList (n.body ": ".toList) ++ n.comment ++ place

end Node

mutual

/-- The lines of a node and of its block. -/
def Node.lines (indentation separator : List Char) : Node → List String
  | .leaf h content => [String.ofList ((Node.leaf h content).lineText indentation separator)]
  | .block h index level nodes =>
    String.ofList ((Node.block h index level nodes).lineText indentation separator) ::
      linesOf indentation separator nodes

def linesOf (indentation separator : List Char) : List Node → List String
  | [] => []
  | n :: rest => n.lines indentation separator ++ linesOf indentation separator rest

end

end ScriptStore.Config
