import ScriptStore.Types.Error
import ScriptStore.Types.Parser
import ScriptStore.Types.Serializer

/-!
# Class infos

What is registered about a type: its code name, how users call it, how its values are read,
written, saved and calculated with, and how it stands to other types in the order of trial. An info
is described by a list of attributes; most of them may be given once only.
-/

namespace ScriptStore.Types

/-- Arithmetic between values of a type and values of a relative kind. -/
structure Arithmetic where
  relative : Kind
  difference : Value → Value → Option Value
  add : Value → Value → Option Value
  subtract : Value → Value → Option Value

structure Documentation where
  description : List String := []
  usage : List String := []
  examples : List String := []
  since : Option String := none
  deriving DecidableEq

structure ClassInfo where
  kind : Kind
  code : String
  /-- The name that people read. -/
  name : String
  /-- What users may write for the type. -/
  patterns : List Pattern := []
  parser : Option Parser := none
  default : Option Value := none
  /-- Whether values can be changed in place. -/
  changer : Bool := false
  serializer : Option Serializer := none
  /-- The kind as which values are saved instead. -/
  serializeAs : Option Kind := none
  math : Option Arithmetic := none
  docs : Documentation := {}
  /-- Code names of the types that must come later. -/
  before : List String := []
  /-- Code names of the types that must come earlier. -/
  after : List String := []
  /-- The group of parsers to which the parser belongs. -/
  family : Option String := none

inductive Attribute where
  | name (text : String)
  | user (patterns : List String)
  | parser (p : Parser)
  | default (v : Option Value)
  | changer
  | serializer (s : Serializer)
  | serializeAs (k : Kind)
  | math (a : Arithmetic)
  | family (name : String)
  | description (lines : List String)
  | usage (lines : List String)
  | examples (lines : List String)
  | since (version : String)
  | before (codes : List String)
  | after (codes : List String)

/-- The name of an attribute that may be given once only. -/
def Attribute.once? : Attribute → Option String
  | .name _ => some "name"
  | .user _ => some "user"
  | .parser _ => some "parser"
  | .default _ => some "default_value"
  | .changer => some "changer"
  | .serializer _ => some "serializer"
  | .serializeAs _ => some "serialize_as"
  | .math _ => some "math"
  | .family _ => some "family"
  | _ => none

/-- The first attribute that repeats one of those before it. -/
def firstRepeated? (seen : List String) : List Attribute → Option String
  | [] => none
  | a :: rest =>
    match a.once? with
    | none => firstRepeated? seen rest
    | some name => if seen.contains name then some name else firstRepeated? (name :: seen) rest

/-- Code names consist of lower-case latin letters and digits. -/
def isCode (code : String) : Bool :=
  !code.isEmpty && code.toList.all fun c => 'a' ≤ c && c ≤ 'z' || Text.isDigit c

namespace ClassInfo

/-- Takes one attribute over. Patterns are not read here. -/
def withAttribute (info : ClassInfo) : Attribute → ClassInfo
  | .name text => { info with name := text }
  | .user _ => info
  | .parser p => { info with parser := some p }
  | .default v => { info with default := v }
  | .changer => { info with changer := true }
  | .serializer s => { info with serializer := some s }
  | .serializeAs k => { info with serializeAs := some k }
  | .math a => { info with math := some a }
  | .family name => { info with family := some name }
  | .description lines => { info with docs.description := lines }
  | .usage lines => { info with docs.usage := lines }
  | .examples lines => { info with docs.examples := lines }
  | .since version => { info with docs.since := some version }
  | .before codes => { info with before := info.before ++ codes }
  | .after codes => { info with after := info.after ++ codes }

def userPatterns (attributes : List Attribute) : List String :=
  (attributes.findSome? fun
    | .user patterns => some patterns
    | _ => none).getD []

/-- The info of a kind. -/
def ofAttributes (kind : Kind) (code : String) (attributes : List Attribute) :
    Except Error ClassInfo := do
  if !isCode code then throw (.invalidCode code)
  if let some what := firstRepeated? [] attributes then throw (.setTwice code what)
  let info := attributes.foldl withAttribute { kind, code, name := code }
  if info.serializer.isSome && info.serializeAs.isSome then throw (.serializerConflict code)
  let patterns ← (userPatterns attributes).mapM fun p =>
    (Pattern.wholeIgnoringCase p).mapError (.invalidPattern code)
  return { info with patterns }

/-- Whether a user means this type. -/
def isMeantBy (info : ClassInfo) (input : String) : Bool := info.patterns.any (·.accepts input)

def describe (info : ClassInfo) : String :=
  let flag (b : Bool) : String := if b then "true" else "false"
  let redirect := match info.serializeAs with
    | none => "None"
    | some k => s!"Some({k.name})"
  "ClassInfo \x7b code_name: " ++ Text.quoted info.code ++ ", ty: " ++ info.kind.name ++
    ", parser: " ++ flag info.parser.isSome ++ ", serializer: " ++ flag info.serializer.isSome ++
    ", serialize_as: " ++ redirect ++ ", .. \x7d"

end ClassInfo

end ScriptStore.Types
