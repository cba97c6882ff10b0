import ScriptStore.Config.LineReader
import ScriptStore.Config.Section

/-!
# Documents

A document is a tree of nodes read from indented lines. A line that ends in a colon opens a
section, and the lines indented one unit deeper belong to it; the unit is a tab, or what the first
indented line shows. A line that is indented less closes the section and is read again by the one
around it. Void lines stay with the section that is open.

Loading follows the lines: `placeLine` decides what a line is for the section that reads it, and
`loadSection` acts on that.
-/

namespace ScriptStore.Config

structure Options where
  /-- Lines are kept whole instead of being split into entries. -/
  simple : Bool := false
  separator : String := ":"
  allowEmptySections : Bool := false
  warnEmptySections : Bool := true
  warnEmptyFile : Bool := true

structure Document where
  root : Section
  fileName : String
  path : Option String
  simple : Bool
  separator : String
  indentation : String
  errors : Nat
  diagnostics : List Diagnostic

/-! ## Reading lines into sections -/

/-- What the lines read so far have told: the unit of indentation, whether it was read off a line,
and the findings, the latest first. -/
structure Progress where
  unit : List Char := ['\t']
  unitKnown : Bool := false
  findings : List Diagnostic := []

def Progress.report (p : Progress) (severity : Severity) (message : String) (line : Nat) : Progress :=
  { p with findings := ⟨severity, message, some line⟩ :: p.findings }

/-- What a line is for a section. -/
inductive Placement where
  /-- Nothing but white space before the comment. -/
  | void
  /-- Content at the level of the section. -/
  | content (text : List Char)
  /-- A line indented in a way that fits no section. -/
  | misplaced (text : List Char) (message : String)
  /-- A line that belongs to a section around this one. -/
  | outside

def unitName (unit : List Char) : String := if unit.head? == some ' ' then "space" else "tab"

/-- The whole indentation of a level. -/
def indentOf (unit : List Char) (level : Nat) : List Char := (List.replicate level unit).flatten

/-- The unit that the first indented line shows, or the complaint about it. Until one has been
seen, the lines of the first nested level that start with white space are asked. -/
def sniffUnit (p : Progress) (level : Nat) (value : List Char) : Except String Progress :=
  if p.unitKnown || level != 1 || (Text.trim value).isEmpty || Line.startsWithContent value then .ok p
  else
    let blanks := Line.indentation value
    if blanks.all (· == ' ') || blanks.all (· == '\t') then
      .ok { p with unit := blanks, unitKnown := true }
    else
      .error s!"indentation error: indent must only consist of either spaces or tabs, but not mixed (found {Line.describeBlanks blanks})"

/-- Places the value of a line in a section at the given level. -/
def placeLine (unit : List Char) (level : Nat) (value : List Char) : Placement :=
  let text := Text.trim value
  if text.isEmpty then .void
  else
    let expected := indentOf unit level
    let rest := Text.dropFront? expected value
    if rest.any Line.startsWithContent then .content text
    else if rest.any (fun r => !r.isEmpty) || !Line.startsWithContent (Line.stripUnits unit value) then
      let count := level * unit.length
      let plural := if count == 1 then "" else "s"
      .misplaced text
        s!"indentation error: expected {count} {unitName unit}{plural}, but found {Line.describeBlanks (Line.indentation value)}"
    else .outside

/-- The key of the section that a line opens, if it opens one. A colon at the end does not open a
section if the line is already an entry: if the separator occurs in it anywhere but at the end. -/
def headerKey? (options : Options) (text : List Char) : Option (List Char) :=
  match Text.dropBack? [':'] text with
  | none => none
  | some key =>
    let separator := options.separator.toList
    let opens :=
      options.simple ||
      match Text.splitOnce separator text with
      | none => true
      | some (_, after) => separator.getLast? == some ':' && after.isEmpty
    if opens then some key else none

def emptySectionWarning : String :=
  "Empty configuration section! You might want to indent one or more of the subsequent lines " ++
  "to make them belong to this section or remove the colon at the end of the line if you " ++
  "don't want this line to start a section."

/-- Reads the lines of a section of which `nodes` have been read already, the last first. The result
is the section, what has been learned, and the lines that are left. Each call consumes a line or
ends, so `fuel` need not exceed the number of lines. -/
def loadSection (options : Options) :
    (fuel level : Nat) → Progress → (nodes : List Node) → List (Nat × String) →
      Section × Progress × List (Nat × String)
  | 0, _, p, nodes, lines => (.ofNodes nodes.reverse, p, lines)
  | _ + 1, _, p, nodes, [] => (.ofNodes nodes.reverse, p, [])
  | fuel + 1, level, p, nodes, (number, line) :: rest =>
    let (value, comment) := Line.split line.toList
    let comment := String.ofList comment
    match sniffUnit p level value with
    | .error message =>
      let n := Node.ofLeaf (some (String.ofList (Text.trim value))) comment (some number) .invalid
      loadSection options fuel level (p.report .error message number) (n :: nodes) rest
    | .ok p =>
      match placeLine p.unit level value with
      | .misplaced text message =>
        let n := Node.ofLeaf (some (String.ofList text)) comment (some number) .invalid
        loadSection options fuel level (p.report .error message number) (n :: nodes) rest
      | .outside =>
        let warn :=
          level > 0 && nodes.all Node.isVoid && !options.allowEmptySections &&
            options.warnEmptySections
        let p := if warn then p.report .warning emptySectionWarning number else p
        (.ofNodes nodes.reverse, p, (number, line) :: rest)
      | .void =>
        let n := Node.ofLeaf none comment (some number) .void
        loadSection options fuel level p (n :: nodes) rest
      | .content text =>
        match headerKey? options text with
        | some key =>
          let (children, p, rest) := loadSection options fuel (level + 1) p [] rest
          let n := Node.ofSection (String.ofList key) comment (some number) children
          loadSection options fuel level p (n :: nodes) rest
        | none =>
          let text := String.ofList text
          if options.simple then
            let n := Node.ofLeaf (some text) comment (some number) .simple
            loadSection options fuel level p (n :: nodes) rest
          else
            let (n, found) :=
              Section.entryFromText text options.separator comment (some number)
            let p := match found with
              | some d => p.report d.severity d.message number
              | none => p
            loadSection options fuel level p (n :: nodes) rest

namespace Document

def countErrors (found : List Diagnostic) : Nat :=
  (found.filter fun d => d.severity == .error).length

/-- A document without lines. -/
def empty (fileName : String) (options : Options) : Except Error Document :=
  if options.separator.isEmpty then .error .emptySeparator
  else .ok {
    root := {}
    fileName
    path := none
    simple := options.simple
    separator := options.separator
    indentation := "\t"
    errors := 0
    diagnostics := [] }

/-- Reads a document from its numbered lines. -/
def ofLines (fileName : String) (options : Options) (lines : List (Nat × String)) : Document :=
  let (root, p, _) := loadSection options lines.length 0 {} [] lines
  let found := p.findings.reverse
  let emptiness :=
    if lines.isEmpty && options.warnEmptyFile then
      [⟨Severity.warning, s!"'{fileName}' is empty", none⟩]
    else []
  { root
    fileName
    path := none
    simple := options.simple
    separator := options.separator
    indentation := String.ofList p.unit
    errors := countErrors found
    diagnostics := found ++ emptiness }

/-- Reads a document. Only bytes that are no text and an empty separator make it fail. -/
def load (source : Text.Bytes) (fileName : String) (options : Options) : Except Error Document :=
  if options.separator.isEmpty then .error .emptySeparator
  else match sourceLines source with
    | .error e => .error e
    | .ok lines => .ok (ofLines fileName options lines)

def loadText (source fileName : String) (options : Options) : Except Error Document :=
  load (Text.toBytes source) fileName options

/-- Reads a document from a file, whose name it takes. A route that leads nowhere fails at once; a
directory fails only when it is read, after the options were looked at. -/
def loadFile (disk : Disk) (file : String) (options : Options) : Except Error Document :=
  let route := Disk.Route.ofText file
  match disk.locate route with
  | .error e => .error (.file e)
  | .ok _ =>
    if options.separator.isEmpty then .error .emptySeparator
    else match disk.read route with
      | .error e => .error (.file e)
      | .ok source =>
        match load source (route.name?.getD (disk.shown file)) options with
        | .error e => .error e
        | .ok d => .ok { d with path := some file }

/-! ## Reading -/

def isEmpty (d : Document) : Bool := d.root.isEmpty

def get (d : Document) (path : List String) : Option String := d.root.valueAt path

def getByPath (d : Document) (path : String) : Option String := d.root.lookup path

/-- Follows keys down from a section and tells the first that leads nowhere. -/
def descendOr (s : Section) : List String → Except Error Section
  | [] => .ok s
  | key :: rest =>
    match s.section? key with
    | some child => descendOr child rest
    | none => .error (.notASection key)

/-- The section at a path with dots between the keys. Empty keys are skipped. -/
def sectionByPath (d : Document) (path : String) : Except Error Section :=
  descendOr d.root ((Text.splitAtChar '.' path).filter fun key => !key.isEmpty)

def toMap (d : Document) (separator : String) : Dict String String := d.root.flatten "" separator

/-! ## Changing -/

/-- Splits the simple lines of a document that has them into entries. -/
def convertToEntries (d : Document) (levels : Option Nat) (separator : String) :
    Except Error Document :=
  if !d.simple then .error (.notSimple d.fileName)
  else
    let (root, found) := d.root.convertToEntries levels separator
    .ok { d with
      root
      errors := d.errors + found.length
      diagnostics := d.diagnostics ++ found }

/-- Takes over the values of another document, and tells whether their keys differ. -/
def setValues (d other : Document) (excluded : List String) : Document × Bool :=
  let (root, differs) := d.root.setValues other.root excluded
  ({ d with root }, differs)

/-! ## Writing -/

/-- What stands between key and value in a saved entry: the separator with a blank after it, and
one before it unless it is a colon. -/
def saveSeparator (d : Document) : String :=
  if d.separator == ":" then ": " else " " ++ d.separator ++ " "

def lines (d : Document) : List String :=
  linesOf d.indentation.toList d.saveSeparator.toList d.root.nodes

/-- The text of a document, every line ended. -/
def save (d : Document) : String := Text.join "\n" d.lines ++ "\n"

def saveFile (d : Document) (disk : Disk) (file : String) : Except Error Disk :=
  match disk.write (.ofText file) (Text.toBytes d.save) with
  | .error e => .error (.file e)
  | .ok disk => .ok disk

end Document

end ScriptStore.Config
