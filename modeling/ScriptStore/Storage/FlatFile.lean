import ScriptStore.Storage.Csv
import ScriptStore.Storage.Work

/-!
# Storage in a text file

Every line holds the name of a variable, the code name of its type and its bytes in hexadecimal.
Changes are appended, a deletion with the type `null`, so the last line about a variable counts.
To replace the content, a new file is written beside the old one and moved over it.
-/

namespace ScriptStore.Storage

open Text (Bytes)
open ScriptStore.Types (Saved Registry)

structure FlatFile where
  /-- The file, relative to the base directory. -/
  file : String
  /-- The file while it is open for appending. -/
  handle : Option Disk.Handle := none
  loaded : Bool := false
  /-- The number of changes appended since the content was last replaced. -/
  changes : Nat := 0
  deriving DecidableEq

namespace FlatFile

def route (f : FlatFile) : Disk.Route := .ofText f.file

def connected (f : FlatFile) : Bool := f.handle.isSome

/-- The type that stands in the line of a deleted variable. -/
def deletedType : String := "null"

def header : String :=
  "# === Skript's variable storage ===\n# Please do not modify this file manually!\n#\n" ++
    "# version: 0.1.0\n\n"

/-! ## Lines -/

def lineOf (change : Change) : String :=
  match change with
  | (name, some saved) => Csv.write [name, saved.code, Text.Hex.encode saved.data] ++ "\n"
  | (name, none) => Csv.write [name, deletedType, ""] ++ "\n"

/-- Bytes between line feeds. A line feed at the end ends the last line. -/
def splitLines : Bytes → List Bytes
  | [] => []
  | b :: rest =>
    if b == 10 then [] :: splitLines rest
    else
      match splitLines rest with
      | [] => [[b]]
      | line :: more => (b :: line) :: more

/-- What a line says. -/
inductive Line where
  | blank
  | event (e : Event)
  /-- The variable of this name is lost. -/
  | lost (name : String)

/-- The bytes that a field of a line writes. -/
def dataOf (field : String) : Except Error Bytes :=
  match Text.Hex.decode? field with
  | some data => .ok data
  | none => .error (.invalidHex field)

/-- Reads the line with the given number. Bytes that are no text are shown as such and do no harm
elsewhere. -/
def readLine (r : Registry) (number : Nat) (bytes : Bytes) : Logged Line :=
  let line := Text.ofBytesLossy bytes
  let trimmed := Text.trimmed line
  if trimmed.isEmpty || trimmed.toList.head? == some '#' then pure .blank
  else
    match Csv.split trimmed with
    | some [name, code, data] =>
      if code = deletedType then pure (.event (name, none))
      else
        match dataOf data with
        | .error _ => pure (.lost name)
        | .ok data => do
          match ← r.deserialize code data with
          | some v => return .event (name, some v)
          | none => return .lost name
    | fields => do
      Logged.error (Error.invalidLine number line).message
      return .lost ((fields.bind (·.head?)).getD "<unknown>")

def Line.event? : Line → Option Event
  | .event e => some e
  | _ => none

def Line.lost? : Line → Option String
  | .lost name => some name
  | _ => none

/-- Reads lines, which are numbered from one: what is handed over, and what is lost. -/
def readLines (r : Registry) (lines : List Bytes) : Logged (List Event × List String) := do
  let read ← (lines.zipIdx 1).mapM fun (line, number) => readLine r number line
  return (read.filterMap Line.event?, read.filterMap Line.lost?)

/-! ## The file -/

/-- Copies a file to a directory for backups beside it, under a name with the time in it. -/
def backupFile (route : Disk.Route) : Work (Except Error Unit) := do
  let directory := route.parent.enter "backups"
  match ← createDirectories directory with
  | .error e => return .error e
  | .ok _ => do
    let (millis, disk) := (← get).now
    set disk
    let (stem, extension) := Disk.Route.stemAndExtension (route.name?.getD "")
    let ending := (extension.map ("." ++ ·)).getD ""
    let target := directory.enter s!"{stem}_{millis}{ending}"
    if disk.exists? target then return .error (.file (.backupExists (disk.shown target.text)))
    else onDisk (·.copy route target)

/-- Opens the file for appending; a new one gets its header. -/
def openFile (f : FlatFile) : Work (Except Error Disk.Handle) := do
  match ← createDirectories f.route.parent with
  | .error e => return .error e
  | .ok _ =>
    match (← get).openFile f.route with
    | .error e => return .error (.file e)
    | .ok (file, disk) => do
      set (if file.content.isEmpty then disk.append file.number (Text.toBytes header) else disk)
      return .ok file.number

def connect (f : FlatFile) : Work (FlatFile × Except Error Unit) := do
  if f.connected then return (f, .ok ())
  else
    match ← f.openFile with
    | .ok handle => return ({ f with handle := some handle }, .ok ())
    | .error e => return (f, .error e)

def disconnect (f : FlatFile) : FlatFile := { f with handle := none }

/-- What the file holds. If something in it is lost, the file is copied aside first. -/
def readFile (f : FlatFile) (r : Registry) : Work (List Event) := do
  let (events, lost) ← readLines r (splitLines (((← get).read f.route).toOption.getD []))
  if !lost.isEmpty then
    reportLost lost
    match ← backupFile f.route with
    | .ok _ => pure ()
    | .error e => Logged.error s!"Could not backup {(← get).shown f.file}: {e.message}"
  return events

def load (f : FlatFile) (r : Registry) : Work (Load FlatFile) := do
  let disk ← get
  if disk.isDirectory f.route then return ⟨f, [], some (.notAFile (disk.shown f.file))⟩
  else do
    let events ← f.readFile r
    match ← f.connect with
    | (f, .ok _) => return ⟨{ f with loaded := true }, events, none⟩
    | (f, .error e) => return ⟨f, events, some e⟩

/-- Appends a change. Before the file is loaded, deletions need not be written. -/
def save (f : FlatFile) (change : Change) : Work (FlatFile × Except Error Unit) := do
  if change.2.isNone && !f.loaded then return (f, .ok ())
  else
    match f.handle with
    | none => return (f, .error (.closed ((← get).shown f.file)))
    | some handle => do
      modify (·.append handle (Text.toBytes (lineOf change)))
      return ({ f with changes := f.changes + 1 }, .ok ())

/-- The content of a file with these variables. -/
def contentOf (vars : List (String × Saved)) : String :=
  header ++ String.join (vars.map fun (name, saved) => lineOf (name, some saved))

/-- Writes the file anew. It is closed for that, and stays so if anything fails. -/
def replace (f : FlatFile) (vars : List (String × Saved)) :
    Work (FlatFile × Except Error Unit) := do
  let closed := f.disconnect
  let temporary := Disk.Route.ofText (f.file ++ ".temp")
  match ← onDisk (·.write temporary (Text.toBytes (contentOf vars))) with
  | .error e => return (closed, .error e)
  | .ok _ =>
    match ← onDisk (·.rename temporary f.route) with
    | .error e => return (closed, .error e)
    | .ok _ =>
      let fresh := { closed with changes := 0 }
      if f.connected then fresh.connect else return (fresh, .ok ())

def backup (f : FlatFile) : Work (Except Error Unit) := backupFile f.route

end FlatFile

end ScriptStore.Storage
