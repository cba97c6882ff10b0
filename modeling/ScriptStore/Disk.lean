import ScriptStore.Dict
import ScriptStore.Disk.Route

/-!
# The disk

A directory tree as a value: the files below one base directory with their bytes, the directories,
and the keyed tables that live in some of them. Operations take routes, look up every part of them,
and fail as the system calls behind them would. A file has a number for as long as it lives, so that
one who has opened it still writes to that file when its name has been given to another. The clock
is read for the names of backups and moves on with every reading, so that no two readings agree.
-/

namespace ScriptStore

open Text (Bytes)

inductive FileError where
  | notFound
  | busy
  | alreadyExists
  | notADirectory
  | isADirectory
  | nameTooLong
  | nulInName
  | notARegularFile
  | invalidText
  | backupExists (path : String)
  deriving DecidableEq

def FileError.message : FileError → String
  | .notFound => "No such file or directory (os error 2)"
  | .busy => "Device or resource busy (os error 16)"
  | .alreadyExists => "File exists (os error 17)"
  | .notADirectory => "Not a directory (os error 20)"
  | .isADirectory => "Is a directory (os error 21)"
  | .nameTooLong => "File name too long (os error 36)"
  | .nulInName => "file name contained an unexpected NUL byte"
  | .notARegularFile =>
    "the source path is neither a regular file nor a symlink to a regular file"
  | .invalidText => "stream did not contain valid UTF-8"
  | .backupExists path => s!"Backup file {path} does already exist"

namespace Disk

/-- Where something lies: the names on the way down from the base directory, which is the empty
path. The directories above the base directory are written with `..` only. -/
abbrev Path := List String

def Path.text (p : Path) : String := Text.join "/" p

/-- The base directory and those above it. -/
def Path.isAbove (p : Path) : Bool := p.all (· == "..")

/-- The directory that holds a directory. -/
def Path.up (p : Path) : Path := if p.isAbove then p ++ [".."] else p.dropLast

/-- The number of an open file. -/
abbrev Handle := Nat

structure File where
  number : Handle
  content : Bytes

/-- The longest name in bytes. -/
def maxName : Nat := 255

/-- The length in bytes that no route reaches. -/
def routeLimit : Nat := 4096

end Disk

structure Disk where
  /-- How messages call the base directory. -/
  base : String := "."
  directories : List Disk.Path := []
  files : Dict Disk.Path Disk.File := {}
  /-- The number of the next file. -/
  nextFile : Disk.Handle := 0
  /-- Keyed tables by the directory that holds them. -/
  tables : Dict Disk.Path (Dict Bytes Bytes) := {}
  /-- Milliseconds. -/
  clock : Nat := 0

namespace Disk

/-! ## Routes -/

/-- How messages call what a text leads to. -/
def shown (d : Disk) (text : String) : String := d.base ++ "/" ++ text

def hasDirectory (d : Disk) (p : Path) : Bool := p.isAbove || d.directories.contains p

def hasFile (d : Disk) (p : Path) : Bool := d.files.contains p

/-- What a route must be, whatever is on the disk. -/
def checkRoute (d : Disk) (r : Route) : Except FileError Unit :=
  if r.parts.any (·.contains '\x00') then .error .nulInName
  else if routeLimit ≤ (d.shown r.text).utf8ByteSize then .error .nameTooLong
  else .ok ()

/-- Goes one part on from a path where something is. -/
def step (d : Disk) (p : Path) (part : String) : Except FileError Path :=
  if !d.hasDirectory p then .error .notADirectory
  else if part == "." then .ok p
  else if part == ".." then .ok p.up
  else if maxName < part.utf8ByteSize then .error .nameTooLong
  else if d.hasDirectory (p ++ [part]) || d.hasFile (p ++ [part]) then .ok (p ++ [part])
  else .error .notFound

/-- The path of what a route leads to. -/
def locate (d : Disk) (r : Route) : Except FileError Path := do
  d.checkRoute r
  let p ← r.steps.foldlM d.step []
  if r.endsWithSlash && !d.hasDirectory p then .error .notADirectory else .ok p

def isDirectory (d : Disk) (r : Route) : Bool := (d.locate r).toOption.any d.hasDirectory

def isFile (d : Disk) (r : Route) : Bool := (d.locate r).toOption.any d.hasFile

def exists? (d : Disk) (r : Route) : Bool := (d.locate r).isOk

/-- The end of a route of which the rest leads to a directory. -/
inductive Ending where
  /-- The directory itself or one above it, or the base directory. -/
  | dots
  /-- A name in the directory, with a slash behind it or not. -/
  | name (p : Path) (slash : Bool)

/-- Follows a route up to its last part. -/
def approach (d : Disk) (r : Route) : Except FileError Ending := do
  d.checkRoute r
  let p ← r.steps.dropLast.foldlM d.step []
  match r.steps.getLast? with
  | none => return .dots
  | some part =>
    if !d.hasDirectory p then .error .notADirectory
    else if part == "." || part == ".." then return .dots
    else return .name (p ++ [part]) r.endsWithSlash

/-- Whether a name can be given. -/
def checkName (p : Path) : Except FileError Unit :=
  if maxName < (p.getLastD "").utf8ByteSize then .error .nameTooLong else .ok ()

/-! ## Directories -/

def makeDirectory (d : Disk) (r : Route) : Except FileError Disk := do
  match ← d.approach r with
  | .dots => .error .alreadyExists
  | .name p _ =>
    checkName p
    if d.hasDirectory p || d.hasFile p then .error .alreadyExists
    else return { d with directories := d.directories ++ [p] }

/-- Makes a directory unless it is there. -/
def ensureDirectory (d : Disk) (r : Route) : Disk × Except FileError Unit :=
  match d.makeDirectory r with
  | .ok d => (d, .ok ())
  | .error e => (d, if d.isDirectory r then .ok () else .error e)

/-- Makes the first of the directories; if what holds it is missing, the others come first. -/
def ensureFirst (d : Disk) : List Route → Disk × Except FileError Unit
  | [] => (d, .ok ())
  | r :: above =>
    match d.ensureDirectory r with
    | (d, .error .notFound) =>
      match d.ensureFirst above with
      | (d, .ok _) => d.ensureDirectory r
      | failed => failed
    | done => done

/-- Creates a directory and those above it. What was created before a failure stays. -/
def createDirectories (d : Disk) (r : Route) : Disk × Except FileError Unit :=
  match d.checkRoute r with
  | .ok _ => d.ensureFirst r.upward
  | .error e => (d, .error e)

/-! ## Files -/

def read (d : Disk) (r : Route) : Except FileError Bytes := do
  let p ← d.locate r
  match d.files.get? p with
  | some file => return file.content
  | none => .error .isADirectory

/-- Where a file is that is opened for writing, created if need be. -/
def writable (d : Disk) (r : Route) : Except FileError Path := do
  match ← d.approach r with
  | .dots | .name _ true => .error .isADirectory
  | .name p false =>
    checkName p
    if d.hasDirectory p then .error .isADirectory else return p

/-- The file at a path with other content; it has a new number only if it was not there. -/
def setContent (d : Disk) (p : Path) (content : Bytes) : Disk :=
  match d.files.get? p with
  | some file => { d with files := d.files.insert p { file with content } }
  | none =>
    { d with files := d.files.insert p ⟨d.nextFile, content⟩, nextFile := d.nextFile + 1 }

/-- Creates a file or replaces its content. -/
def write (d : Disk) (r : Route) (content : Bytes) : Except FileError Disk := do
  return d.setContent (← d.writable r) content

/-- Opens a file for appending, created empty if it is missing. Gives its content as well. -/
def openFile (d : Disk) (r : Route) : Except FileError (File × Disk) := do
  let p ← d.writable r
  match d.files.get? p with
  | some file => return (file, d)
  | none => return (⟨d.nextFile, []⟩, d.setContent p [])

/-- Appends to an open file, wherever it lies by now. If its name was given to another, the bytes are
seen no more. -/
def append (d : Disk) (h : Handle) (bytes : Bytes) : Disk :=
  { d with files := ⟨d.files.entries.map fun (p, file) =>
      (p, if file.number == h then { file with content := file.content ++ bytes } else file)⟩ }

/-- Gives a file the place and name of another. -/
def rename (d : Disk) (source target : Route) : Except FileError Disk := do
  match ← d.approach source, ← d.approach target with
  | .name p slash, .name q slash' =>
    match d.files.get? p with
    | none => .error .notFound
    | some file =>
      checkName q
      if slash || slash' then .error .notADirectory
      else if d.hasDirectory q then .error .isADirectory
      else return { d with files := (d.files.erase p).insert q file }
  | .name _ _, .dots => if target.steps.isEmpty then .error .notADirectory else .error .busy
  | .dots, _ => .error .busy

def copy (d : Disk) (source target : Route) : Except FileError Disk :=
  match d.read source with
  | .error .isADirectory => .error .notARegularFile
  | .error e => .error e
  | .ok content => d.write target content

/-- The files below the base directory, in the order of their paths as text. -/
def listed (d : Disk) : List (Path × Bytes) :=
  ((d.files.entries.filter fun e => e.1.head? != some "..").map
    fun (p, file) => (p, file.content)).mergeSort fun a b => a.1.text ≤ b.1.text

/-- Puts a file where it belongs, with the directories above it. -/
def place (d : Disk) (r : Route) (content : Bytes) : Disk :=
  let d := (d.createDirectories r.parent).1
  (d.write r content).toOption.getD d

/-! ## Tables and the clock -/

/-- The keyed table in a directory. -/
def records (d : Disk) (r : Route) : Dict Bytes Bytes :=
  ((d.locate r).toOption.bind d.tables.get?).getD {}

def setRecords (d : Disk) (r : Route) (records : Dict Bytes Bytes) : Disk :=
  match d.locate r with
  | .ok p => { d with tables := d.tables.insert p records }
  | .error _ => d

/-- The time, which thereby passes. -/
def now (d : Disk) : Nat × Disk := (d.clock, { d with clock := d.clock + 1 })

end Disk

end ScriptStore
