import ScriptStore.Storage.Work

/-!
# Storage in a keyed table

A table in a directory of its own, ordered by the bytes of its keys. The keys are the names of
variables. A record is the length of the type's code name in one byte, the code name, and the bytes
of the value.
-/

namespace ScriptStore.Storage

open Text (Bytes)
open ScriptStore.Types (Saved Registry)

structure Table where
  /-- The directory, relative to the base directory. -/
  directory : String
  connected : Bool := false
  deriving DecidableEq

namespace Table

def route (t : Table) : Disk.Route := .ofText t.directory

/-- The longest key that a table takes. -/
def maxKeySize : Nat := 511

def badKey : Error :=
  .table "MDB_BAD_VALSIZE: Unsupported size of key/DB name/data, or wrong DUPFIXED size"

def encodeRecord (name : String) (saved : Saved) : Except Error Bytes :=
  let code := Text.toBytes saved.code
  if code.length < 256 then .ok (UInt8.ofNat code.length :: (code ++ saved.data))
  else .error (.corruptRecord name)

def decodeRecord (name : String) : Bytes → Except Error Saved
  | [] => .error (.corruptRecord name)
  | length :: rest =>
    if rest.length < length.toNat then .error (.corruptRecord name)
    else
      match Text.ofBytes (rest.take length.toNat) with
      | .ok code => .ok ⟨code, rest.drop length.toNat⟩
      | .error _ => .error (.corruptRecord name)

def compareBytes : Bytes → Bytes → Ordering
  | [], [] => .eq
  | [], _ :: _ => .lt
  | _ :: _, [] => .gt
  | a :: as, b :: bs => (compare a.toNat b.toNat).then (compareBytes as bs)

/-- The records in the order of their keys. -/
def sorted (records : Dict Bytes Bytes) : List (Bytes × Bytes) :=
  records.entries.mergeSort fun a b => compareBytes a.1 b.1 != .gt

def checkKey (key : Bytes) : Except Error Unit :=
  if key.isEmpty || maxKeySize < key.length then .error badKey else .ok ()

/-- Puts a variable into a table. -/
def put (records : Dict Bytes Bytes) (name : String) (saved : Saved) :
    Except Error (Dict Bytes Bytes) :=
  match encodeRecord name saved with
  | .error e => .error e
  | .ok record =>
    let key := Text.toBytes name
    (checkKey key).map fun _ => records.insert key record

def putAll (records : Dict Bytes Bytes) : List (String × Saved) → Except Error (Dict Bytes Bytes)
  | [] => .ok records
  | (name, saved) :: rest =>
    match put records name saved with
    | .error e => .error e
    | .ok records => putAll records rest

def erase (records : Dict Bytes Bytes) (name : String) : Except Error (Dict Bytes Bytes) :=
  let key := Text.toBytes name
  if key.isEmpty then .error badKey else .ok (records.erase key)

def connect (t : Table) : Work (Table × Except Error Unit) := do
  let disk ← get
  if t.connected then return (t, .ok ())
  else if disk.isFile t.route then return (t, .error (.notAFile (disk.shown t.directory)))
  else
    match ← createDirectories t.route with
    | .ok _ => return ({ t with connected := true }, .ok ())
    | .error e => return (t, .error e)

def disconnect (t : Table) : Table := { t with connected := false }

/-- Reads a record: the name of its variable, and the value unless it is lost. -/
def readRecord (r : Registry) (key record : Bytes) : Logged Event := do
  let name := Text.ofBytesLossy key
  match decodeRecord name record with
  | .ok saved => return (name, ← r.load saved)
  | .error _ => return (name, none)

/-- Reads records: what is handed over, and the names of what is lost. -/
def readRecords (r : Registry) (records : List (Bytes × Bytes)) :
    Logged (List Event × List String) := do
  let (found, lost) := (← records.mapM fun (key, record) => readRecord r key record).partition
    (·.2.isSome)
  return (found, lost.map (·.1))

def load (t : Table) (r : Registry) : Work (Load Table) := do
  match ← t.connect with
  | (t, .error e) => return ⟨t, [], some e⟩
  | (t, .ok _) => do
    let (events, lost) ← readRecords r (sorted ((← get).records t.route))
    if !lost.isEmpty then reportLost lost
    return ⟨t, events, none⟩

/-- Changes the records of a table that is connected; a change that fails leaves them as they
were. -/
def update (t : Table) (f : Dict Bytes Bytes → Except Error (Dict Bytes Bytes)) :
    Work (Except Error Unit) := do
  let disk ← get
  if !t.connected then return .error (.closed (disk.shown t.directory))
  else
    match f (disk.records t.route) with
    | .error e => return .error e
    | .ok records => do
      set (disk.setRecords t.route records)
      return .ok ()

def save (t : Table) (change : Change) : Work (Except Error Unit) :=
  t.update fun records =>
    match change with
    | (name, some saved) => put records name saved
    | (name, none) => erase records name

def replace (t : Table) (vars : List (String × Saved)) : Work (Except Error Unit) :=
  t.update fun _ => putAll {} vars

/-- Puts a record under a key, both as they are. It needs no connection, but the directory has to
be there. -/
def putRecord (t : Table) (key record : Bytes) : Work (Except Error Unit) := do
  let disk ← get
  match disk.locate t.route with
  | .error e => return .error (.file e)
  | .ok p =>
    if disk.hasFile p then return .error (.file .notADirectory)
    else
      match checkKey key with
      | .error e => return .error e
      | .ok _ => do
        set (disk.setRecords t.route ((disk.records t.route).insert key record))
        return .ok ()

def describe (t : Table) (disk : Disk) : String :=
  "LmdbStorage \x7b path: " ++ Text.quoted (disk.shown t.directory) ++ ", connected: " ++
    (if t.connected then "true" else "false") ++ " \x7d"

end Table

end ScriptStore.Storage
