import ScriptStore.Storage.Backend

/-!
# Outlets

A backend with a name and a pattern for the names of the variables that belong to it. Until a writer
is started, changes wait in a queue; from then on they are saved as they come.
-/

namespace ScriptStore.Storage

open ScriptStore.Types (Saved Registry)

/-- How changes get to the backend. -/
inductive Delivery where
  /-- They wait; `warned` says whether there was a warning about how many. -/
  | queued (changes : List Change) (warned : Bool)
  /-- A writer saves them as they come. -/
  | writing
  | closed

structure Outlet where
  name : String
  /-- Without a pattern every name belongs here. -/
  pattern : Option Pattern
  backend : Backend
  delivery : Delivery := .queued [] false

namespace Outlet

/-- More waiting changes than this are too many. -/
def warningThreshold : Nat := 300

def tooSlow (name : String) : String :=
  s!"Cannot write variables to the database '{name}' at sufficient speed; server performance may " ++
    "suffer and many variables will be lost if the server crashes. (this warning will be repeated " ++
    "at most once every 10 seconds)"

/-- An outlet for the variables whose whole name matches a pattern. -/
def make (name pattern : String) (backend : Backend) : Except Error Outlet :=
  if pattern == ".*" || pattern == ".+" then .ok { name, pattern := none, backend }
  else
    match Pattern.whole pattern with
    | .ok p => .ok { name, pattern := some p, backend }
    | .error e => .error (.invalidPattern pattern e)

/-- Whether variables of a name belong here. -/
def accepts (o : Outlet) (name : String) : Bool := o.pattern.all (·.accepts name)

/-- The number of changes that wait. -/
def pending (o : Outlet) : Nat :=
  match o.delivery with
  | .queued changes _ => changes.length
  | _ => 0

/-- Saves a change. What goes wrong is a matter of the writer. -/
def write (o : Outlet) (change : Change) : Work Outlet := do
  let (backend, _) ← o.backend.save change
  return { o with backend }

def writeAll (o : Outlet) : List Change → Work Outlet
  | [] => pure o
  | change :: rest => do (← o.write change).writeAll rest

/-- Starts the writer, which takes up what waits. -/
def start (o : Outlet) : Work Outlet :=
  match o.delivery with
  | .queued changes _ => Outlet.writeAll { o with delivery := .writing } changes
  | _ => pure o

/-- Hands in a change. -/
def queue (o : Outlet) (change : Change) : Work Outlet :=
  match o.delivery with
  | .closed => do
    Logged.warn (Error.closed o.name).message
    return o
  | .writing => o.write change
  | .queued changes warned => do
    let many := warningThreshold < changes.length && !warned
    if many then Logged.warn (tooSlow o.name)
    return { o with delivery := .queued (changes ++ [change]) (warned || many) }

/-- Saves what never got a writer. -/
def saveRest (o : Outlet) : List Change → Work Outlet
  | [] => pure o
  | change :: rest => do
    match ← o.backend.save change with
    | (backend, .ok _) => Outlet.saveRest { o with backend } rest
    | (backend, .error e) => do
      Logged.error s!"failed to save variable: {e.message}"
      Outlet.saveRest { o with backend } rest

/-- Takes no more changes, saves what waits, and disconnects the backend. -/
def close (o : Outlet) : Work Outlet := do
  let o ← match o.delivery with
    | .queued changes _ => o.saveRest changes
    | _ => pure o
  match o.backend.disconnect with
  | (backend, .ok _) => return { o with backend, delivery := .closed }
  | (backend, .error e) => do
    Logged.error s!"failed to disconnect: {e.message}"
    return { o with backend, delivery := .closed }

def describe (o : Outlet) (disk : Disk) : String :=
  let optional (text : Option String) : String :=
    match text with
    | none => "None"
    | some text => s!"Some({Text.quoted text})"
  "Storage \x7b name: " ++ Text.quoted o.name ++ ", pattern: " ++
    optional (o.pattern.map (·.source)) ++ ", file: " ++ optional (o.backend.file?.map disk.shown) ++
    ", .. \x7d"

end Outlet

end ScriptStore.Storage
