import ScriptStore.Text.Split
import ScriptStore.Text.Utf8

/-!
# Routes

A route is the way to a file or a directory as it is written, in parts between slashes. What it
leads to depends on the directories it passes, so its parts are kept as they are: empty ones and `.`
stay where they are, and `..` goes back.
-/

namespace ScriptStore.Disk

structure Route where
  parts : List String
  deriving DecidableEq

namespace Route

/-- Reads a route below the base directory. -/
def ofText (s : String) : Route := ⟨Text.splitAtChar '/' s⟩

def text (r : Route) : String := Text.join "/" r.parts

/-- A part that stays where it is. -/
def isIdle (part : String) : Bool := part == "" || part == "."

/-- The parts up to the last that is not idle. -/
def bare (r : Route) : List String := (r.parts.reverse.dropWhile isIdle).reverse

/-- The route without its last part, idle parts aside. Above the base directory, which is the empty
route, is the directory that holds it. -/
def parent (r : Route) : Route :=
  match r.bare with
  | [] => ⟨[".."]⟩
  | parts => ⟨bare ⟨parts.dropLast⟩⟩

/-- The name at the end of the route. -/
def name? (r : Route) : Option String := r.bare.getLast?.filter (· != "..")

/-- Goes on from a directory. -/
def enter (r : Route) (name : String) : Route := ⟨r.parts ++ [name]⟩

/-- The route and all routes above it, as far as the base directory. -/
def upward (r : Route) : List Route := go r.parts.length r
where
  go : Nat → Route → List Route
    | 0, r => [r]
    | n + 1, r => if r.bare.isEmpty then [r] else r :: go n r.parent

/-- The parts that lead anywhere or need a directory to stay in. -/
def steps (r : Route) : List String := r.parts.filter (· != "")

/-- Whether the route ends with a slash, which only a directory may have behind it. -/
def endsWithSlash (r : Route) : Bool := r.parts.getLast?.all (· == "")

/-- The name of a file without its extension, and the extension. A name that only starts with a
dot has none. -/
def stemAndExtension (name : String) : String × Option String :=
  let (back, front) := name.toList.reverse.span (· != '.')
  match front with
  | [] | ['.'] => (name, none)
  | _ :: stem => (String.ofList stem.reverse, some (String.ofList back.reverse))

end Route

end ScriptStore.Disk
