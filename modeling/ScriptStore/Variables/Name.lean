import ScriptStore.Text.Digit
import ScriptStore.Text.Split

/-!
# Names of variables

A name is a path of segments with `::` between them. A last segment `*` stands for all elements of
a list. The elements of a list are ordered by their segments, with the numbers in them compared as
numbers: `9` before `10`, `item2` before `item10`.
-/

namespace ScriptStore.Variables

/-- The segments of a name. -/
def segmentsOf : List Char → List (List Char)
  | [] => [[]]
  | ':' :: ':' :: rest => [] :: segmentsOf rest
  | c :: rest =>
    match segmentsOf rest with
    | [] => [[c]]
    | s :: more => (c :: s) :: more

def segments (name : String) : List String := (segmentsOf name.toList).map String.ofList

/-- The part of a list name before `::*`. -/
def listFront? (name : String) : Option String :=
  (Text.dropBack? "::*".toList name.toList).map String.ofList

/-- Whether a name stands for all elements of a list. -/
def isList (name : String) : Bool := (listFront? name).isSome || name == "*"

/-! ## The order of segments -/

/-- A segment is compared piece by piece: a whole run of digits, or a single other character. -/
inductive Token where
  | run (digits : List Char)
  | char (c : Char)
  deriving DecidableEq

def tokens : List Char → List Token
  | [] => []
  | c :: rest =>
    if Text.isDigit c then
      match tokens rest with
      | .run ds :: more => .run (c :: ds) :: more
      | more => .run [c] :: more
    else .char c :: tokens rest

/-- The digits of a run without leading zeros; a run of zeros keeps one. -/
def significant (ds : List Char) : List Char :=
  match ds.dropWhile (· == '0') with
  | [] => ['0']
  | rest => rest

def compareChars : List Char → List Char → Ordering
  | [], [] => .eq
  | [], _ :: _ => .lt
  | _ :: _, [] => .gt
  | a :: as, b :: bs => (compare a.toNat b.toNat).then (compareChars as bs)

/-- Runs are compared as numbers. Of two spellings of a number the longer one comes first. -/
def compareRuns (a b : List Char) : Ordering :=
  let (x, y) := (significant a, significant b)
  ((compare x.length y.length).then (compareChars x y)).then
    (compare (b.length - y.length) (a.length - x.length))

/-- A digit and another character are compared by code point, so only the place of the other
character before or after the digits matters. -/
def Token.compare : Token → Token → Ordering
  | .run a, .run b => compareRuns a b
  | .char a, .char b => Ord.compare a.toNat b.toNat
  | .run _, .char c => if c < '0' then .gt else .lt
  | .char c, .run _ => if c < '0' then .lt else .gt

def compareTokens : List Token → List Token → Ordering
  | [], [] => .eq
  | [], _ :: _ => .lt
  | _ :: _, [] => .gt
  | a :: as, b :: bs => (a.compare b).then (compareTokens as bs)

def compareSegments (a b : String) : Ordering := compareTokens (tokens a.toList) (tokens b.toList)

/-- Segments in order, those that are equal as they came. -/
def sortSegments (l : List String) : List String :=
  l.mergeSort fun a b => compareSegments a b != .gt

end ScriptStore.Variables
