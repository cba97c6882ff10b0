import ScriptStore.Config.Error
import ScriptStore.Text.Utf8

/-!
# Reading lines

A source is cut at line feeds; a carriage return in front of one goes with it. A byte order mark
is dropped from the first lines up to and including the first that has content. The reader hands
out one line at a time and takes the last one back once.
-/

namespace ScriptStore.Config

open Text (Bytes)

/-- A cut of the source: the bytes of a line, and whether a line feed ended it. -/
def cutLine : Bytes → Bytes × Bool × Bytes
  | [] => ([], false, [])
  | b :: rest =>
    if b == 10 then ([], true, rest)
    else
      let (line, ended, rest) := cutLine rest
      (b :: line, ended, rest)

/-- The characters of a line without the carriage return before its line feed. -/
def dropReturn (ended : Bool) (line : List Char) : List Char :=
  if ended && line.getLast? == some '\r' then line.dropLast else line

def byteOrderMark : Char := Char.ofNat 0xFEFF

/-- Drops a byte order mark from the front. -/
def dropMark : List Char → List Char
  | [] => []
  | c :: rest => if c == byteOrderMark then rest else c :: rest

structure LineReader where
  rest : Bytes
  line : Option String := none
  number : Nat := 0
  /-- Whether the last line has been given back. -/
  held : Bool := false
  /-- Whether a line with content has been read. -/
  seenContent : Bool := false

namespace LineReader

def ofBytes (source : Bytes) : LineReader := { rest := source }

/-- The next line, or the last one again if it has been given back. -/
def read (r : LineReader) : Except Error (Option String) × LineReader :=
  if r.held then (.ok r.line, { r with held := false })
  else if r.rest.isEmpty then (.ok none, { r with line := none })
  else
    let (bytes, ended, rest) := cutLine r.rest
    match Text.Utf8.decode bytes with
    | .error _ => (.error (.file .invalidText), { r with rest := rest })
    | .ok chars =>
      let chars := dropReturn ended chars
      let chars := if r.seenContent then chars else dropMark chars
      let line := String.ofList chars
      (.ok (some line),
        { r with
          rest := rest
          line := some line
          number := r.number + 1
          seenContent := r.seenContent || !chars.isEmpty })

/-- Gives the last line back. -/
def reset (r : LineReader) : Except Error Unit × LineReader :=
  if r.held then (.error .doubleReset, r) else (.ok (), { r with held := true })

end LineReader

/-- Reads the remaining lines, at most `fuel` of them, with their numbers. -/
def readLines : Nat → LineReader → Except Error (List (Nat × String))
  | 0, _ => .ok []
  | fuel + 1, r =>
    match r.read with
    | (.error e, _) => .error e
    | (.ok none, _) => .ok []
    | (.ok (some line), r) =>
      match readLines fuel r with
      | .error e => .error e
      | .ok lines => .ok ((r.number, line) :: lines)

/-- The numbered lines of a source. A source has no more lines than bytes. -/
def sourceLines (source : Bytes) : Except Error (List (Nat × String)) :=
  readLines source.length (LineReader.ofBytes source)

end ScriptStore.Config
