import ScriptStore.Text.Blank
import ScriptStore.Text.Split

/-!
# Lines of comma-separated fields

A field that contains a comma, a quote, a `#` or an ASCII blank is written between quotes, with
its quotes doubled. Reading trims the fields that are not quoted.
-/

namespace ScriptStore.Storage.Csv

/-! ## Writing -/

def needsQuotes (field : List Char) : Bool :=
  field.any fun c => c == ',' || c == '"' || c == '#' || Text.isAsciiBlank c

def doubleQuotes : List Char → List Char
  | [] => []
  | c :: rest => if c == '"' then '"' :: '"' :: doubleQuotes rest else c :: doubleQuotes rest

def writeField (field : List Char) : List Char :=
  if needsQuotes field then '"' :: doubleQuotes field ++ ['"'] else field

def writeFields : List (List Char) → List Char
  | [] => []
  | [field] => writeField field
  | field :: rest => writeField field ++ ',' :: ' ' :: writeFields rest

def write (fields : List String) : String :=
  String.ofList (writeFields (fields.map String.toList))

/-! ## Reading -/

/-- The text up to the quote that closes it, with doubled quotes read as one, and what follows. -/
def readQuoted : List Char → Option (List Char × List Char)
  | [] => none
  | '"' :: '"' :: rest => (readQuoted rest).map fun (text, rest) => ('"' :: text, rest)
  | c :: rest =>
    if c == '"' then some ([], rest)
    else (readQuoted rest).map fun (text, rest) => (c :: text, rest)

/-- The text up to the next comma, and what follows the comma, if there is one. A quote has no
place in it. -/
def readBare : List Char → Option (List Char × Option (List Char))
  | [] => some ([], none)
  | c :: rest =>
    if c == ',' then some ([], some rest)
    else if c == '"' then none
    else (readBare rest).map fun (text, rest) => (c :: text, rest)

/-- One field, and what follows the comma after it. -/
def readField (s : List Char) : Option (List Char × Option (List Char)) :=
  match s.dropWhile Text.isAsciiBlank with
  | '"' :: rest =>
    match readQuoted rest with
    | none => none
    | some (text, rest) =>
      match rest.dropWhile Text.isAsciiBlank with
      | [] => some (text, none)
      | ',' :: rest => some (text, some rest)
      | _ => none
  | _ => (readBare s).map fun (text, rest) => (Text.trim text, rest)

/-- All fields of a line. There are at most as many as characters, and one more. -/
def readFields : Nat → List Char → Option (List (List Char))
  | 0, _ => none
  | fuel + 1, s =>
    match readField s with
    | none => none
    | some (field, none) => some [field]
    | some (field, some rest) => (readFields fuel rest).map (field :: ·)

/-- The fields of a line, or nothing if a quote is out of place. -/
def split (line : String) : Option (List String) :=
  (readFields (line.length + 1) line.toList).map fun fields => fields.map String.ofList

end ScriptStore.Storage.Csv
