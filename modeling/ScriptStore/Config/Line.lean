import ScriptStore.Text.Blank
import ScriptStore.Text.Digit

/-!
# Lines of a document

A line is a value and a comment. A `#` written twice stands for one in the value; the first `#`
that is not written twice starts the comment, which keeps it. `split` takes a line apart and
`escape` writes a value so that `split` gives it back.
-/

namespace ScriptStore.Config

namespace Line

/-- The value and the comment of a line. -/
def split : List Char → List Char × List Char
  | [] => ([], [])
  | '#' :: '#' :: rest =>
    let (value, comment) := split rest
    ('#' :: value, comment)
  | c :: rest =>
    if c == '#' then ([], c :: rest)
    else
      let (value, comment) := split rest
      (c :: value, comment)

/-- Writes every `#` twice. -/
def escape : List Char → List Char
  | [] => []
  | c :: rest => if c == '#' then '#' :: '#' :: escape rest else c :: escape rest

/-- The leading blanks of a text. -/
def indentation (text : List Char) : List Char := text.takeWhile Text.isBlank

/-- Whether a text starts with something other than a blank. -/
def startsWithContent : List Char → Bool
  | [] => false
  | c :: _ => !Text.isBlank c

/-- Drops copies of `unit` from the front, at most `fuel` of them. -/
def stripUnitsUpTo (unit : List Char) : Nat → List Char → List Char
  | 0, text => text
  | fuel + 1, text =>
    if unit.isPrefixOf text then stripUnitsUpTo unit fuel (text.drop unit.length) else text

/-- Drops as many copies of `unit` from the front as there are. The empty unit is not dropped. -/
def stripUnits (unit text : List Char) : List Char :=
  if unit.isEmpty then text else stripUnitsUpTo unit text.length text

/-- How a blank shows in the description of mixed white space. -/
def showBlank (c : Char) : List Char :=
  if c == '\t' then ['-', '>']
  else if c == ' ' then ['_']
  else if Text.isBlank c then ['?']
  else [c]

/-- Describes white space in words if it is all spaces or all tabs, else character by
character. -/
def describeBlanks (s : List Char) : String :=
  let plural := if s.length == 1 then "" else "s"
  if !s.isEmpty && s.all (· == ' ') then s!"{s.length} space{plural}"
  else if !s.isEmpty && s.all (· == '\t') then s!"{s.length} tab{plural}"
  else "'" ++ String.ofList (s.flatMap showBlank) ++ "' [-> = tab, _ = space, ? = other whitespace]"

end Line

end ScriptStore.Config
