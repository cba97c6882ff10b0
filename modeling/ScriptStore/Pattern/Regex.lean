import ScriptStore.Pattern.CharSet

/-!
# Regular expressions

A regular expression is run along a text with marks on its characters: a character is marked when
the text read so far can end with it. Reading one more character moves the marks to what may stand
next, so a run takes one pass over the text and never goes back. An expression knows whether there
are marks in it: one without any is passed over, and `join` keeps it shallow, so that a step visits
little more than the marks.
-/

namespace ScriptStore.Pattern

/-- A place between two characters, or at an end of the text. -/
structure Gap where
  before : Option Char
  after : Option Char

/-- What an expression can ask of a place. -/
inductive Place where
  | textStart
  | textEnd
  | lineStart
  | lineEnd
  /-- Words begin or end here, or, negated, they do not. -/
  | wordBoundary (negated : Bool)
  deriving DecidableEq

def Place.holds (g : Gap) : Place → Bool
  | .textStart => g.before.isNone
  | .textEnd => g.after.isNone
  | .lineStart => g.before.all (· == '\n')
  | .lineEnd => g.after.all (· == '\n')
  | .wordBoundary negated => (g.before.any Text.isWord != g.after.any Text.isWord) != negated

inductive Regex where
  | empty
  /-- One character of a set; `marked` if the text read so far can end with it. -/
  | one (set : CharSet) (marked : Bool := false)
  | place (p : Place)
  /-- One after the other; `marked` if there is a mark in one of them. -/
  | seq (a b : Regex) (marked : Bool)
  /-- One of the two; `marked` if there is a mark in one of them. -/
  | alt (a b : Regex) (marked : Bool)
  /-- Once or more often. -/
  | plus (r : Regex)

namespace Regex

/-- Whether there is a mark. -/
def marked : Regex → Bool
  | .empty | .place _ => false
  | .one _ marked | .seq _ _ marked | .alt _ _ marked => marked
  | .plus r => r.marked

def follow (a b : Regex) : Regex := .seq a b (a.marked || b.marked)

def either (a b : Regex) : Regex := .alt a b (a.marked || b.marked)

/-- Joins the first `2 ^ height` expressions, or as many as there are, and gives the others. -/
def joinFirst (op : Regex → Regex → Regex) :
    (height : Nat) → Regex → List Regex → Regex × List Regex
  | 0, r, rest => (r, rest)
  | height + 1, r, rest =>
    match joinFirst op height r rest with
    | (a, []) => (a, [])
    | (a, b :: rest) =>
      let (b, rest) := joinFirst op height b rest
      (op a b, rest)

/-- Joins expressions in their order, `none` of them to `unit`. -/
def join (op : Regex → Regex → Regex) (unit : Regex) : List Regex → Regex
  | [] => unit
  | r :: rest => (joinFirst op (rest.length.log2 + 1) r rest).1

def opt (r : Regex) : Regex := either .empty r

def star (r : Regex) : Regex := opt (.plus r)

/-- `n` times in a row, and then `after`. -/
def copies (r : Regex) : Nat → (after : Regex) → Regex
  | 0, after => after
  | n + 1, after => follow r (copies r n after)

/-- At most `n` times in a row. -/
def upTo (r : Regex) : Nat → Regex
  | 0 => .empty
  | n + 1 => opt (follow r (upTo r n))

/-- At least `min` and at most `max` times; without `max` any number of times. -/
def times (r : Regex) : (min : Nat) → (max : Option Nat) → Regex
  | 0, none => star r
  | 1, none => .plus r
  | min, none => copies r min (star r)
  | min, some max => copies r min (upTo r (max - min))

/-- Whether the expression can be done at a place: the text read so far ends it, or it may begin
there, which is `enter`, and nothing needs to be read. -/
def ends (g : Gap) : (enter : Bool) → Regex → Bool
  | enter, .empty => enter
  | _, .one _ marked => marked
  | enter, .place p => enter && p.holds g
  | enter, .seq a b marked => (enter || marked) && b.ends g (a.ends g enter)
  | enter, .alt a b marked => (enter || marked) && (a.ends g enter || b.ends g enter)
  | enter, .plus r => r.ends g enter

/-- Moves the marks over the character `c` after a place; `enter` if the expression may begin
there. -/
def advance (g : Gap) (c : Char) : (enter : Bool) → Regex → Regex
  | _, .empty => .empty
  | _, .place p => .place p
  | enter, .one set _ => .one set (enter && set.contains c)
  | enter, .seq a b marked =>
    if enter || marked then follow (a.advance g c enter) (b.advance g c (a.ends g enter))
    else .seq a b marked
  | enter, .alt a b marked =>
    if enter || marked then either (a.advance g c enter) (b.advance g c enter)
    else .alt a b marked
  | enter, .plus r => .plus (r.advance g c (enter || r.ends g false))

/-- Whether some part of the text matches, where `before` has been read already. -/
def foundAfter (before : Option Char) : Regex → List Char → Bool
  | r, [] => r.ends ⟨before, none⟩ true
  | r, c :: rest =>
    let g : Gap := ⟨before, some c⟩
    r.ends g true || foundAfter (some c) (r.advance g c true) rest

/-- Whether some part of the text matches. -/
def foundIn (r : Regex) (text : List Char) : Bool := foundAfter none r text

end Regex

end ScriptStore.Pattern
