import ScriptStore.Pattern.Regex

/-!
# Expressions

A pattern as it is written, in a simplified form: texts are joined as far as they go, a choice
between characters is a set, what can be left out is left out. `Expr.regex` is the regular
expression that is run; what an expression says about its own size is in `Pattern.Size`.

An expression is built with `oneOf`, `repeated`, `sequence` and `choice`, which simplify.
-/

namespace ScriptStore.Pattern

inductive Expr where
  | empty
  /-- One or more characters in a row. -/
  | text (chars : List Char)
  | set (s : CharSet)
  | place (p : Place)
  /-- A group whose match is kept. -/
  | group (e : Expr)
  /-- At least `min` and at most `max` times; without `max` any number of times. -/
  | times (e : Expr) (min : Nat) (max : Option Nat)
  /-- One after the other. -/
  | seq (parts : List Expr)
  /-- One of several. -/
  | alt (choices : List Expr)

namespace Expr

mutual

/-- Whether two expressions are the same. Two groups never are, since each keeps its own match. -/
def alike : Expr → Expr → Bool
  | .empty, .empty => true
  | .text a, .text b => a == b
  | .set a, .set b => a == b
  | .place a, .place b => a == b
  | .times a min max, .times b min' max' => min == min' && max == max' && a.alike b
  | .seq as, .seq bs => alikeAll as bs
  | .alt as, .alt bs => alikeAll as bs
  | _, _ => false

def alikeAll : List Expr → List Expr → Bool
  | [], [] => true
  | a :: as, b :: bs => a.alike b && alikeAll as bs
  | _, _ => false

end

mutual

/-- Whether nothing but the empty text can match. -/
def isBlank : Expr → Bool
  | .empty | .place _ => true
  | .text _ | .set _ => false
  | .group e => e.isBlank
  | .times e _ _ => e.isBlank
  | .seq es | .alt es => allBlank es

def allBlank : List Expr → Bool
  | [] => true
  | e :: es => e.isBlank && allBlank es

end

mutual

/-- A number of characters that every match has at least; `none` if there is an empty set in the
expression. -/
def minLength : Expr → Option Nat
  | .empty | .place _ => some 0
  | .text chars => some chars.length
  | .set s => if s.ranges.isEmpty then none else some 1
  | .group e => e.minLength
  | .times e min _ => e.minLength.map (min * ·)
  | .seq es => totalLength es
  | .alt es => leastLength es

def totalLength : List Expr → Option Nat
  | [] => some 0
  | e :: es =>
    match e.minLength, totalLength es with
    | some m, some n => some (m + n)
    | _, _ => none

def leastLength : List Expr → Option Nat
  | [] => none
  | [e] => e.minLength
  | e :: es =>
    match e.minLength, leastLength es with
    | some m, some n => some (min m n)
    | _, _ => none

end

/-! ## Building -/

/-- One character of a set. -/
def oneOf (s : CharSet) : Expr :=
  match s.ranges with
  | [(low, high)] => if low == high then .text [Char.ofNat low] else .set s
  | _ => .set s

/-- An expression several times. One for the empty text only matches once if at all. -/
def repeated (e : Expr) (min : Nat) (max : Option Nat) : Expr :=
  let (min, max) := if e.isBlank then (Nat.min min 1, some (Nat.min (max.getD 1) 1)) else (min, max)
  if max == some 0 then .empty
  else if min == 1 && max == some 1 then e
  else .times e min max

/-- Puts a part in front of others. -/
def before : Expr → List Expr → List Expr
  | .text a, .text b :: rest => .text (a ++ b) :: rest
  | e, rest => e :: rest

/-- Expressions one after the other. -/
def sequence (es : List Expr) : Expr :=
  let parts := es.foldr (fun e rest => match e with
    | .empty => rest
    | .seq parts => parts.foldr before rest
    | e => before e rest) []
  match parts with
  | [] => .empty
  | [e] => e
  | parts => .seq parts

/-- The only character of a text. -/
def char? : Expr → Option Char
  | .text [c] => some c
  | _ => none

def set? : Expr → Option CharSet
  | .set s => some s
  | _ => none

def parts? : Expr → Option (List Expr)
  | .seq parts => some parts
  | _ => none

/-- One of several expressions, as a set if all are characters, or if all are sets. -/
def oneOfAll (es : List Expr) : Expr :=
  let choices := es.flatMap fun e => match e with
    | .alt choices => choices
    | e => [e]
  match choices with
  | [] => .set .none
  | [e] => e
  | choices =>
    match choices.mapM char?, choices.mapM set? with
    | some chars, _ => oneOf (.ofChars chars)
    | _, some sets => oneOf (.unionOf sets)
    | none, none => .alt choices

/-- How many parts two sequences have in common at the front. -/
def commonFront : List Expr → List Expr → Nat
  | a :: as, b :: bs => if a.alike b then commonFront as bs + 1 else 0
  | _, _ => 0

/-- One of several expressions. What all of them begin with stands in front of the choice. -/
def choice (es : List Expr) : Expr :=
  match oneOfAll es with
  | .alt choices =>
    match choices.mapM parts? with
    | some (first :: others) =>
      match others.foldl (fun n other => commonFront (first.take n) other) first.length with
      | 0 => .alt choices
      | n => sequence (first.take n ++ [oneOfAll ((first :: others).map fun parts =>
          sequence (parts.drop n))])
    | _ => .alt choices
  | e => e

/-! ## Running -/

mutual

def regex : Expr → Regex
  | .empty => .empty
  | .text chars => .join .follow .empty (chars.map fun c => .one (.single c))
  | .set s => .one s
  | .place p => .place p
  | .group e => e.regex
  | .times e min max => e.regex.times min max
  | .seq es => .join .follow .empty (regexes es)
  | .alt es => .join .either (.one .none) (regexes es)

def regexes : List Expr → List Regex
  | [] => []
  | e :: es => e.regex :: regexes es

end

end Expr

end ScriptStore.Pattern
