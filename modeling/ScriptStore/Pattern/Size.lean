import ScriptStore.Pattern.Encoding
import ScriptStore.Pattern.Expr
import ScriptStore.Text.Utf8

/-!
# The size of patterns

Patterns are limited in size. The size of an expression is the memory of two automata over encoded
text, one for each direction of reading. An automaton has the usual shape: a state for every byte,
a choice between two ways for every repetition, and so on. Each of the two has to fit.

Sizes are taken from the room that is left, so nothing is measured any more once there is none.
-/

namespace ScriptStore.Pattern

open Text (Bytes)

/-- The most memory that an automaton may take, in bytes. -/
def maxSize : Nat := 10 * 1024 * 1024

/-- The memory of a state, in bytes. -/
def stateSize : Nat := 32

/-- What a state takes beyond that for every range of bytes, if it tells several apart. -/
def branchSize : Nat := 8

/-- What a state takes beyond that for every state that it chooses from. -/
def choiceSize : Nat := 4

inductive Direction where
  | forward
  | backward

/-! ## Sets -/

/-- The ways on from a state: the bytes, and the number of the state after them; 0 is the end. -/
abbrev Branches := List (ByteRange × Nat)

/-- The number of the state with these ways on, among those that there are or as a new one. -/
def stateFor (branches : Branches) (states : Array Branches) : Nat × Array Branches :=
  match states.idxOf? branches with
  | some i => (i + 1, states)
  | none => (states.size + 1, states.push branches)

/-- The state from which the sequences, of `length` ranges at most, lead to the end. -/
def addStates : (length : Nat) → List ByteRanges → Array Branches → Nat × Array Branches
  | 0, _, states => (0, states)
  | length + 1, sequences, states =>
    if sequences.head?.all (·.isEmpty) then (0, states)
    else
      let (branches, states) := (sequences.splitBy fun a b => a.head? == b.head?).foldl
        (fun (branches, states) alike => match alike with
          | (r :: _) :: _ =>
            let (n, states) := addStates length (alike.map (·.tail)) states
            ((r, n) :: branches, states)
          | _ => (branches, states))
        ([], states)
      stateFor branches.reverse states

/-- How many ranges two sequences have in common at the front. -/
def commonRanges : ByteRanges → ByteRanges → Nat
  | a :: as, b :: bs => if a == b then commonRanges as bs + 1 else 0
  | _, _ => 0

/-- How many different beginnings sequences have, where those that begin alike are neighbours. -/
def beginnings : (before : ByteRanges) → List ByteRanges → Nat
  | _, [] => 0
  | before, s :: rest => s.length - commonRanges before s + beginnings s rest

/-- Read forward, a set takes the fewest states that tell its characters from others. Read backward,
a state stands for each beginning of an encoded character. Characters of a single byte need only one
state that tells them apart. -/
def CharSet.size (d : Direction) (s : CharSet) : Nat :=
  if s.ranges.all (·.2 ≤ 0x7F) then 2 * stateSize + branchSize * s.ranges.length
  else
    let sequences := s.sequences
    match d with
    | .forward =>
      (addStates 4 sequences #[]).2.foldl
        (fun n branches => n + stateSize + branchSize * branches.length) stateSize
    | .backward =>
      stateSize * (2 + beginnings [] sequences) + choiceSize * sequences.length

/-! ## Choices between texts -/

/-- The words that are left after one of several beginnings has been read, in groups: after each
word that ends there a new group begins. -/
def wordGroups (words : List Bytes) : List (List Bytes) :=
  (words.splitBy fun a b => !a.isEmpty && !b.isEmpty).filter fun g => g.any (!·.isEmpty)

/-- The words by their first byte, without it. -/
def byFirst (words : List Bytes) : List (List Bytes) :=
  (words.map (·.head?)).eraseDups.map fun b =>
    (words.filter fun w => w.head? == b).map (·.tail)

/-- The memory for the next byte of several words. -/
def wordsSize (words : List Bytes) : Nat :=
  let later := words.dropWhile (·.isEmpty)
  let ends := (if words.head?.any (·.isEmpty) then 1 else 0) + later.countP (·.isEmpty)
  let groups := wordGroups words
  let tellApart := groups.map fun g => match (byFirst g).length with
    | 1 => stateSize
    | n => stateSize + branchSize * n
  stateSize + choiceSize * (ends + groups.length) + tellApart.foldl (· + ·) 0

/-- The memory for the bytes of words that begin in the same way, all lists of them side by side. -/
def trieSize : (length : Nat) → List (List Bytes) → (sum : Nat) → Nat
  | 0, _, sum => sum
  | length + 1, level, sum =>
    match level.filter fun words => words.any (!·.isEmpty) with
    | [] => sum
    | level =>
      trieSize length (level.flatMap fun words => (wordGroups words).flatMap byFirst)
        (level.foldl (fun n words => n + wordsSize words) sum)

/-- A choice between texts takes states for what they have in common only once. -/
def textsSize (d : Direction) (texts : List (List Char)) : Nat :=
  let words := texts.map fun t => match d with
    | .forward => Text.Utf8.encode t
    | .backward => (Text.Utf8.encode t).reverse
  trieSize (words.foldl (fun n w => max n w.length) 0) [words] stateSize

/-! ## Expressions -/

/-- What is left of `room` after `n`, if that is there. -/
def takeRoom (n room : Nat) : Option Nat := if n ≤ room then some (room - n) else none

/-- How many copies of an expression a repetition has, and the memory beside them. Its choices are
whether to go on or to leave. -/
def repetitionSize (consumes : Bool) (min : Nat) (max : Option Nat) : Nat × Nat :=
  let choice := stateSize + 2 * choiceSize
  match min, max with
  | 0, none => (1, if consumes then choice else 2 * choice + stateSize)
  | min, none => (min, choice)
  | 0, some 1 => (1, choice + stateSize)
  | 0, some max => (max, 2 * stateSize + max * choice)
  | min, some max => (max, if min == max then 0 else stateSize + (max - min) * choice)

namespace Expr

def text? : Expr → Option (List Char)
  | .text chars => some chars
  | _ => none

mutual

/-- What is left of the room after an expression. -/
def occupy (d : Direction) : Expr → (room : Nat) → Option Nat
  | .empty, room | .place _, room => takeRoom stateSize room
  | .text chars, room => takeRoom (stateSize * (Text.Utf8.encode chars).length) room
  | .set s, room => takeRoom (s.size d) room
  | .group e, room =>
    match d with
    | .forward => (takeRoom (2 * stateSize) room).bind (e.occupy d)
    | .backward => e.occupy d room
  | .times e min max, room =>
    match e.occupy d room with
    | none => none
    | some left =>
      let (copies, beside) := repetitionSize (e.minLength.any (0 < ·)) min max
      takeRoom (copies * (room - left) + beside) room
  | .seq es, room => occupyAll d es room
  | .alt es, room =>
    match es.mapM text? with
    | some texts => takeRoom (textsSize d texts) room
    | none => (takeRoom (2 * stateSize + choiceSize * es.length) room).bind (occupyAll d es)

def occupyAll (d : Direction) : List Expr → (room : Nat) → Option Nat
  | [], room => some room
  | e :: es, room =>
    match e.occupy d room with
    | none => none
    | some room => occupyAll d es room

end

/-- Whether both automata fit. Beside the expression they have a state to begin with and one to end
with, and the one that reads forward keeps the match as a group. -/
def fits (e : Expr) : Bool :=
  ((Expr.group e).occupy .forward (maxSize - 2 * stateSize)).isSome &&
    (e.occupy .backward (maxSize - 2 * stateSize)).isSome

end Expr

end ScriptStore.Pattern
