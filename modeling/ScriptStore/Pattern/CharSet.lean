import ScriptStore.Text.Case
import ScriptStore.Text.Digit
import ScriptStore.Text.Word

/-!
# Sets of characters

What a pattern says about a single character: the ranges of code points that it allows. They are in
order and no two of them touch, so sets with the same characters are equal.
-/

namespace ScriptStore.Pattern

structure CharSet where
  /-- The lower and the upper bound of every range, both included. -/
  ranges : List (Nat × Nat)
  deriving DecidableEq

namespace CharSet

def contains (s : CharSet) (c : Char) : Bool := Text.inRanges s.ranges c.toNat

/-- Joins the first range with those that touch it. The ranges are in the order of their lower
bounds. -/
def joinTouching : Nat × Nat → List (Nat × Nat) → List (Nat × Nat)
  | r, [] => [r]
  | (low, high), (l, h) :: rest =>
    if l ≤ high + 1 then joinTouching (low, max high h) rest
    else (low, high) :: joinTouching (l, h) rest

/-- The set of the characters in some of the ranges, which may be in any order. -/
def ofRanges (ranges : List (Nat × Nat)) : CharSet :=
  match ranges.mergeSort fun a b => a.1 ≤ b.1 with
  | [] => ⟨[]⟩
  | r :: rest => ⟨joinTouching r rest⟩

def none : CharSet := ⟨[]⟩

def range (low high : Char) : CharSet := ⟨[(low.toNat, high.toNat)]⟩

def single (c : Char) : CharSet := range c c

def ofChars (chars : List Char) : CharSet := ofRanges (chars.map fun c => (c.toNat, c.toNat))

def digit : CharSet := ⟨Text.digitRanges⟩

def blank : CharSet := ⟨Text.blankRanges⟩

def word : CharSet := ⟨Text.wordRanges⟩

/-! ## Operations -/

/-- The code point of the character after the one at `n`. -/
def next (n : Nat) : Nat := if n == 0xD7FF then 0xE000 else n + 1

/-- The code point of the character before the one at `n`. -/
def previous (n : Nat) : Nat := if n == 0xE000 then 0xD7FF else n - 1

/-- The ranges between ranges, from `low` on. -/
def gaps (low : Nat) : List (Nat × Nat) → List (Nat × Nat)
  | [] => if low ≤ 0x10FFFF then [(low, 0x10FFFF)] else []
  | (l, h) :: rest =>
    if low < l then (low, previous l) :: gaps (next h) rest else gaps (next h) rest

def complement (s : CharSet) : CharSet := ⟨gaps 0 s.ranges⟩

def unionOf (sets : List CharSet) : CharSet := ofRanges (sets.flatMap (·.ranges))

def union (a b : CharSet) : CharSet := unionOf [a, b]

def inter (a b : CharSet) : CharSet := (a.complement.union b.complement).complement

def difference (a b : CharSet) : CharSet := a.inter b.complement

def symmetricDifference (a b : CharSet) : CharSet := (a.difference b).union (b.difference a)

def any : CharSet := none.complement

/-- Every character but the end of a line. -/
def inLine : CharSet := (single '\n').complement

def complementIf (negated : Bool) (s : CharSet) : CharSet := if negated then s.complement else s

/-! ## Case -/

/-- What the characters of a set fold to. -/
def images (s : CharSet) : List (Nat × Nat) :=
  s.ranges.foldl (fun found (low, high) => Text.foldRuns.foldl (fun found run =>
    if high < run.first || run.last < low then found
    else
      ((run.within low high).map fun (l, h) => ((l + run.shift).toNat, (h + run.shift).toNat)) ++
        found) found) []

/-- What folds to the characters of a set. -/
def sources (s : CharSet) : List (Nat × Nat) :=
  s.ranges.foldl (fun found (low, high) => Text.foldRuns.foldl (fun found run =>
    if (high : Int) < run.first + run.shift || run.last + run.shift < (low : Int) then found
    else run.within (low - run.shift).toNat (high - run.shift).toNat ++ found) found) []

/-- The characters that differ from another one in case only. -/
def cased : CharSet :=
  let folding := any.sources
  ofRanges (folding ++ (ofRanges folding).images)

/-- Every character that differs from one of the set in case only, and the set itself. -/
def folded (s : CharSet) : CharSet :=
  let letters := s.inter cased
  let small := ofRanges (letters.ranges ++ letters.images)
  ofRanges (s.ranges ++ small.ranges ++ small.sources)

/-- The set up to case, if case is ignored. -/
def foldedIf (ignoreCase : Bool) (s : CharSet) : CharSet := if ignoreCase then s.folded else s

/-- A character, up to case if case is ignored. -/
def ofChar (ignoreCase : Bool) (c : Char) : CharSet :=
  if ignoreCase then ofChars (Text.foldClass c) else single c

end CharSet

end ScriptStore.Pattern
