import ScriptStore.Number
import ScriptStore.Text.Case

/-!
# Timespans

Lengths of time in milliseconds. They are written as a clock time, `2:30` or `0:01:05.250`, or as
amounts with units, `1 hour and 30 seconds`, and shown as the largest unit that fits with what is
left over in smaller ones.
-/

namespace ScriptStore

structure Timespan where
  millis : Int64
  deriving DecidableEq

namespace Timespan

structure Unit where
  singular : String
  plural : String
  millis : Nat

def tick : Unit := ⟨"tick", "ticks", 50⟩

def second : Unit := ⟨"second", "seconds", 1000⟩

def minute : Unit := ⟨"minute", "minutes", 60000⟩

def hour : Unit := ⟨"hour", "hours", 3600000⟩

def day : Unit := ⟨"day", "days", 86400000⟩

def week : Unit := ⟨"week", "weeks", 604800000⟩

def units : List Unit := [tick, second, minute, hour, day, week]

def zero : Timespan := ⟨0⟩

/-- The nearest number of 64 bits. -/
def saturate (i : Int) : Int64 :=
  if i < Int64.minValue.toInt then Int64.minValue
  else if Int64.maxValue.toInt < i then Int64.maxValue
  else Int64.ofInt i

def ofTicks (n : Int64) : Timespan := ⟨saturate (n.toInt * tick.millis)⟩

/-- Whole ticks, cut off toward zero. -/
def ticks (t : Timespan) : Int64 := Int64.ofInt (t.millis.toInt.tdiv tick.millis)

/-! ## Clock times -/

def isNumeral (s : List Char) : Bool := !s.isEmpty && s.all Text.isDigit

/-- Adds a part of a clock time, in units of so many milliseconds, if each step fits 64 bits. -/
def addPart (n : Int64) (part : List Char × Nat) : Option Int64 :=
  (Number.toInt64? (Text.natOfDigits part.1)).bind fun amount =>
    (Number.toInt64? (amount.toInt * part.2)).bind fun millis =>
      Number.toInt64? (n.toInt + millis.toInt)

/-- The parts of a clock time between the colons, and what stands behind the point. -/
def cutClock (s : List Char) : List (List Char) × Option (List Char) :=
  match Text.splitOnce ['.'] s with
  | some (time, fraction) => (Text.splitWhere (· == ':') time, some fraction)
  | none => (Text.splitWhere (· == ':') s, none)

/-- Hours and two digits of minutes, perhaps two digits of seconds, perhaps up to four digits of
milliseconds. -/
def isClock (parts : List (List Char)) (fraction : Option (List Char)) : Bool :=
  2 ≤ parts.length && parts.length ≤ 3 && parts.all isNumeral &&
    (parts.drop 1).all (fun part => part.length == 2) &&
    fraction.all (fun digits => isNumeral digits && digits.length ≤ 4)

def clockUnits : List Nat := [hour.millis, minute.millis, second.millis]

def parseClock (s : List Char) : Option Timespan :=
  let (parts, fraction) := cutClock s
  if isClock parts fraction then
    ((parts.zip clockUnits ++ fraction.toList.map (·, 1)).foldlM addPart 0).map Timespan.mk
  else none

/-! ## Amounts with units -/

def amount? (word : List Char) : Option Float :=
  if word == ['a'] || word == ['a', 'n'] then some 1
  else (Number.unsignedDecimal word).map Float.ofBits

def unit? (word : List Char) : Option Unit :=
  units.find? fun u => word == u.singular.toList || word == u.plural.toList

/-- What the words read so far amount to. -/
structure Tally where
  millis : Float := 0
  /-- An amount that still waits for its unit. -/
  amount : Option Float := none
  units : Nat := 0
  /-- Whether the last word was `and`. -/
  dangling : Bool := false

def Tally.word (t : Tally) (word : List Char) : Option Tally :=
  if word == ['a', 'n', 'd'] then
    if t.amount.isSome || t.units == 0 || t.dangling then none else some { t with dangling := true }
  else
    match t.amount with
    | none => (amount? word).map fun n => { t with amount := some n }
    | some n =>
      (unit? word).map fun u =>
        { millis := t.millis + n * u.millis.toFloat, amount := none, units := t.units + 1,
          dangling := false }

def parseWords (s : List Char) : Option Timespan :=
  let words := (Text.splitWhere (fun c => Text.isBlank c || c == ',') s).filter fun w => !w.isEmpty
  match words.foldlM Tally.word {} with
  | none => none
  | some t =>
    if t.amount.isSome || t.units == 0 || t.dangling then none
    else some ⟨t.millis.round.toInt64⟩

/-- Reads a timespan. Letter case and white space around it do not matter. -/
def parse (input : String) : Option Timespan :=
  let s := (Text.lowercase (Text.trimmed input)).toList
  if s == ['0'] then some zero
  else match parseClock s with
    | some t => some t
    | none => parseWords s

/-! ## Showing -/

def quotient (n : Int) (d : Nat) : Double := ((Int64.ofInt n).toFloat / d.toFloat).toBits

def amountText (u : Unit) (amount : Double) : String :=
  let number := Number.format amount 2
  number ++ " " ++ (if number == "1" then u.singular else u.plural)

/-- The text of `n` milliseconds in the given units, largest first. What is left over counts only
if it shows in the next unit. -/
def textIn : List Unit → Int → String
  | [], _ => ""
  | [u], n => amountText u (quotient n u.millis)
  | u :: next :: rest, n =>
    if n < u.millis then textIn (next :: rest) n
    else
      let whole := n / u.millis
      let left := n - whole * u.millis
      if Number.format (quotient left next.millis) 2 != "0" then
        amountText u (quotient whole 1) ++ " and " ++ textIn (next :: rest) left
      else amountText u (quotient n u.millis)

def text (t : Timespan) : String := textIn [day, hour, minute, second] t.millis.toInt

/-! ## Arithmetic -/

def add (a b : Timespan) : Timespan := ⟨saturate (a.millis.toInt + b.millis.toInt)⟩

/-- The difference, but never less than nothing. -/
def sub (a b : Timespan) : Timespan :=
  ⟨saturate (max 0 (saturate (a.millis.toInt - b.millis.toInt)).toInt)⟩

def distance (a b : Timespan) : Timespan := ⟨saturate (a.millis.toInt - b.millis.toInt).natAbs⟩

end Timespan

end ScriptStore
