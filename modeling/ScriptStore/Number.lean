import ScriptStore.Decimal.Fixed
import ScriptStore.Text.Blank
import ScriptStore.Text.Digit
import ScriptStore.Text.Split

/-!
# Numbers

Whole numbers of 64 bits and decimals, as scripts write them. A decimal is kept as the bits of a
double, so that two decimals are the same exactly when their bits are; its arithmetic is that of
the machine.
-/

namespace ScriptStore

/-- The bits of a double. -/
abbrev Double := UInt64

namespace Number

/-- Decimal places shown in messages. -/
def messagePlaces : Nat := 2

/-- Decimal places kept in variable names. -/
def namePlaces : Nat := 8

def fitsInt64 (i : Int) : Bool := Int64.minValue.toInt ≤ i && i ≤ Int64.maxValue.toInt

/-- The number, if it fits 64 bits. -/
def toInt64? (i : Int) : Option Int64 := if fitsInt64 i then some (Int64.ofInt i) else none

def int64Text (n : Int64) : String := Text.intText n.toInt

/-- Takes the places after the point off that are zero, and the point if none are left. -/
def dropTrailingZeros (s : List Char) : List Char :=
  if s.contains '.' then
    match s.reverse.dropWhile (· == '0') with
    | '.' :: rest => rest.reverse
    | rest => rest.reverse
  else s

/-- A decimal with at most the given number of places. What rounds to zero has no sign. -/
def format (bits : Double) (places : Nat) : String :=
  match Decimal.Binary.ofBits .double bits.toNat with
  | .nan => "NaN"
  | .infinite negative => if negative then "-infinity" else "infinity"
  | .finite negative m q =>
    let s := dropTrailingZeros (Decimal.fixed negative m q places)
    if s == ['-', '0'] then "0" else String.ofList s

/-! ## Reading -/

/-- The text without a leading minus, and whether there was one. -/
def signed : List Char → Bool × List Char
  | '-' :: rest => (true, rest)
  | s => (false, s)

def parseInteger (input : String) : Option Int64 :=
  let (negative, digits) := signed input.toList
  if digits.isEmpty || !digits.all Text.isDigit then none
  else
    let n : Int := Text.natOfDigits digits
    toInt64? (if negative then -n else n)

/-- Digits with at most one point among them, as the nearest double. -/
def unsignedDecimal (s : List Char) : Option Double :=
  match Text.splitWhere (· == '.') s with
  | [whole] =>
    if whole.isEmpty || !whole.all Text.isDigit then none
    else some (Decimal.nearestBits .double (Text.natOfDigits whole) 1).toUInt64
  | [whole, places] =>
    let digits := whole ++ places
    if digits.isEmpty || !digits.all Text.isDigit then none
    else
      let bits := Decimal.nearestBits .double (Text.natOfDigits digits) (Nat.pow 10 places.length)
      some bits.toUInt64
  | _ => none

def negate (bits : Double) : Double := bits ^^^ (0x8000000000000000 : UInt64)

/-- A decimal; with a percent sign after it, the hundredth part. -/
def parseDecimal (input : String) : Option Double :=
  let s := input.toList
  let (digits, percent) := match Text.dropBack? ['%'] s with
    | some digits => (digits, true)
    | none => (s, false)
  let (negative, unsigned) := signed digits
  match unsignedDecimal unsigned with
  | none => none
  | some bits =>
    let bits := if negative then negate bits else bits
    some (if percent then (Float.ofBits bits / 100).toBits else bits)

/-! ## Arithmetic -/

def ofInt64 (n : Int64) : Double := n.toFloat.toBits

def addDouble (a b : Double) : Double := (Float.ofBits a + Float.ofBits b).toBits

def subDouble (a b : Double) : Double := (Float.ofBits a - Float.ofBits b).toBits

def distance (a b : Double) : Double := (Float.ofBits a - Float.ofBits b).abs.toBits

def isNan (bits : Double) : Bool := Decimal.Binary.ofBits .double bits.toNat == .nan

end Number

end ScriptStore
