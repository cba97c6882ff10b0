import ScriptStore.Decimal.Binary
import ScriptStore.Text.Digit

/-!
# Shortest decimals

The decimal with the fewest digits that reads back as a given floating-point number. All numbers
closer to `m * 2 ^ q` than to its neighbours read back as it, the midpoints themselves only if `m`
is even. For one digit, two digits and so on, the two points of the decimal grid around the number
are tried; the first grid with a point inside the interval wins, and of two such points the nearer,
of equally near ones the upper.
-/

namespace ScriptStore.Decimal

/-- A positive number `digits * 10 ^ exponent`. -/
structure Scaled where
  digits : Nat
  exponent : Int

/-- The reals that round to a number, as integers over the common denominator `4 * 2 ^ -q`. -/
structure Interval where
  low : Nat
  value : Nat
  high : Nat
  /-- Whether the ends belong to it. -/
  closed : Bool

/-- The interval of the mantissa `m`. Below a power of two the numbers lie twice as dense. -/
def Interval.around (f : Format) (m : Nat) (q : Int) : Interval :=
  let narrow := m == 1 <<< f.fractionBits && f.minExponent < q
  ⟨4 * m - (if narrow then 1 else 2), 4 * m, 4 * m + 2, m % 2 == 0⟩

def Interval.contains (i : Interval) (num den : Nat) : Bool :=
  if i.closed then i.low * den ≤ num && num ≤ i.high * den
  else i.low * den < num && num < i.high * den

/-- The point of the grid of spacing `10 ^ k` that stands for the interval, if one does. The
interval is scaled by `2 ^ (q - 2)`. -/
def gridPoint? (i : Interval) (q k : Int) : Option Nat :=
  -- A grid point `g * 10 ^ k` lies at `g * num / den` on the scale of the interval.
  let num := (if 0 ≤ k then Nat.pow 10 k.toNat else 1) <<< (2 - q).toNat
  let den := (if k < 0 then Nat.pow 10 (-k).toNat else 1) <<< (q - 2).toNat
  let below := i.value * den / num
  let above := below + 1
  let lower := below != 0 && i.contains (below * num) den
  let upper := i.contains (above * num) den
  if lower && upper then
    if i.value * den - below * num < above * num - i.value * den then some below else some above
  else if lower then some below
  else if upper then some above
  else none

/-- Tries the grids from spacing `10 ^ k` on, `fuel` of them, each ten times finer. -/
def firstPoint (i : Interval) (q : Int) : Nat → Int → Scaled
  | 0, k => ⟨i.value, k⟩
  | fuel + 1, k =>
    match gridPoint? i q k with
    | some g => ⟨g, k⟩
    | none => firstPoint i q fuel (k - 1)

/-- The exponent of ten just above `m * 2 ^ q`, or one more. -/
def startExponent (m : Nat) (q : Int) : Int :=
  -- `log10 2` lies between 0.30102 and 0.30103.
  let bits := (m.log2 : Int) + 1 + q
  (bits * 30103).fdiv 100000 + 1

/-- The shortest decimal of the positive number `m * 2 ^ q`. Between the first grid tried and one
of seventeen digits there are fewer than twenty. -/
def shortest (f : Format) (m : Nat) (q : Int) : Scaled :=
  firstPoint (Interval.around f m q) q 20 (startExponent m q)

/-! ## Writing -/

/-- Drops the zeros at the end of a list of digits and tells how many they were. -/
def dropZeros (ds : List Char) : List Char × Nat :=
  let kept := (ds.reverse.dropWhile (· == '0')).reverse
  (kept, ds.length - kept.length)

/-- A decimal in scientific notation: its digits, and the exponent of the first. -/
def Scaled.scientific (s : Scaled) : List Char × Int :=
  let ds := Nat.toDigits 10 s.digits
  ((dropZeros ds).1, s.exponent + ds.length - 1)

/-- How decimals are written: positionally while the exponent of the first digit lies between
`low` and `high`, with at least one digit after the point, else with an exponent. -/
structure Layout where
  low : Int
  high : Int

/-- Numbers from a ten-thousandth on and below ten to the sixteenth stand without exponent. -/
def Layout.standard : Layout := ⟨-4, 15⟩

def Layout.write (n : Layout) (ds : List Char) (e : Int) : List Char :=
  if n.low ≤ e && e ≤ n.high then
    if e < 0 then '0' :: '.' :: List.replicate (-e - 1).toNat '0' ++ ds
    else
      let whole := e.toNat + 1
      let front := ds.take whole ++ List.replicate (whole - ds.length) '0'
      let back := ds.drop whole
      front ++ '.' :: (if back.isEmpty then ['0'] else back)
  else
    let front := ds.take 1
    let back := ds.drop 1
    let point := if back.isEmpty then [] else '.' :: back
    front ++ point ++ 'e' :: (Text.intText e).toList

/-- The text of a floating-point number by its shortest decimal. -/
def shortestText (f : Format) (bits : Nat) : String :=
  match Binary.ofBits f bits with
  | .nan => "NaN"
  | .infinite negative => if negative then "-inf" else "inf"
  | .finite negative m q =>
    let body :=
      if m == 0 then ['0', '.', '0']
      else
        let (ds, e) := (shortest f m q).scientific
        Layout.standard.write ds e
    String.ofList (if negative then '-' :: body else body)

end ScriptStore.Decimal
