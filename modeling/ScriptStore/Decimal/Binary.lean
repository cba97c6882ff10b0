/-!
# Binary floating point

Floating-point numbers as the exact numbers they are: a natural number times a power of two, read
off the bits, and the nearest such number to a fraction, rounded half to even. Everything printed
or read as a decimal goes through these two, so no step of it depends on machine arithmetic.
-/

namespace ScriptStore.Decimal

/-- The widths of a binary interchange format: stored fraction bits and exponent bits. -/
structure Format where
  fractionBits : Nat
  exponentBits : Nat

def Format.double : Format := ⟨52, 11⟩

def Format.single : Format := ⟨23, 8⟩

/-- The largest exponent field, kept for infinities and for what is not a number. -/
def Format.topField (f : Format) : Nat := (1 <<< f.exponentBits) - 1

/-- The exponent of the lowest bit of the smallest numbers. -/
def Format.minExponent (f : Format) : Int :=
  -((1 <<< (f.exponentBits - 1) : Nat) : Int) + 2 - f.fractionBits

/-- The value of a floating-point number: `mantissa * 2 ^ exponent` with a sign. -/
inductive Binary where
  | nan
  | infinite (negative : Bool)
  | finite (negative : Bool) (mantissa : Nat) (exponent : Int)
  deriving DecidableEq

/-- Reads the bits of a number of format `f`. -/
def Binary.ofBits (f : Format) (bits : Nat) : Binary :=
  let fraction := bits % (1 <<< f.fractionBits)
  let field := (bits >>> f.fractionBits) % (1 <<< f.exponentBits)
  let negative := bits.testBit (f.fractionBits + f.exponentBits)
  if field == f.topField then
    if fraction == 0 then .infinite negative else .nan
  else if field == 0 then .finite negative fraction f.minExponent
  else .finite negative ((1 <<< f.fractionBits) + fraction) (f.minExponent + field - 1)

/-- The quotient `num / den` rounded to the nearest natural number, a half to the even one. -/
def roundDiv (num den : Nat) : Nat :=
  let q := num / den
  let twice := 2 * (num % den)
  if twice < den then q
  else if den < twice then q + 1
  else if q % 2 == 0 then q else q + 1

/-- `num / den` times `2 ^ -e`, as a fraction. -/
def scaleDown (num den : Nat) (e : Int) : Nat × Nat :=
  if 0 ≤ e then (num, den <<< e.toNat) else (num <<< (-e).toNat, den)

/-- The bits of the positive number of format `f` nearest to `num / den`. Past the largest number
it is infinity. The exponent is the least for which the quotient fits the mantissa; if rounding
then fills the mantissa up, adding it to the exponent field carries over as it should. -/
def nearestBits (f : Format) (num den : Nat) : Nat :=
  if num == 0 then 0
  else
    let size : Int := (num.log2 : Int) - den.log2
    let guess := max (size - f.fractionBits - 1) f.minExponent
    let fits (e : Int) : Bool :=
      let (n, d) := scaleDown num den e
      n / d < 1 <<< (f.fractionBits + 1)
    let e := if fits guess then guess else if fits (guess + 1) then guess + 1 else guess + 2
    let (n, d) := scaleDown num den e
    let m := roundDiv n d
    let field := (e - f.minExponent).toNat
    let bits := (field <<< f.fractionBits) + m
    min bits (f.topField <<< f.fractionBits)

end ScriptStore.Decimal
