import ScriptStore.Decimal.Binary

/-!
# Decimals with fixed places

A floating-point number rounded to so many places after the point. It is the exact value of the
number that is rounded, a half to the even neighbour.
-/

namespace ScriptStore.Decimal

/-- The whole number nearest to `m * 2 ^ q * 10 ^ places`. -/
def roundedTo (m : Nat) (q : Int) (places : Nat) : Nat :=
  if 0 ≤ q then (m <<< q.toNat) * Nat.pow 10 places
  else roundDiv (m * Nat.pow 10 places) (1 <<< (-q).toNat)

/-- The digits of `n / 10 ^ places`, with at least one before the point. -/
def pointed (n places : Nat) : List Char :=
  let ds := Nat.toDigits 10 n
  let ds := List.replicate (places + 1 - ds.length) '0' ++ ds
  let whole := ds.take (ds.length - places)
  if places == 0 then whole else whole ++ '.' :: ds.drop (ds.length - places)

/-- A finite number with exactly `places` places. -/
def fixed (negative : Bool) (m : Nat) (q : Int) (places : Nat) : List Char :=
  let body := pointed (roundedTo m q places) places
  if negative then '-' :: body else body

end ScriptStore.Decimal
