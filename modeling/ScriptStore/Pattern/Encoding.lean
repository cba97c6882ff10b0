import ScriptStore.Pattern.CharSet

/-!
# Encoded sets

The bytes of the characters of a set. The encoded characters are kept as sequences of byte ranges,
one range for each byte: a sequence stands for every choice of a byte from each of its ranges. The
sequences of a set are disjoint and in the order of the characters.
-/

namespace ScriptStore.Pattern

/-- The lowest and the highest byte. -/
abbrev ByteRange := UInt8 × UInt8

abbrev ByteRanges := List ByteRange

/-- Characters that are encoded in the same number of bytes. -/
structure Plane where
  low : Nat
  high : Nat
  /-- How many code points share all bytes but the last one, the last two, and so on. -/
  units : List Nat

def planes : List Plane :=
  [⟨0, 0x7F, []⟩, ⟨0x80, 0x7FF, [64]⟩, ⟨0x800, 0xD7FF, [64, 64 * 64]⟩,
   ⟨0xE000, 0xFFFF, [64, 64 * 64]⟩, ⟨0x10000, 0x10FFFF, [64, 64 * 64, 64 * 64 * 64]⟩]

/-- Splits a range so that each part lies in one unit or is made of whole units. -/
def alignTo (unit : Nat) (r : Nat × Nat) : List (Nat × Nat) :=
  let (low, high) := r
  if low / unit == high / unit then [r]
  else
    let first := (low + unit - 1) / unit * unit
    let last := (high + 1) / unit * unit
    [(low, first), (first, last), (last, high + 1)].filterMap fun (start, stop) =>
      if start < stop then some (start, stop - 1) else none

/-- The byte sequences of the characters of a range within a plane. -/
def Plane.sequences (p : Plane) (r : Nat × Nat) : List ByteRanges :=
  let low := max p.low r.1
  let high := min p.high r.2
  if high < low then []
  else
    (p.units.foldl (fun parts unit => parts.flatMap (alignTo unit)) [(low, high)]).map fun (l, h) =>
      (String.utf8EncodeChar (Char.ofNat l)).zip (String.utf8EncodeChar (Char.ofNat h))

def CharSet.sequences (s : CharSet) : List ByteRanges :=
  s.ranges.flatMap fun r => planes.flatMap (·.sequences r)

end ScriptStore.Pattern
