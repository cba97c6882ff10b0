import ScriptStore.Text.Utf8

/-!
# Hexadecimal text

Two digits a byte, high half first. Writing takes the upper-case digits, reading takes both.
-/

namespace ScriptStore.Text.Hex

def upperDigit (n : Nat) : Char := if n < 10 then Char.ofNat (0x30 + n) else Char.ofNat (0x37 + n)

def lowerDigit (n : Nat) : Char := if n < 10 then Char.ofNat (0x30 + n) else Char.ofNat (0x57 + n)

def digit? (c : Char) : Option Nat :=
  if '0' ≤ c && c ≤ '9' then some (c.toNat - 0x30)
  else if 'A' ≤ c && c ≤ 'F' then some (c.toNat - 0x37)
  else if 'a' ≤ c && c ≤ 'f' then some (c.toNat - 0x57)
  else none

def encode (bytes : Bytes) : String :=
  String.ofList (bytes.flatMap fun b => [upperDigit (b.toNat / 16), upperDigit (b.toNat % 16)])

/-- The lower-case form. -/
def encodeLower (bytes : Bytes) : String :=
  String.ofList (bytes.flatMap fun b => [lowerDigit (b.toNat / 16), lowerDigit (b.toNat % 16)])

def decodeDigits? : List Char → Option Bytes
  | [] => some []
  | [_] => none
  | hi :: lo :: rest => do
    let h ← digit? hi
    let l ← digit? lo
    let bytes ← decodeDigits? rest
    return UInt8.ofNat (16 * h + l) :: bytes

def decode? (s : String) : Option Bytes := decodeDigits? s.toList

/-- At least `width` lower-case digits of a number, padded with zeros. -/
def padded (width n : Nat) : String :=
  let ds := Nat.toDigits 16 n
  String.ofList (List.replicate (width - ds.length) '0' ++ ds)

end ScriptStore.Text.Hex
