import ScriptStore.Codec.Error
import ScriptStore.Codec.Tag

/-!
# Writing value streams

A stream is the magic number, a version of two bytes, and one tagged value, all numbers big-endian.
Ids of types, constants and fields are short: at most 254 bytes, their length in one byte. One of
more than four bytes is written out the first time only and later referred to by its place among
such ids, in four bytes up to version 1 and as a length from version 2 on. Lengths take two bytes
with the high bit set, or four; counts of fields one byte with the high bit set, or two.
-/

namespace ScriptStore.Codec

open Text (Bytes)

def magic : Nat := 0x59676700

/-- The version that is written. Version 1 can be read too. -/
def currentVersion : Nat := 2

/-- The lowest `width` bytes of a number, the highest first. -/
def bigEndian : (width : Nat) → Nat → Bytes
  | 0, _ => []
  | w + 1, n => UInt8.ofNat (n / Nat.pow 256 w) :: bigEndian w n

def header (version : Nat) : Bytes := bigEndian 4 magic ++ bigEndian 2 version

def countBytes (n : Nat) : Bytes :=
  if n ≤ 0x7F then [UInt8.ofNat (0x80 + n)] else bigEndian 2 n

def lengthBytes (n : Nat) : Except Error Bytes :=
  if n ≤ 0x7FFF then .ok (bigEndian 2 (0x8000 + n))
  else if n < 0x80000000 then .ok (bigEndian 4 n)
  else .error (.tooLarge n)

def Scalar.bytes : Scalar → Bytes
  | .byte v => bigEndian 1 v.toUInt8.toNat
  | .short v => bigEndian 2 v.toUInt16.toNat
  | .int v => bigEndian 4 v.toUInt32.toNat
  | .long v => bigEndian 8 v.toUInt64.toNat
  | .float bits => bigEndian 4 bits.toNat
  | .double bits => bigEndian 8 bits.toNat
  | .char unit => bigEndian 2 unit.toNat
  | .boolean v => [if v then 1 else 0]

/-- Ids from this many bytes on are written once and then referred to. -/
def sharedIdSize : Nat := 5

/-- The length byte of an id is below the reference tag. -/
def maxIdSize : Nat := 254

/-- Writing passes on the ids that can be referred to, in the order of their first use. -/
abbrev Write := StateT (List String) (Except Error)

def writeLength (n : Nat) : Write Bytes := fun ids => (lengthBytes n).map (·, ids)

def idReference (version index : Nat) : Except Error Bytes :=
  if version ≤ 1 then .ok (bigEndian 4 index) else lengthBytes index

def writeId (version : Nat) (id : String) : Write Bytes := fun ids =>
  match ids.idxOf? id with
  | some index => (idReference version index).map fun b => (Tag.reference.byte :: b, ids)
  | none =>
    let bytes := Text.toBytes id
    if maxIdSize < bytes.length then .error (.idTooLong id)
    else
      .ok (UInt8.ofNat bytes.length :: bytes,
        if sharedIdSize ≤ bytes.length then ids ++ [id] else ids)

/-- A component: one array tag for every dimension, then the innermost element. -/
def Component.write (version : Nat) : Component → Write Bytes
  | .scalar t => pure [(Tag.scalar t).byte]
  | .boxed t => pure [(Tag.boxed t).byte]
  | .string => pure [Tag.string.byte]
  | .typeLiteral => pure [Tag.typeLiteral.byte]
  | .enum id => return Tag.enum.byte :: (← writeId version id)
  | .object id => return Tag.object.byte :: (← writeId version id)
  | .array c => return Tag.array.byte :: (← c.write version)

/-- The elements of an array of scalars, without tags. -/
def writeScalars (t : ScalarType) : List Encoded → Except Error Bytes
  | [] => .ok []
  | .boxed s :: rest =>
    if s.type = t then (writeScalars t rest).map (s.bytes ++ ·) else .error .componentMismatch
  | _ :: _ => .error .componentMismatch

/-- The most fields that an object may have. -/
def maxFields : Nat := 0x7FFF

mutual

def Encoded.write (version : Nat) : Encoded → Write Bytes
  | .null => pure [Tag.null.byte]
  | .boxed s => pure ((Tag.boxed s.type).byte :: s.bytes)
  | .string s => do
    let bytes := Text.toBytes s
    let length ← writeLength bytes.length
    return Tag.string.byte :: (length ++ bytes)
  | .array c vs => do
    let component ← c.write version
    let length ← writeLength vs.length
    let elements ← match c with
      | .scalar t => fun ids => (writeScalars t vs).map (·, ids)
      | _ => Encoded.writeAll version vs
    return Tag.array.byte :: (component ++ length ++ elements)
  | .enum t i => do
    let type ← writeId version t
    let id ← writeId version i
    return Tag.enum.byte :: (type ++ id)
  | .typeLiteral c => return Tag.typeLiteral.byte :: (← c.write version)
  | .object t fs => do
    if maxFields < fs.length then throw (.tooManyFields t)
    let type ← writeId version t
    let fields ← Field.writeAll version fs
    return Tag.object.byte :: (type ++ countBytes fs.length ++ fields)

def Encoded.writeAll (version : Nat) : List Encoded → Write Bytes
  | [] => pure []
  | v :: rest => do
    let first ← v.write version
    let others ← Encoded.writeAll version rest
    return first ++ others

def Field.write (version : Nat) : Field → Write Bytes
  | .scalar i s => do
    let id ← writeId version i
    return id ++ (Tag.scalar s.type).byte :: s.bytes
  | .value i v => do
    let id ← writeId version i
    let value ← v.write version
    return id ++ value

def Field.writeAll (version : Nat) : List Field → Write Bytes
  | [] => pure []
  | f :: rest => do
    let first ← f.write version
    let others ← Field.writeAll version rest
    return first ++ others

end

/-- The stream of a value in the given version. -/
def encodeAs (version : Nat) (v : Encoded) : Except Error Bytes :=
  (v.write version []).map fun r => header version ++ r.1

def encode (v : Encoded) : Except Error Bytes := encodeAs currentVersion v

end ScriptStore.Codec
