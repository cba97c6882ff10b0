import ScriptStore.Codec.Fields
import ScriptStore.Codec.Tag
import ScriptStore.Codec.Writer

/-!
# Reading value streams

A stream may refer back to a value that it already holds in full. Values are numbered in the order
in which they begin; null and references have no number. A reference is followed by reading that
value again from where it begins, knowing only the ids and values that were known there.
-/

namespace ScriptStore.Codec

open Text (Bytes)

/-- Where a value begins, how many shared ids were known there, and whether it has been read to
its end. -/
structure Mark where
  offset : Nat
  ids : Nat
  complete : Bool
  deriving DecidableEq

/-- A stream that is being read. -/
structure Source where
  /-- The whole stream, with its header. -/
  stream : Bytes
  /-- How much of it has been read. -/
  offset : Nat
  /-- What is left of it. -/
  rest : Bytes
  version : Nat
  /-- The ids that can be referred to, in the order in which they came. -/
  ids : Array String
  /-- The values that have begun, by number. -/
  marks : Array Mark

/-- The source for reading value `number` again, which began at `m`. -/
def Source.again (s : Source) (m : Mark) (number : Nat) : Source :=
  { s with offset := m.offset, rest := s.stream.drop m.offset, ids := s.ids.take m.ids,
           marks := s.marks.take number }

abbrev Read := StateT Source (Except Error)

namespace Read

def byte : Read UInt8 := fun s =>
  match s.rest with
  | [] => .error .unexpectedEnd
  | b :: rest => .ok (b, { s with rest, offset := s.offset + 1 })

def take (n : Nat) : Read Bytes := fun s =>
  let bytes := s.rest.take n
  if bytes.length < n then .error .unexpectedEnd
  else .ok (bytes, { s with rest := s.rest.drop n, offset := s.offset + n })

def ofBigEndian (bytes : Bytes) : Nat := bytes.foldl (fun n b => 256 * n + b.toNat) 0

/-- A number of `width` bytes, the highest first. -/
def number (width : Nat) : Read Nat := ofBigEndian <$> take width

def count : Read Nat := do
  let first ← byte
  if 0x80 ≤ first then return first.toNat - 0x80
  return 256 * first.toNat + (← number 1)

def length : Read Nat := do
  let first ← byte
  if 0x80 ≤ first then return 256 * (first.toNat - 0x80) + (← number 1)
  return 0x1000000 * first.toNat + (← number 3)

/-- Text of a known number of bytes. -/
def text (size : Nat) : Read String := do
  let bytes ← take size
  match Text.ofBytes bytes with
  | .ok s => return s
  | .error f => throw (.invalidUtf8 f)

/-- The id at a place in the table. -/
def idAt (index : Nat) : Read String := do
  match (← get).ids[index]? with
  | some id => return id
  | none => throw (.invalidIdReference index)

/-- The id that a reference means. -/
def sharedId : Read String := do
  let index ← if (← get).version ≤ 1 then number 4 else length
  idAt index

def id : Read String := do
  let size ← byte
  if size = Tag.reference.byte then sharedId
  else
    let id ← text size.toNat
    if sharedIdSize ≤ size.toNat then modify fun s => { s with ids := s.ids.push id }
    return id

def scalar : ScalarType → Read Scalar
  | .byte => (.byte ·.toUInt8.toInt8) <$> number 1
  | .short => (.short ·.toUInt16.toInt16) <$> number 2
  | .int => (.int ·.toUInt32.toInt32) <$> number 4
  | .long => (.long ·.toUInt64.toInt64) <$> number 8
  | .float => (.float ·.toUInt32) <$> number 4
  | .double => (.double ·.toUInt64) <$> number 8
  | .char => (.char ·.toUInt16) <$> number 2
  | .boolean => (.boolean <| · != 0) <$> number 1

def tag (b : UInt8) : Read Tag :=
  match Tag.ofByte? b with
  | some t => pure t
  | none => throw (.invalidTag b)

/-- The array type of so many dimensions. -/
def nested : Nat → Component → Component
  | 0, c => c
  | n + 1, c => .array (nested n c)

/-- The component without its dimensions, which begins with the tag `b`. -/
def innermost (b : UInt8) : Read Component := do
  match ← tag b with
  | .scalar t => return .scalar t
  | .boxed t => return .boxed t
  | .string => return .string
  | .typeLiteral => return .typeLiteral
  | .enum => .enum <$> id
  | .object => .object <$> id
  | .null | .reference | .array => throw (.unexpectedTag b)

def component : Read Component := do
  let dimensions := ((← get).rest.takeWhile (· = Tag.array.byte)).length
  let _ ← take dimensions
  nested dimensions <$> innermost (← byte)

/-- Reads `n` times. -/
def times {α : Type} (read : Read α) : Nat → Read (List α)
  | 0 => pure []
  | n + 1 => do
    let a ← read
    let rest ← times read n
    return a :: rest

def array (value : Read Encoded) : Read Encoded := do
  let c ← component
  let n ← length
  let elements ← match c with
    | .scalar t => times (.boxed <$> scalar t) n
    | _ => times value n
  return .array c elements

/-- A field; the tag of a raw scalar tells it from a value. -/
def field (value : Read Encoded) : Read Field := do
  let id ← id
  match (← get).rest with
  | [] => throw .unexpectedEnd
  | b :: _ =>
    match ← tag b with
    | .scalar t => do
      let _ ← byte
      return .scalar id (← scalar t)
    | _ => return .value id (← value)

def object (value : Read Encoded) : Read Encoded := do
  let type ← id
  let n ← count
  let fields ← times (field value) n
  return .object type (Fields.ofList fields)

/-- What follows the tag of a value. -/
def body (value : Read Encoded) (t : Tag) : Read Encoded :=
  match t with
  | .boxed t => .boxed <$> scalar t
  | .string => do return .string (← text (← length))
  | .array => array value
  | .enum => do
    let type ← id
    let constant ← id
    return .enum type constant
  | .typeLiteral => .typeLiteral <$> component
  | .object => object value
  | .null | .reference | .scalar _ => throw (.unexpectedTag t.byte)

/-- Notes where a value begins and gives its number. -/
def begin (m : Mark) : Read Nat := fun s => .ok (s.marks.size, { s with marks := s.marks.push m })

/-- Notes that a value has been read to its end. -/
def finish (number : Nat) : Read Unit :=
  modify fun s => { s with marks := s.marks.modify number fun m => { m with complete := true } }

/-- One value, with `inner` for the values inside it. A reference is followed by `follow`. -/
def valueWith (follow : (number : Nat) → Read Encoded) (inner : Read Encoded) : Read Encoded := do
  let offset := (← get).offset
  let ids := (← get).ids.size
  let t ← tag (← byte)
  match t with
  | .null => return .null
  | .reference => do follow (← length)
  | .scalar _ => throw (.unexpectedTag t.byte)
  | _ => do
    let number ← begin ⟨offset, ids, false⟩
    let v ← body inner t
    finish number
    return v

/-- One value. Every value takes at least one byte, so as much fuel as there are bytes is enough. -/
def value (follow : (number : Nat) → Read Encoded) : (fuel : Nat) → Read Encoded
  | 0 => throw .unexpectedEnd
  | fuel + 1 => valueWith follow (value follow fuel)

/-- Follows the reference to value `number` by means of `read`. -/
def followWith (read : (fuel : Nat) → Read Encoded) (number : Nat) : Read Encoded := fun s =>
  match s.marks[number]? with
  | none => .error (.invalidObjectReference number)
  | some m =>
    if m.complete then
      let inner := s.again m number
      match read inner.rest.length inner with
      | .ok (v, _) => .ok (v, s)
      | .error e => .error e
    else .error (.invalidObjectReference number)

/-- One value, with references followed to the given depth. A value that is referred to ends before
the reference, so a stream has fewer nested references than bytes. -/
def linked : (depth fuel : Nat) → Read Encoded
  | 0, _ => throw .unexpectedEnd
  | depth + 1, fuel => value (followWith (linked depth)) fuel

end Read

/-- Checks the header of a stream. -/
def Source.ofBytes (bytes : Bytes) : Except Error Source := do
  let start : Source := ⟨bytes, 0, bytes, 0, #[], #[]⟩
  let (found, s) ← Read.number 4 start
  if found ≠ magic then throw (.badMagic found)
  let (version, s) ← Read.number 2 s
  if version = 0 ∨ currentVersion < version then throw (.unsupportedVersion version)
  return { s with version }

/-- The one value of a stream, which nothing may follow. -/
def Source.toEnd (s : Source) : Except Error Encoded := do
  let (v, s) ← Read.linked s.stream.length s.rest.length s
  if s.rest.isEmpty then return v
  throw (.trailingBytes s.rest.length)

def decode (bytes : Bytes) : Except Error Encoded := do
  (← Source.ofBytes bytes).toEnd

end ScriptStore.Codec
