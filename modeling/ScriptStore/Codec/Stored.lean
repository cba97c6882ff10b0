import ScriptStore.Codec.Reader
import ScriptStore.Codec.Writer

/-!
# Stored values

A stored value goes with the code name of its type, and all values of a type have one shape. What
shape and code name say already, the header, the tag and the type id, is left out of the bytes that
are stored.
-/

namespace ScriptStore.Codec

open Text (Bytes)

/-- The shape that all stored values of a type have. -/
inductive Shape where
  | boxed (t : ScalarType)
  | string
  | enum
  | object
  deriving DecidableEq

/-- What the stream of every value of this shape begins with. -/
def Shape.opening (shape : Shape) (code : String) : Except Error Bytes :=
  let start (t : Tag) : Bytes := header currentVersion ++ [t.byte]
  let withCode (t : Tag) : Except Error Bytes :=
    (writeId currentVersion code []).map fun r => start t ++ r.1
  match shape with
  | .boxed t => .ok (start (.boxed t))
  | .string => .ok (start .string)
  | .enum => withCode .enum
  | .object => withCode .object

/-- What is left of bytes after an opening that they have. -/
def afterOpening? : (opening bytes : Bytes) → Option Bytes
  | [], bytes => some bytes
  | _ :: _, [] => none
  | a :: opening, b :: bytes => if a = b then afterOpening? opening bytes else none

def encodeStored (v : Encoded) (shape : Shape) (code : String) : Except Error Bytes := do
  let opening ← shape.opening code
  let bytes ← encode v
  match afterOpening? opening bytes with
  | some data => return data
  | none => throw (.unsupported s!"value of '{code}' does not start with its type prefix")

def decodeStored (data : Bytes) (shape : Shape) (code : String) : Except Error Encoded := do
  decode ((← shape.opening code) ++ data)

end ScriptStore.Codec
