import ScriptStore.Codec.Encoded

/-!
# Tags

The byte in front of everything in a stream that says what follows. The tag of a boxed scalar is
that of the raw one plus sixteen.
-/

namespace ScriptStore.Codec

inductive Tag where
  | null
  | scalar (t : ScalarType)
  | boxed (t : ScalarType)
  | string
  | array
  | enum
  | typeLiteral
  | object
  | reference
  deriving DecidableEq

def ScalarType.tag : ScalarType → UInt8
  | .byte => 0x01
  | .short => 0x02
  | .int => 0x03
  | .long => 0x04
  | .float => 0x08
  | .double => 0x09
  | .char => 0x0E
  | .boolean => 0x0F

def ScalarType.all : List ScalarType :=
  [.byte, .short, .int, .long, .float, .double, .char, .boolean]

def Tag.byte : Tag → UInt8
  | .null => 0x00
  | .scalar t => t.tag
  | .boxed t => t.tag + 0x10
  | .string => 0x20
  | .array => 0x30
  | .enum => 0x40
  | .typeLiteral => 0x41
  | .object => 0x80
  | .reference => 0xFF

def Tag.all : List Tag :=
  [.null, .string, .array, .enum, .typeLiteral, .object, .reference] ++
    ScalarType.all.map .scalar ++ ScalarType.all.map .boxed

/-- The tag that a byte stands for. -/
def Tag.ofByte? (b : UInt8) : Option Tag := Tag.all.find? fun t => t.byte == b

theorem Tag.ofByte?_byte (t : Tag) : Tag.ofByte? t.byte = some t := by
  cases t with
  | scalar s => cases s <;> decide
  | boxed s => cases s <;> decide
  | _ => decide

end ScriptStore.Codec
