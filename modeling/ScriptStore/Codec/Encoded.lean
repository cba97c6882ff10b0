import ScriptStore.Decimal.Shortest
import ScriptStore.Number
import ScriptStore.Text.Quoted

/-!
# Encoded values

What a value stream holds: null, numbers and other scalars of fixed width, strings, arrays,
constants of an enumeration, type literals, and objects with named fields. Scalars stand either
boxed, as values of their own, or raw in a field. Floating-point scalars are their bits, so that
equality of encoded values is equality of what is written.
-/

namespace ScriptStore.Codec

/-- The types of scalars. -/
inductive ScalarType where
  | byte
  | short
  | int
  | long
  | float
  | double
  | char
  | boolean
  deriving DecidableEq

/-- A scalar of fixed width; a `char` is one UTF-16 unit. -/
inductive Scalar where
  | byte (v : Int8)
  | short (v : Int16)
  | int (v : Int32)
  | long (v : Int64)
  | float (bits : UInt32)
  | double (bits : Double)
  | char (unit : UInt16)
  | boolean (v : Bool)
  deriving DecidableEq

def Scalar.type : Scalar → ScalarType
  | .byte _ => .byte
  | .short _ => .short
  | .int _ => .int
  | .long _ => .long
  | .float _ => .float
  | .double _ => .double
  | .char _ => .char
  | .boolean _ => .boolean

/-- The value of a whole number of any width. -/
def Scalar.integer? : Scalar → Option Int64
  | .byte v => some v.toInt64
  | .short v => some v.toInt64
  | .int v => some v.toInt64
  | .long v => some v
  | _ => none

/-- The double with the same value as a single. What is not a number keeps its sign and payload. -/
def widen (bits : UInt32) : Double :=
  let sign := (bits.toNat >>> 31) <<< 63
  match Decimal.Binary.ofBits .single bits.toNat with
  | .nan => (sign + 0x7FF8000000000000 + (bits.toNat % 0x400000) <<< 29).toUInt64
  | .infinite _ => (sign + 0x7FF0000000000000).toUInt64
  | .finite _ m q =>
    let (num, den) := Decimal.scaleDown m 1 (-q)
    (sign + Decimal.nearestBits .double num den).toUInt64

/-- The value of any number. -/
def Scalar.double? : Scalar → Option Double
  | .float bits => some (widen bits)
  | .double bits => some bits
  | s => s.integer?.map Number.ofInt64

/-- The element type of an array, or what a type literal names. -/
inductive Component where
  | scalar (t : ScalarType)
  | boxed (t : ScalarType)
  | string
  | typeLiteral
  | enum (id : String)
  | object (id : String)
  | array (of : Component)
  deriving DecidableEq

mutual

/-- One value of a stream. The elements of an array of scalars are boxed scalars. -/
inductive Encoded where
  | null
  | boxed (s : Scalar)
  | string (s : String)
  | array (of : Component) (elements : List Encoded)
  | enum (type id : String)
  | typeLiteral (of : Component)
  | object (type : String) (fields : List Field)

/-- A named field of an object: a raw scalar, or a value. -/
inductive Field where
  | scalar (id : String) (s : Scalar)
  | value (id : String) (v : Encoded)

end

instance : Inhabited Component := ⟨.string⟩

instance : Inhabited Encoded := ⟨.null⟩

instance : Inhabited Field := ⟨.value "" .null⟩

namespace Field

def id : Field → String
  | .scalar id _ => id
  | .value id _ => id

/-- The scalar of a field, raw or boxed. -/
def scalar? : Field → Option Scalar
  | .scalar _ s => some s
  | .value _ (.boxed s) => some s
  | .value _ _ => none

/-- The value of a field that does not hold a raw scalar. -/
def value? : Field → Option Encoded
  | .scalar _ _ => none
  | .value _ v => some v

end Field

/-- The string that a value is. -/
def Encoded.string? : Encoded → Option String
  | .string s => some s
  | _ => none

/-! ## Values in messages -/

def ScalarType.describe : ScalarType → String
  | .byte => "Byte"
  | .short => "Short"
  | .int => "Int"
  | .long => "Long"
  | .float => "Float"
  | .double => "Double"
  | .char => "Char"
  | .boolean => "Boolean"

def Scalar.describe (s : Scalar) : String :=
  let v := match s with
    | .byte v => Text.intText v.toInt
    | .short v => Text.intText v.toInt
    | .int v => Text.intText v.toInt
    | .long v => Text.intText v.toInt
    | .float bits => Decimal.shortestText .single bits.toNat
    | .double bits => Decimal.shortestText .double bits.toNat
    | .char unit => Text.natText unit.toNat
    | .boolean true => "true"
    | .boolean false => "false"
  s!"{s.type.describe}({v})"

def Component.describe : Component → String
  | .scalar t => s!"Primitive({t.describe})"
  | .boxed t => s!"Wrapper({t.describe})"
  | .string => "String"
  | .typeLiteral => "Class"
  | .enum id => s!"Enum({Text.quoted id})"
  | .object id => s!"Object({Text.quoted id})"
  | .array c => s!"Array({c.describe})"

mutual

def Encoded.describe : Encoded → String
  | .null => "Null"
  | .boxed s => s!"Wrapper({s.describe})"
  | .string s => s!"String({Text.quoted s})"
  | .array c vs =>
    "Array \x7b component: " ++ c.describe ++ ", elements: [" ++ Encoded.describeAll vs ++ "] \x7d"
  | .enum t i =>
    "Enum \x7b type_id: " ++ Text.quoted t ++ ", id: " ++ Text.quoted i ++ " \x7d"
  | .typeLiteral c => s!"Class({c.describe})"
  | .object t fs =>
    "Object \x7b type_id: " ++ Text.quoted t ++ ", fields: Fields \x7b fields: [" ++
      Field.describeAll fs ++ "] \x7d \x7d"

def Encoded.describeAll : List Encoded → String
  | [] => ""
  | [v] => v.describe
  | v :: rest => v.describe ++ ", " ++ Encoded.describeAll rest

def Field.describe : Field → String
  | .scalar i s => s!"({Text.quoted i}, Primitive({s.describe}))"
  | .value i v => s!"({Text.quoted i}, Value({v.describe}))"

def Field.describeAll : List Field → String
  | [] => ""
  | [f] => f.describe
  | f :: rest => f.describe ++ ", " ++ Field.describeAll rest

end

/-! ## Numerical equality -/

/-- Equality of doubles as numbers: zeros are equal, and what is not a number equals nothing. -/
def sameDouble (a b : Double) : Bool :=
  !Number.isNan a && !Number.isNan b &&
    (a == b || (a ||| (0x8000000000000000 : UInt64)) == 0x8000000000000000 &&
      (b ||| (0x8000000000000000 : UInt64)) == 0x8000000000000000)

def Scalar.same : Scalar → Scalar → Bool
  | .float a, .float b => sameDouble (widen a) (widen b)
  | .double a, .double b => sameDouble a b
  | a, b => a == b

mutual

/-- Equality of values with floating-point scalars compared as numbers. -/
def Encoded.same : Encoded → Encoded → Bool
  | .null, .null => true
  | .boxed a, .boxed b => a.same b
  | .string a, .string b => a == b
  | .array c vs, .array c' ws => c == c' && Encoded.sameAll vs ws
  | .enum t i, .enum t' i' => t == t' && i == i'
  | .typeLiteral c, .typeLiteral c' => c == c'
  | .object t fs, .object t' gs => t == t' && Field.sameAll fs gs
  | _, _ => false

def Encoded.sameAll : List Encoded → List Encoded → Bool
  | [], [] => true
  | v :: vs, w :: ws => v.same w && Encoded.sameAll vs ws
  | _, _ => false

def Field.same : Field → Field → Bool
  | .scalar i a, .scalar i' b => i == i' && a.same b
  | .value i v, .value i' w => i == i' && v.same w
  | _, _ => false

def Field.sameAll : List Field → List Field → Bool
  | [], [] => true
  | f :: fs, g :: gs => f.same g && Field.sameAll fs gs
  | _, _ => false

end

end ScriptStore.Codec
