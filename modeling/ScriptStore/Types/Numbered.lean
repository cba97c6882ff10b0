import ScriptStore.Types.ClassInfo
import ScriptStore.Types.Converter

/-!
# Numbered kinds

The values of a host kind are known by numbers, like the entries of a table that the embedding
program keeps. Here are parsers, serializers and converters that such a program can give its kinds
without writing its own.
-/

namespace ScriptStore

/-- The number of an integer or of a host value. -/
def Value.number? : Value → Option Int64
  | .integer n => some n
  | .host _ n => some n
  | _ => none

/-- The value that a number stands for among the values of a kind. -/
def Value.ofNumber (k : Kind) (n : Int64) : Value :=
  match k with
  | .double => .double (Number.ofInt64 n)
  | .boolean => .boolean (n != 0)
  | .string => .string (Number.int64Text n)
  | .timespan => .timespan ⟨n⟩
  | .list => .list [.integer n]
  | .host name => .host name n
  | _ => .integer n

namespace Types.Numbered

/-- How numbers are written and what a parser says about them. -/
structure Style where
  /-- The text in front of a number. -/
  front : String := ""
  /-- A warning for every number that is read. -/
  warning : Option String := none
  /-- An error for every text that is none. -/
  error : Option (String × Quality) := none
  /-- The text in front of a number in the names of variables. -/
  nameFront : Option String := none
  /-- The text in front of a number in debugging. -/
  debugFront : Option String := none
  contexts : Option (List Context) := none

/-- The number in a text. -/
def Style.scan (s : Style) (input : String) : Option Int64 × List Report :=
  match (Text.dropFront? s.front.toList input.toList).bind fun rest =>
      Number.parseInteger (String.ofList rest) with
  | some n => (some n, s.warning.toList.map .warning)
  | none => (none, s.error.toList.map fun (message, quality) => .error message quality)

/-- The parser of the host kind of a name. -/
def parser (name : String) (s : Style) : Parser :=
  let behind (front : String) (n : Int64) : String := front ++ Number.int64Text n
  .ofTyped {
    toValue := fun n => .host name n
    ofValue? := fun
      | .host other n => if other == name then some n else none
      | _ => none
    parse := fun input _ => s.scan input
    render := behind s.front
    variableName := s.nameFront.map behind
    debug := s.debugFront.map behind
    contexts := s.contexts }

/-- A parser that writes values but reads none, in no context unless some are named. -/
def printer (name : String) (s : Style) : Parser :=
  { parser name { s with contexts := some (s.contexts.getD []) } with parse := fun _ _ => (none, []) }

/-- A parser that reads numbers as values of any kind and writes any value that has one. Flags are
shown behind the number. -/
def plainParser (target : Kind) (s : Style) : Parser :=
  let render (v : Value) (flags : Nat) : String :=
    s.front ++ (v.number?.map Number.int64Text).getD "?" ++
      (if flags == 0 then "" else "/" ++ Text.natText flags)
  { parse := fun input _ =>
      let (n, reports) := s.scan input
      (n.map (.ofNumber target), reports)
    canParse := fun _ => true
    render
    variableName := fun v => s.nameFront.getD "" ++ render v 0
    debug := fun v => render v 0 }

/-- A number with a sign or without. -/
def signedNumber? (s : String) : Option Int64 :=
  match s.toList with
  | '+' :: digits => if digits.head? == some '-' then none else Number.parseInteger (String.ofList digits)
  | _ => Number.parseInteger s

/-- A number in the given shape; objects hold it as a scalar and beside it in a label. -/
def encoded (shape : Codec.Shape) (type : String) (n : Int64) : Codec.Encoded :=
  match shape with
  | .boxed .int => .boxed (.int n.toInt32)
  | .boxed _ => .boxed (.long n)
  | .string => .string (Number.int64Text n)
  | .enum => .enum type (Number.int64Text n)
  | .object =>
    .object type [.scalar "number" (.long n), .value "label" (.string s!"#{Number.int64Text n}")]

/-- The number in an encoded value of any shape. -/
def decoded (e : Codec.Encoded) : Except Codec.Error Int64 :=
  let known (n : Option Int64) : Except Codec.Error Int64 :=
    match n with
    | some n => .ok n
    | none => .error (.unsupported e.describe)
  match e with
  | .boxed s => known s.integer?
  | .string s => known (signedNumber? s)
  | .enum _ id => known (signedNumber? id)
  | .object _ fields => do
    let _ ← Codec.Fields.string fields "label"
    Codec.Fields.integer fields "number"
  | _ => known none

/-- The serializer of a kind. With a refusal it encodes nothing. -/
def serializer (k : Kind) (shape : Codec.Shape) (type : String) (refusal : Option String)
    (yields : Bool) : Serializer where
  shape := shape
  encode v :=
    match refusal, v.number? with
    | some what, _ => .error (.unsupported what)
    | none, none => .error (.unsupported "no number")
    | none, some n => .ok (encoded shape type n)
  decode e := (decoded e).map (.ofNumber k)
  yields := yields

/-- Takes a number that is not too small to a value of a kind, after adding something. -/
def converter (source target made : Kind) (restrictions : Restrictions) (least : Option Int64)
    (shift : Int64) : Converter :=
  .single source target restrictions fun v =>
    v.number?.bind fun n =>
      if least.any (n < ·) then none else some (.ofNumber made (n + shift))

/-- No arithmetic at all with values of a kind. -/
def noArithmetic (relative : Kind) : Arithmetic :=
  ⟨relative, fun _ _ => none, fun _ _ => none, fun _ _ => none⟩

end Types.Numbered

end ScriptStore
