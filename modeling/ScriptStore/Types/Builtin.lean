import ScriptStore.Types.Registry

/-!
# Built-in types

Objects, numbers, integers, doubles, booleans, strings and time spans. Integers and doubles are
numbers, and an integer can be converted to a double.
-/

namespace ScriptStore.Types.Builtin

/-! ## Reading and writing -/

/-- A text without reports. -/
def silently {α : Type} (parse : String → Option α) (input : String) (_ : Context) :
    Option α × List Report :=
  (parse input, [])

def integer? : Value → Option Int64
  | .integer n => some n
  | _ => none

def integerParser : Parser :=
  .ofTyped {
    toValue := Value.integer
    ofValue? := integer?
    parse := silently Number.parseInteger
    render := Number.int64Text }

def doubleBits? : Value → Option Double
  | .double bits => some bits
  | _ => none

def doubleParser : Parser :=
  .ofTyped {
    toValue := Value.double
    ofValue? := doubleBits?
    parse := silently Number.parseDecimal
    render := fun bits => Number.format bits Number.messagePlaces
    variableName := some fun bits => Number.format bits Number.namePlaces }

/-- A number with at most so many places. -/
def numberText (places : Nat) : Value → String
  | .integer n => Number.int64Text n
  | .double bits => Number.format bits places
  | v => v.describe

/-- Integers where the text is one, else doubles. -/
def numberParser : Parser where
  parse input _ :=
    match Number.parseInteger input with
    | some n => (some (.integer n), [])
    | none => ((Number.parseDecimal input).map .double, [])
  canParse _ := true
  render v _ := numberText Number.messagePlaces v
  variableName := numberText Number.namePlaces
  debug := numberText Number.messagePlaces

def boolean? : Value → Option Bool
  | .boolean b => some b
  | _ => none

def parseBoolean (input : String) : Option Bool :=
  let input := Text.lowercase input
  if ["true", "yes", "on"].contains input then some true
  else if ["false", "no", "off"].contains input then some false
  else none

def booleanParser : Parser :=
  .ofTyped {
    toValue := Value.boolean
    ofValue? := boolean?
    parse := silently parseBoolean
    render := fun b => if b then "true" else "false" }

def string? : Value → Option String
  | .string s => some s
  | _ => none

/-- Takes doubled quotes apart; a quote that stands alone is refused. -/
def undouble : List Char → Option (List Char)
  | [] => some []
  | '"' :: '"' :: rest => (undouble rest).map ('"' :: ·)
  | c :: rest => if c = '"' then none else (undouble rest).map (c :: ·)

/-- The text between quotes, in which quotes are doubled. -/
def unquote (input : List Char) : Option (List Char) :=
  (Text.dropFront? ['"'] input).bind fun rest => (Text.dropBack? ['"'] rest).bind undouble

/-- In configuration and commands any text is a string, in scripts and events one in quotes. -/
def parseString (input : String) (context : Context) : Option String × List Report :=
  match context with
  | .config | .command => (some input, [])
  | .script | .event =>
    match unquote input.toList with
    | some s => (some (String.ofList s), [])
    | none =>
      if input.toList.head? == some '"' then
        (none, [.error s!"{input} is not quoted correctly" .semanticError])
      else (none, [])
  | .default => (none, [])

def stringParser : Parser :=
  .ofTyped {
    toValue := Value.string
    ofValue? := string?
    parse := parseString
    render := fun s => s
    debug := some fun s => "\"" ++ s ++ "\""
    contexts := some [.event, .command, .config, .script] }

def timespan? : Value → Option Timespan
  | .timespan t => some t
  | _ => none

def timespanParser : Parser :=
  .ofTyped {
    toValue := Value.timespan
    ofValue? := timespan?
    parse := silently Timespan.parse
    render := Timespan.text }

/-! ## Saving -/

/-- The part of a value that a serializer works on. -/
def require {α : Type} (expected : Kind) (part : Value → Option α) (v : Value) :
    Except Codec.Error α :=
  match part v with
  | some a => .ok a
  | none => .error (.wrongValueType expected v.kind)

/-- What an encoded value stands for, which another shape does not. -/
def understand {α : Type} (part : Codec.Encoded → Option α) (e : Codec.Encoded) :
    Except Codec.Error α :=
  match part e with
  | some a => .ok a
  | none => .error (.unsupported e.describe)

def boxed? : Codec.Encoded → Option Codec.Scalar
  | .boxed s => some s
  | _ => none

/-- Values saved as one boxed scalar. -/
def scalarSerializer {α : Type} (kind : Kind) (type : Codec.ScalarType) (ofValue? : Value → Option α)
    (toValue : α → Value) (write : α → Codec.Scalar) (read : Codec.Scalar → Option α) :
    Serializer where
  shape := .boxed type
  encode v := (require kind ofValue? v).map fun a => .boxed (write a)
  decode e := (understand (fun e => (boxed? e).bind read) e).map toValue

def integerSerializer : Serializer :=
  scalarSerializer .integer .long integer? .integer .long Codec.Scalar.integer?

def doubleSerializer : Serializer :=
  scalarSerializer .double .double doubleBits? .double .double Codec.Scalar.double?

def booleanSerializer : Serializer :=
  scalarSerializer .boolean .boolean boolean? .boolean .boolean fun
    | .boolean b => some b
    | _ => none

def stringSerializer : Serializer where
  shape := .string
  encode v := (require .string string? v).map .string
  decode e := (understand Codec.Encoded.string? e).map .string

def fields? : Codec.Encoded → Option (List Codec.Field)
  | .object _ fields => some fields
  | _ => none

def timespanSerializer : Serializer where
  shape := .object
  encode v :=
    (require .timespan timespan? v).map fun t =>
      .object "timespan" [.scalar "millis" (.long t.millis)]
  decode e := do
    let fields ← understand fields? e
    let millis ← Codec.Fields.integer fields "millis"
    return .timespan ⟨millis⟩

/-! ## Arithmetic -/

/-- Calculates with integers where both are and the result is one, else with doubles. -/
def calculate (whole : Int → Int → Int) (decimal : Double → Double → Double) (a b : Value) :
    Option Value :=
  let exact := match a, b with
    | .integer m, .integer n => Number.toInt64? (whole m.toInt n.toInt)
    | _, _ => none
  match exact with
  | some n => some (.integer n)
  | none => do return .double (decimal (← a.double?) (← b.double?))

/-- The distance of two integers, if their difference itself fits. -/
def numberDifference (a b : Value) : Option Value :=
  let exact := match a, b with
    | .integer m, .integer n =>
      (Number.toInt64? (m.toInt - n.toInt)).bind fun d => Number.toInt64? d.toInt.natAbs
    | _, _ => none
  match exact with
  | some n => some (.integer n)
  | none => do return .double (Number.distance (← a.double?) (← b.double?))

def numberArithmetic (relative : Kind) : Arithmetic where
  relative := relative
  difference := numberDifference
  add := calculate (· + ·) Number.addDouble
  subtract := calculate (· - ·) Number.subDouble

def onTimespans (f : Timespan → Timespan → Timespan) : Value → Value → Option Value
  | .timespan a, .timespan b => some (.timespan (f a b))
  | _, _ => none

def timespanArithmetic : Arithmetic where
  relative := .timespan
  difference := onTimespans Timespan.distance
  add := onTimespans Timespan.add
  subtract := onTimespans Timespan.sub

/-! ## Registration -/

/-- The built-in types with their code names and attributes, in the order of registration. -/
def types : List (Kind × String × List Attribute) :=
  [(.object, "object",
      [.user ["objects?"], .name "object", .description ["The supertype of all types."]]),
    (.number, "number",
      [.user ["num(ber)?s?"], .name "number", .parser numberParser,
        .math (numberArithmetic .number),
        .description ["A number, e.g. 2.5, 3, or -9812454."],
        .examples ["set \x7b_temp\x7d to 2*\x7b_temp\x7d - 2.5"]]),
    (.integer, "integer",
      [.user ["int(eger)?s?"], .name "integer", .parser integerParser,
        .math (numberArithmetic .integer), .serializer integerSerializer]),
    (.double, "double",
      [.user ["doubles?", "decimals?"], .name "decimal", .parser doubleParser,
        .math (numberArithmetic .double), .serializer doubleSerializer]),
    (.boolean, "boolean",
      [.user ["booleans?"], .name "boolean", .parser booleanParser,
        .serializer booleanSerializer]),
    (.string, "string",
      [.user ["(text|string)s?"], .name "text", .parser stringParser,
        .serializer stringSerializer]),
    (.timespan, "timespan",
      [.user ["time ?spans?"], .name "timespan", .parser timespanParser,
        .math timespanArithmetic, .serializer timespanSerializer,
        .description ["A period of time, e.g. 1 hour and 30 seconds."]])]

def toDouble : Converter :=
  .single .integer .double {} fun
    | .integer n => some (.double (Number.ofInt64 n))
    | _ => none

/-- Registers types until one is refused. What was registered before that stays. -/
def registerAll (d : Draft) : List (Kind × String × List Attribute) → Logged (Option Error × Draft)
  | [] => pure (none, d)
  | (kind, code, attributes) :: rest =>
    match ClassInfo.ofAttributes kind code attributes with
    | .error e => pure (some e, d)
    | .ok info => do
      match ← d.register info with
      | .error e => return (some e, d)
      | .ok d => registerAll d rest

/-- Registers the built-in types and their converter; also tells what stopped it, if anything
did. -/
def register (d : Draft) : Logged (Option Error × Draft) :=
  match d.declareSubtype .integer .number with
  | .error e => pure (some e, d)
  | .ok d =>
    match d.declareSubtype .double .number with
    | .error e => pure (some e, d)
    | .ok d => do
      match ← registerAll d types with
      | (some e, d) => return (some e, d)
      | (none, d) => return (none, d.addConverter toDouble)

end ScriptStore.Types.Builtin
