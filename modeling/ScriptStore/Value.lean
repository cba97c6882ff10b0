import ScriptStore.Decimal.Shortest
import ScriptStore.Kind
import ScriptStore.Number
import ScriptStore.Text.Quoted
import ScriptStore.Timespan

/-!
# Values

A value together with its kind. Values of the embedding program are known by a number.
-/

namespace ScriptStore

inductive Value where
  | integer (n : Int64)
  | double (bits : Double)
  | boolean (b : Bool)
  | string (s : String)
  | timespan (t : Timespan)
  | list (vs : List Value)
  /-- The value with number `n` of the host kind of that name. -/
  | host (kind : String) (n : Int64)

instance : Inhabited Value := ⟨.boolean false⟩

namespace Value

def kind : Value → Kind
  | .integer _ => .integer
  | .double _ => .double
  | .boolean _ => .boolean
  | .string _ => .string
  | .timespan _ => .timespan
  | .list _ => .list
  | .host name _ => .host name

/-- The plain double of a number. -/
def double? : Value → Option Double
  | .double bits => some bits
  | .integer n => some (Number.ofInt64 n)
  | _ => none

mutual

/-- The text of a value for which nobody else has a text. -/
def describe : Value → String
  | .integer n => Number.int64Text n
  | .double bits => Decimal.shortestText .double bits.toNat
  | .boolean true => "true"
  | .boolean false => "false"
  | .string s => Text.quoted s
  | .timespan _ => s!"<{Kind.timespan.name}>"
  | .list vs => "[" ++ describeAll vs ++ "]"
  | .host name _ => s!"<{name}>"

def describeAll : List Value → String
  | [] => ""
  | [v] => v.describe
  | v :: rest => v.describe ++ ", " ++ describeAll rest

end

end Value

end ScriptStore
