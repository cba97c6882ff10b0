/-!
# Kinds

The type a value has while the program runs. Values are integers, doubles, booleans, strings, time
spans and lists, or belong to a kind that the embedding program brings along; two further kinds
have no values of their own and stand above others: `object`, above everything, and `number`.
-/

namespace ScriptStore

inductive Kind where
  | object
  | number
  | integer
  | double
  | boolean
  | string
  | timespan
  | list
  /-- A kind of the embedding program, under the full name that messages show. -/
  | host (name : String)
  deriving DecidableEq

/-- The full name by which messages call a kind. -/
def Kind.name : Kind → String
  | .object => "skript_types::runtime::Object"
  | .number => "skript_types::defaults::Number"
  | .integer => "i64"
  | .double => "f64"
  | .boolean => "bool"
  | .string => "alloc::string::String"
  | .timespan => "skript_types::timespan::Timespan"
  | .list => "alloc::vec::Vec<skript_types::runtime::Value>"
  | .host n => n

end ScriptStore
