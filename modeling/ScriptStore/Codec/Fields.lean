import ScriptStore.Codec.Encoded
import ScriptStore.Codec.Error

/-!
# Fields of an object

The fields of an object in the order in which their ids first came. Putting a field whose id is
there replaces it in place, so no id comes twice.
-/

namespace ScriptStore.Codec.Fields

/-- Replaces the field with the same id where it stands, or appends. -/
def put (f : Field) : List Field → List Field
  | [] => [f]
  | g :: rest => if g.id = f.id then f :: rest else g :: put f rest

def ofList (fs : List Field) : List Field := fs.foldl (fun out f => put f out) []

def get? (fs : List Field) (id : String) : Option Field := fs.find? fun f => f.id == id

/-- What `read` makes of the field `id`, which must be there. -/
def require {α : Type} (read : Field → Option α) (fs : List Field) (id : String) :
    Except Error α :=
  match get? fs id with
  | none => .error (.missingField id)
  | some f =>
    match read f with
    | none => .error (.wrongFieldType id)
    | some a => .ok a

def scalar (fs : List Field) (id : String) : Except Error Scalar := require Field.scalar? fs id

def value (fs : List Field) (id : String) : Except Error Encoded := require Field.value? fs id

def integer (fs : List Field) (id : String) : Except Error Int64 :=
  require (fun f => f.scalar?.bind Scalar.integer?) fs id

def double (fs : List Field) (id : String) : Except Error Double :=
  require (fun f => f.scalar?.bind Scalar.double?) fs id

def string (fs : List Field) (id : String) : Except Error String :=
  require (fun f => f.value?.bind Encoded.string?) fs id

end ScriptStore.Codec.Fields
