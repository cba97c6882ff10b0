import ScriptStore.Types.Registry

/-!
# Saving and loading values

A value is saved by the serializer of the nearest info, or, if values of that type are saved as
another kind, converted and saved by the serializer of that kind.
-/

namespace ScriptStore.Types.Registry

/-- What is needed to save a value: the code name, the serializer, and the value to encode. -/
structure Plan where
  code : String
  serializer : Serializer
  value : Value

/-- How a value is saved, if it can be. -/
def plan? (r : Registry) (v : Value) : Option Plan := do
  let info ← r.nearest? v.kind
  match info.serializeAs with
  | none => return ⟨info.code, ← info.serializer, v⟩
  | some target =>
    let other ← r.infoOf? target
    let w ← r.graph.convert v target
    return ⟨other.code, ← other.serializer, w⟩

/-- Encodes a value as planned. -/
def Plan.save (p : Plan) : Logged (Option Saved) :=
  match p.serializer.encode p.value >>= (Codec.encodeStored · p.serializer.shape p.code) with
  | .ok data => pure (some ⟨p.code, data⟩)
  | .error e => do
    Logged.errorOf "failed to serialize value" e.message
    return none

/-- Saves a value; one that cannot be saved gives none. -/
def serialize (r : Registry) (v : Value) : Logged (Option Saved) :=
  match r.plan? v with
  | none => pure none
  | some p => p.save

/-- Loads a value that was saved under a code name. -/
def deserialize (r : Registry) (code : String) (data : Text.Bytes) : Logged (Option Value) :=
  match r.info? code with
  | none => do
    Logged.warn s!"unknown type '{code}', value lost"
    return none
  | some info =>
    match info.serializer with
    | none => do
      Logged.warn s!"type '{code}' can't be loaded, value lost"
      return none
    | some s =>
      match Codec.decodeStored data s.shape info.code >>= s.decode with
      | .ok v => pure (some v)
      | .error e => do
        Logged.warnOf "invalid saved value" e.message
        return none

def load (r : Registry) (s : Saved) : Logged (Option Value) := r.deserialize s.code s.data

end ScriptStore.Types.Registry
