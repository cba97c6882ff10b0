import ScriptStore.Codec.Stored
import ScriptStore.Value

/-!
# Serializers

How the values of a type are encoded for storage. All of them have one shape; objects and constants
carry the code name of the type as their type id.
-/

namespace ScriptStore.Types

structure Serializer where
  shape : Codec.Shape
  encode : Value → Except Codec.Error Codec.Encoded
  decode : Codec.Encoded → Except Codec.Error Value
  /-- Whether decoding must happen where the values live. -/
  mustSync : Bool := false
  /-- Whether encoding hands control to the embedding program, which may change variables before
  the encoded value is returned. -/
  yields : Bool := false

/-- A value that was saved: the code name of its type, and its bytes. -/
structure Saved where
  code : String
  data : Text.Bytes
  deriving DecidableEq

end ScriptStore.Types
