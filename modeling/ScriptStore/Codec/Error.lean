import ScriptStore.Kind
import ScriptStore.Text.Hex

/-!
# Codec errors

Why a value cannot be written to a stream or read from one.
-/

namespace ScriptStore.Codec

inductive Error where
  /-- The stream does not begin with the magic number. -/
  | badMagic (found : Nat)
  | unsupportedVersion (version : Nat)
  | invalidTag (byte : UInt8)
  /-- A tag that cannot stand where it does. -/
  | unexpectedTag (byte : UInt8)
  | unexpectedEnd
  | trailingBytes (count : Nat)
  | invalidUtf8 (fault : Text.Utf8.Fault)
  | idTooLong (id : String)
  | invalidIdReference (index : Nat)
  | invalidObjectReference (index : Nat)
  | tooLarge (length : Nat)
  | tooManyFields (type : String)
  | componentMismatch
  | missingField (id : String)
  | wrongFieldType (id : String)
  | wrongValueType (expected found : Kind)
  /-- What a serializer does not understand, described. -/
  | unsupported (what : String)
  deriving DecidableEq

/-- The name of the cause alone. -/
def Error.name : Error → String
  | .badMagic _ => "BadMagic"
  | .unsupportedVersion _ => "UnsupportedVersion"
  | .invalidTag _ => "InvalidTag"
  | .unexpectedTag _ => "UnexpectedTag"
  | .unexpectedEnd => "UnexpectedEof"
  | .trailingBytes _ => "TrailingBytes"
  | .invalidUtf8 _ => "InvalidUtf8"
  | .idTooLong _ => "ShortStringTooLong"
  | .invalidIdReference _ => "InvalidShortStringReference"
  | .invalidObjectReference _ => "InvalidObjectReference"
  | .tooLarge _ => "TooLarge"
  | .tooManyFields _ => "TooManyFields"
  | .componentMismatch => "ComponentMismatch"
  | .missingField _ => "MissingField"
  | .wrongFieldType _ => "WrongFieldType"
  | .wrongValueType _ _ => "WrongValueType"
  | .unsupported _ => "Unsupported"

def Error.message : Error → String
  | .badMagic m => "not a value stream (bad magic number 0x" ++ Text.Hex.padded 8 m ++ ")"
  | .unsupportedVersion v => s!"unsupported stream version {v}"
  | .invalidTag b => "invalid tag 0x" ++ Text.Hex.padded 2 b.toNat
  | .unexpectedTag b => "unexpected tag 0x" ++ Text.Hex.padded 2 b.toNat
  | .unexpectedEnd => "unexpected end of stream"
  | .trailingBytes n => s!"{n} trailing byte(s) after the value"
  | .invalidUtf8 f => s!"invalid utf-8: {f.message}"
  | .idTooLong i => s!"field name or class id too long: {i}"
  | .invalidIdReference n => s!"invalid short string reference {n}"
  | .invalidObjectReference n => s!"invalid object reference {n}"
  | .tooLarge n => s!"length {n} is too large"
  | .tooManyFields t => s!"'{t}' has too many fields"
  | .componentMismatch => "array element does not match component type"
  | .missingField i => s!"missing field '{i}'"
  | .wrongFieldType i => s!"field '{i}' has the wrong type"
  | .wrongValueType e f => s!"expected a value of type {e.name}, found {f.name}"
  | .unsupported w => s!"can't deserialize {w}"

end ScriptStore.Codec
