import ScriptStore.Notice
import ScriptStore.Types.ClassOrder
import ScriptStore.Types.Converter
import ScriptStore.Types.Settings

/-!
# The registry

Types, subtype declarations and converters are collected in a draft. Building it orders the types,
closes the converters, and checks that every type that is saved as another can be.
-/

namespace ScriptStore.Types

/-- A registry in the making. -/
structure Draft where
  settings : Settings
  hierarchy : Hierarchy := {}
  /-- In the order of registration. -/
  infos : List ClassInfo := []
  converters : List Converter := []

structure Registry where
  settings : Settings
  hierarchy : Hierarchy
  /-- In the order of trial. -/
  infos : List ClassInfo
  graph : Graph

namespace Registry

/-- The info registered for a kind. -/
def infoOf? (r : Registry) (k : Kind) : Option ClassInfo := r.infos.find? fun info => info.kind == k

/-- The info with a code name. -/
def info? (r : Registry) (code : String) : Option ClassInfo :=
  r.infos.find? fun info => info.code == code

/-- The first info that covers a kind. Subtypes come first, so it is a nearest one. -/
def nearest? (r : Registry) (k : Kind) : Option ClassInfo :=
  r.infos.find? fun info => r.hierarchy.assignable info.kind k

/-- The info that a user means. -/
def meant? (r : Registry) (input : String) : Option ClassInfo :=
  let input := Text.lowercase (Text.trimmed input)
  r.infos.find? fun info => info.isMeantBy input

/-- What is wrong with the kind as which values of `info` are saved. -/
def redirectFault? (r : Registry) (info : ClassInfo) : Option (Kind × RedirectFault) :=
  info.serializeAs.bind fun target =>
    match r.infoOf? target with
    | none => some (target, .notRegistered)
    | some other =>
      if other.serializer.isNone then some (target, .noSerializer)
      else if !r.graph.convertible info.kind target then some (target, .notConvertible)
      else none

def describe (r : Registry) : String :=
  let codes := r.infos.map fun info => Text.quoted info.code
  "TypeRegistry \x7b class_infos: [" ++ Text.join ", " codes ++ "], converters: " ++
    Text.natText r.graph.edges.length ++ ", .. \x7d"

end Registry

namespace Draft

def declareSubtype (d : Draft) (sub sup : Kind) : Except Error Draft :=
  (d.hierarchy.declare sub sup).map fun hierarchy => { d with hierarchy }

/-- Why an info cannot stand beside those registered before. -/
def duplicate? (d : Draft) (info : ClassInfo) : Option Error :=
  match d.infos.find? fun other => other.code == info.code with
  | some other => some (.duplicateCode info.code info.kind other.kind)
  | none =>
    if d.infos.any fun other => other.kind == info.kind then
      some (.duplicateKind info.code info.kind)
    else none

/-- Registers an info. A duplicate is an error, or, unless settings are strict, ignored with a
warning. -/
def register (d : Draft) (info : ClassInfo) : Logged (Except Error Draft) :=
  match d.duplicate? info with
  | some e =>
    if d.settings.strict then pure (.error e)
    else do
      Logged.warn s!"{e.message}; ignoring the registration"
      return .ok d
  | none =>
    if maxCodeLength < info.code.utf8ByteSize then pure (.error (.codeTooLong info.code))
    else pure (.ok { d with infos := d.infos ++ [info] })

def addConverter (d : Draft) (c : Converter) : Draft :=
  { d with converters := d.converters ++ [c] }

def build (d : Draft) : Except Error Registry := do
  let infos ← ClassOrder.sort d.hierarchy d.infos
  let r : Registry := ⟨d.settings, d.hierarchy, infos, Graph.build d.hierarchy d.converters⟩
  match infos.findSome? fun info => (r.redirectFault? info).map (info.code, ·) with
  | some (code, target, fault) => throw (.invalidRedirect code target fault)
  | none => return r

end Draft

end ScriptStore.Types
