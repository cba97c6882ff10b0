import ScriptStore.Types.Registry

/-!
# Parsing through the registry

A text is offered to the parsers of all types that the wanted kind covers, in the order of trial,
until one gives a value of that kind. If none does, it is offered for the sources of converters
that lead there. What a failed attempt had to warn about is dropped; its best error is kept.
-/

namespace ScriptStore.Types.Registry

/-- Whether the parser of an info may be asked for a value of kind `target`. -/
def asks (r : Registry) (target : Kind) (context : Context) (info : ClassInfo) (p : Parser) : Bool :=
  p.canParse context && r.hierarchy.assignable target info.kind &&
    !(info.family.any r.settings.isDisabled)

/-- Asks the parsers of some infos in turn. -/
def tryInfos (r : Registry) (input : String) (target : Kind) (context : Context) :
    List ClassInfo → (attempt : ParseLog) → Option Value × ParseLog
  | [], attempt => (none, attempt)
  | info :: rest, attempt =>
    match info.parser with
    | none => tryInfos r input target context rest attempt
    | some p =>
      if r.asks target context info p then
        let (v, reports) := p.parse input context
        let attempt := attempt.clear.recordAll reports
        match v with
        | some v =>
          if r.hierarchy.isInstance target v then (some v, attempt)
          else tryInfos r input target context rest attempt
        | none => tryInfos r input target context rest attempt
      else tryInfos r input target context rest attempt

/-- Hands on to `log` what an attempt has to say. -/
def conclude (outcome : Option Value × ParseLog) (log : ParseLog) : Option Value × ParseLog :=
  match outcome with
  | (some v, attempt) => (some v, attempt.printWarnings log)
  | (none, attempt) => (none, attempt.printError log none)

/-- Parses without converters. -/
def parseSimple (r : Registry) (input : String) (target : Kind) (context : Context)
    (log : ParseLog) : Option Value × ParseLog :=
  conclude (r.tryInfos input target context r.infos {}) log

/-- Parses for the source of each converter that leads to `target`, and converts. -/
def tryConverters (r : Registry) (input : String) (target : Kind) (context : Context) :
    List Converter → (attempt : ParseLog) → Option Value × ParseLog
  | [], attempt => (none, attempt)
  | e :: rest, attempt =>
    if context == .command && e.restrictions.noCommands || !r.hierarchy.assignable target e.target then
      tryConverters r input target context rest attempt
    else
      let (v, attempt) := r.parseSimple input e.source context attempt.clear
      match v.bind e.convert with
      | some w => (some w, attempt)
      | none => tryConverters r input target context rest attempt

/-- Parses, if need be with a converter. -/
def parse (r : Registry) (input : String) (target : Kind) (context : Context) (log : ParseLog) :
    Option Value × ParseLog :=
  let (v, attempt) := r.parseSimple input target context {}
  match v with
  | some v => conclude (some v, attempt) log
  | none => conclude (r.tryConverters input target context r.graph.edges attempt) log

/-- The parser of the last info in the order of trial that `k` covers and that has one. -/
def parserOf? (r : Registry) (k : Kind) : Option Parser :=
  (r.infos.reverse.filter fun info => r.hierarchy.assignable k info.kind).findSome? (·.parser)

/-- A parser for values of a kind, if need be with a converter behind it. -/
def parser? (r : Registry) (target : Kind) : Option Parser :=
  match r.parserOf? target with
  | some p => some p
  | none =>
    (r.graph.edges.filter fun e => r.hierarchy.assignable target e.target).findSome? fun e =>
      (r.parserOf? e.source).map fun p => p.followedBy e.convert

end ScriptStore.Types.Registry
