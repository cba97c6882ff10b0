import ScriptStore.Types.Hierarchy

/-!
# Converters

Conversions between kinds, and the graph of all of them. A converter that is narrower than another,
taking fewer values to a kind that covers the target of the other, stands before it. After that,
converters are chained where the target of one fits the source of the next, unless a converter
between related kinds is there already; what is chained takes part in further chains.
-/

namespace ScriptStore.Types

/-- Where a converter may not be used. -/
structure Restrictions where
  /-- Not after another converter. -/
  noLeftChaining : Bool := false
  /-- Not before another converter. -/
  noRightChaining : Bool := false
  /-- Not for the arguments of commands. -/
  noCommands : Bool := false
  deriving DecidableEq

namespace Restrictions

def bits (r : Restrictions) : Nat :=
  (if r.noLeftChaining then 1 else 0) + (if r.noRightChaining then 2 else 0) +
    (if r.noCommands then 4 else 0)

/-- The restrictions of both. -/
def union (a b : Restrictions) : Restrictions :=
  ⟨a.noLeftChaining || b.noLeftChaining, a.noRightChaining || b.noRightChaining,
    a.noCommands || b.noCommands⟩

def describe (r : Restrictions) : String :=
  let names := (if r.noLeftChaining then ["NO_LEFT_CHAINING"] else []) ++
    (if r.noRightChaining then ["NO_RIGHT_CHAINING"] else []) ++
    (if r.noCommands then ["NO_COMMAND_ARGUMENTS"] else [])
  let text := if names.isEmpty then "0x0" else Text.join " | " names
  s!"ConverterOptions({text})"

end Restrictions

structure Converter where
  source : Kind
  target : Kind
  convert : Value → Option Value
  restrictions : Restrictions
  /-- The place in the order of registration; chained converters are counted on. -/
  sequence : Nat
  /-- The kinds that a value passes through. -/
  chain : List Kind

namespace Converter

/-- A converter as it is registered. -/
def single (source target : Kind) (restrictions : Restrictions) (convert : Value → Option Value) :
    Converter :=
  ⟨source, target, convert, restrictions, 0, [source, target]⟩

/-- Continues a chain of kinds, leaving out a kind that it just reached. -/
def extendChain (chain more : List Kind) : List Kind :=
  more.foldl (fun chain k => if chain.getLast? == some k then chain else chain ++ [k]) chain

/-- First `a`, then `b`. -/
def andThen (a b : Converter) (sequence : Nat) : Converter where
  source := a.source
  target := b.target
  convert v := (a.convert v).bind b.convert
  restrictions := a.restrictions.union b.restrictions
  sequence := sequence
  chain := extendChain a.chain b.chain

def isChained (c : Converter) : Bool := 2 < c.chain.length

def describe (c : Converter) : String :=
  let path := Text.join " -> " (c.chain.map Kind.name)
  s!"ConverterInfo(#{c.sequence}: {path}, {c.restrictions.describe})"

/-- Whether `a` takes fewer values than `b`, to a kind that covers the target of `b`. -/
def narrows (h : Hierarchy) (a b : Converter) : Bool :=
  (b.source, b.target) != (a.source, a.target) && h.assignable b.source a.source &&
    h.assignable a.target b.target

/-- Puts a converter in front of the first one that it narrows, or at the end. -/
def insert (h : Hierarchy) (c : Converter) : List Converter → List Converter
  | [] => [c]
  | e :: rest => if c.narrows h e then c :: e :: rest else e :: insert h c rest

/-- Whether some converter leads from a relative of `source` to a relative of `target`. -/
def covers (h : Hierarchy) (edges : List Converter) (source target : Kind) : Bool :=
  edges.any fun e => h.related e.source source && h.related e.target target

/-- Whether `b` may follow `a` and leads somewhere new. -/
def chainable (h : Hierarchy) (edges : List Converter) (a b : Converter) : Bool :=
  !a.restrictions.noRightChaining && !b.restrictions.noLeftChaining &&
    h.assignable b.source a.target && a.source != b.target && !covers h edges a.source b.target

/-- The converter that the edges at places `i` and `j` give, in either order, if it is new. -/
def missing? (h : Hierarchy) (edges : List Converter) (sequence i j : Nat) : Option Converter :=
  match edges[i]?, edges[j]? with
  | some a, some b =>
    if chainable h edges a b then some (a.andThen b sequence)
    else if chainable h edges b a then some (b.andThen a sequence)
    else none
  | _, _ => none

/-- One more than the largest sequence number. -/
def nextSequence (edges : List Converter) : Nat :=
  edges.foldl (fun n e => max n (e.sequence + 1)) 0

/-- Adds what the edges at places `i` and `j` give. -/
def complete (h : Hierarchy) (edges : List Converter) (i j : Nat) : List Converter :=
  match missing? h edges (nextSequence edges) i j with
  | some c => edges ++ [c]
  | none => edges

/-- Pairs the edge at place `i` with every edge from place `j` on, new ones included. -/
def completeRow (h : Hierarchy) (i : Nat) : (fuel j : Nat) → List Converter → List Converter
  | 0, _, edges => edges
  | fuel + 1, j, edges =>
    if j < edges.length then completeRow h i fuel (j + 1) (complete h edges i j) else edges

/-- Pairs the edges from place `i` on with all edges. -/
def completeRows (h : Hierarchy) (limit : Nat) : (fuel i : Nat) → List Converter → List Converter
  | 0, _, edges => edges
  | fuel + 1, i, edges =>
    if i < edges.length then completeRows h limit fuel (i + 1) (completeRow h i limit 0 edges)
    else edges

/-- Chains converters until nothing is missing. Every new one leads from a source to a target
between which there was none, so no more than one for each such pair is added. -/
def close (h : Hierarchy) (edges : List Converter) : List Converter :=
  let limit := edges.length + edges.length * edges.length
  completeRows h limit limit 0 edges

end Converter

/-- All conversions of a registry. -/
structure Graph where
  hierarchy : Hierarchy
  edges : List Converter

namespace Graph

/-- The graph of converters given in the order of their registration. -/
def build (h : Hierarchy) (registered : List Converter) : Graph :=
  let numbered := registered.zipIdx.map fun (c, i) => { c with sequence := i }
  let edges := numbered.foldl (fun edges c => Converter.insert h c edges) []
  ⟨h, Converter.close h edges⟩

/-- Whether an edge takes all values of `source` to values of `target`. -/
def fits (g : Graph) (source target : Kind) (e : Converter) : Bool :=
  g.hierarchy.assignable e.source source && g.hierarchy.assignable target e.target

/-- An edge with checks on what goes in and what comes out. -/
def checked (g : Graph) (e : Converter) (input output : Option Kind) (v : Value) : Option Value :=
  let passes (k : Option Kind) (v : Value) : Bool :=
    match k with
    | none => true
    | some k => g.hierarchy.isInstance k v
  if !passes input v then none
  else
    match e.convert v with
    | none => none
    | some w => if passes output w then some w else none

/-- An edge that is too wide at one end only, with a check at that end. -/
def wideAtOneEnd? (g : Graph) (source target : Kind) (e : Converter) :
    Option (Value → Option Value) :=
  let h := g.hierarchy
  if h.assignable e.source source && h.assignable e.target target then
    some (g.checked e none (some target))
  else if h.assignable source e.source && h.assignable target e.target then
    some (g.checked e (some e.source) none)
  else none

/-- The first edge that fits without checks. -/
def fitting? (g : Graph) (source target : Kind) : Option Converter :=
  g.edges.find? (g.fits source target)

/-- A conversion, by an edge that fits, else by one too wide at one end, else by one too wide at
both. -/
def converter? (g : Graph) (source target : Kind) : Option (Value → Option Value) :=
  let h := g.hierarchy
  match g.fitting? source target with
  | some e => some e.convert
  | none =>
    match g.edges.findSome? (g.wideAtOneEnd? source target) with
    | some f => some f
    | none =>
      (g.edges.find? fun e => h.assignable source e.source && h.assignable e.target target).map
        fun e => g.checked e (some e.source) (some target)

/-- Whether values of one kind can become values of the other; related kinds always can. -/
def convertible (g : Graph) (source target : Kind) : Bool :=
  g.hierarchy.related source target || (g.converter? source target).isSome

/-- Converts a value; one that is already of the kind stays what it is. -/
def convert (g : Graph) (v : Value) (target : Kind) : Option Value :=
  if g.hierarchy.isInstance target v then some v
  else (g.converter? v.kind target).bind fun f => f v

/-- Converts to the first of several kinds that works. -/
def convertToAny (g : Graph) (v : Value) (targets : List Kind) : Option Value :=
  targets.findSome? (g.convert v)

/-- Converts all values, leaving out those that cannot be converted. -/
def convertAll (g : Graph) (vs : List Value) (target : Kind) : List Value :=
  vs.filterMap fun v => g.convert v target

/-- Converts by the first edge that fits without checks. -/
def convertUnchecked (g : Graph) (v : Value) (target : Kind) : Option Value :=
  if g.hierarchy.isInstance target v then some v
  else (g.fitting? v.kind target).bind fun e => e.convert v

/-- A value cannot become a value of the kind that was asked for. -/
structure Failure where
  source : Kind
  target : Kind
  deriving DecidableEq

def Failure.message (f : Failure) : String := s!"{f.source.name} can't be converted to {f.target.name}"

def convertStrictly (g : Graph) (v : Value) (target : Kind) : Except Failure Value :=
  match g.convert v target with
  | some w => .ok w
  | none => .error ⟨v.kind, target⟩

def describe (g : Graph) : String :=
  "ConverterGraph \x7b edges: [" ++ Text.join ", " (g.edges.map Converter.describe) ++ "], .. \x7d"

end Graph

end ScriptStore.Types
