import ScriptStore.Pattern.Error
import ScriptStore.Text.Hex
import ScriptStore.Text.Split

/-!
# Reading patterns

The written form of regular expressions: alternatives divided by `|`, groups in parentheses, which
may switch flags, sets in brackets, the repetitions `*`, `+`, `?` and counted ones in braces, and
escapes. Every function takes the text that is left and gives what it read and what is left then;
each step takes at least one character, so the length of the text is fuel enough. What is read comes
with the depth of its nesting, which is limited.
-/

namespace ScriptStore.Pattern

structure Flags where
  ignoreCase : Bool := false
  dotMatchesNewline : Bool := false
  multiLine : Bool := false

abbrev Step (α : Type) := Except Error (α × List Char)

/-! ## Escapes -/

/-- What a backslash escapes. -/
inductive Escape where
  | char (c : Char)
  | set (s : CharSet)
  | place (p : Place)

/-- Characters written by their code point, with two, four or eight digits or in braces. -/
def codePoint (digits : Nat) (s : List Char) : Step Escape :=
  let value (ds : List Char) : Except Error Escape :=
    match ds.mapM Text.Hex.digit? with
    | some (d :: ds) =>
      let n := (d :: ds).foldl (fun n d => 16 * n + d) 0
      if n.isValidChar then .ok (.char (Char.ofNat n)) else .error .invalidEscape
    | _ => .error .invalidEscape
  match s with
  | '\x7b' :: rest =>
    match rest.dropWhile (· != '\x7d') with
    | _ :: after => (value (rest.takeWhile (· != '\x7d'))).map (·, after)
    | [] => .error .invalidEscape
  | _ =>
    if (s.take digits).length < digits then .error .invalidEscape
    else (value (s.take digits)).map (·, s.drop digits)

def escape : List Char → Step Escape
  | [] => .error .invalidEscape
  | c :: rest =>
    match c with
    | 'd' => .ok (.set .digit, rest)
    | 'D' => .ok (.set CharSet.digit.complement, rest)
    | 's' => .ok (.set .blank, rest)
    | 'S' => .ok (.set CharSet.blank.complement, rest)
    | 'w' => .ok (.set .word, rest)
    | 'W' => .ok (.set CharSet.word.complement, rest)
    | 'b' => .ok (.place (.wordBoundary false), rest)
    | 'B' => .ok (.place (.wordBoundary true), rest)
    | 'A' => .ok (.place .textStart, rest)
    | 'z' => .ok (.place .textEnd, rest)
    | 'a' => .ok (.char '\x07', rest)
    | 'f' => .ok (.char '\x0c', rest)
    | 't' => .ok (.char '\t', rest)
    | 'n' => .ok (.char '\n', rest)
    | 'r' => .ok (.char '\r', rest)
    | 'v' => .ok (.char '\x0b', rest)
    | 'x' => codePoint 2 rest
    | 'u' => codePoint 4 rest
    | 'U' => codePoint 8 rest
    | c =>
      if c.isAlphanum || c == '<' || c == '>' || 0x7F ≤ c.toNat then .error .invalidEscape
      else .ok (.char c, rest)

/-! ## Sets -/

/-- Sets by name, of common characters only. -/
def namedSet? (name : String) : Option CharSet :=
  let r (a b : Char) : CharSet := .range a b
  let letters := CharSet.union (r 'a' 'z') (r 'A' 'Z')
  match name with
  | "alpha" => some letters
  | "digit" => some (r '0' '9')
  | "alnum" => some (.union letters (r '0' '9'))
  | "lower" => some (r 'a' 'z')
  | "upper" => some (r 'A' 'Z')
  | "word" => some (.union (.union letters (r '0' '9')) (.single '_'))
  | "space" => some (.union (r '\t' '\r') (.single ' '))
  | "blank" => some (.union (.single '\t') (.single ' '))
  | "xdigit" => some (.union (r '0' '9') (.union (r 'a' 'f') (r 'A' 'F')))
  | "punct" => some (.union (.union (r '!' '/') (r ':' '@')) (.union (r '[' '\x60') (r '\x7b' '~')))
  | "cntrl" => some (.union (r '\x00' '\x1f') (.single '\x7f'))
  | "graph" => some (r '!' '~')
  | "print" => some (r ' ' '~')
  | "ascii" => some (r '\x00' '\x7f')
  | _ => none

/-- A set by name between colons, such as `:digit:`, with its closing bracket. It is negated after
case is ignored. -/
def namedSet (ignoreCase : Bool) (s : List Char) : Option (CharSet × List Char) :=
  match s with
  | ':' :: rest =>
    let (negated, rest) := match rest with
      | '^' :: rest => (true, rest)
      | _ => (false, rest)
    match rest.dropWhile (· != ':') with
    | ':' :: ']' :: after =>
      (namedSet? (String.ofList (rest.takeWhile (· != ':')))).map fun set =>
        ((set.foldedIf ignoreCase).complementIf negated, after)
    | _ => none
  | _ => none

/-- One end of a range, or a set that stands inside a set. -/
def setItem : List Char → Step (Char ⊕ CharSet)
  | [] => .error .unclosedSet
  | '\\' :: rest =>
    match escape rest with
    | .ok (.char c, rest) => .ok (.inl c, rest)
    | .ok (.set s, rest) => .ok (.inr s, rest)
    | .ok (.place _, _) => .error .invalidEscape
    | .error e => .error e
  | c :: rest => .ok (.inl c, rest)

/-- How two parts of a set are joined. -/
inductive SetOp where
  | inter
  | difference
  | symmetricDifference

def SetOp.join : SetOp → CharSet → CharSet → CharSet
  | .inter => .inter
  | .difference => .difference
  | .symmetricDifference => .symmetricDifference

/-- The operator that a text begins with. -/
def setOp? : List Char → Option (SetOp × List Char)
  | '&' :: '&' :: rest => some (.inter, rest)
  | '-' :: '-' :: rest => some (.difference, rest)
  | '~' :: '~' :: rest => some (.symmetricDifference, rest)
  | _ => none

/-- A set together with the depth of its nesting. -/
abbrev DeepSet := CharSet × Nat

/-- The union of the items that stand side by side, the last first. -/
def unionOf : List DeepSet → DeepSet
  | [] => (.none, 0)
  | [item] => item
  | items => (.unionOf (items.map (·.1)), items.foldl (fun n i => max n i.2) 0 + 1)

/-- The part of a set that has been read: the items since the last operator, the last first, and
what stands before it. -/
structure SetProgress where
  left : Option (SetOp × DeepSet) := none
  items : List DeepSet := []

namespace SetProgress

def push (p : SetProgress) (set : CharSet) (depth : Nat := 0) : SetProgress :=
  { p with items := (set, depth) :: p.items }

/-- The set so far. Operators join from the left, and each joins sets up to case. -/
def close (ignoreCase : Bool) (p : SetProgress) : DeepSet :=
  let (right, n) := unionOf p.items
  match p.left with
  | none => (right, n)
  | some (op, left, m) => (op.join (left.foldedIf ignoreCase) (right.foldedIf ignoreCase), max m n + 1)

end SetProgress

/-- The beginning of a set after its opening bracket: whether it is negated, and the hyphens, or the
closing bracket, that are items because they come first. -/
def setFront (s : List Char) : Bool × SetProgress × List Char :=
  let (negated, s) := match s with
    | '^' :: rest => (true, rest)
    | _ => (false, s)
  match s.takeWhile (· == '-'), s with
  | [], ']' :: rest => (negated, SetProgress.push {} (.single ']'), rest)
  | hyphens, _ =>
    (negated, hyphens.foldl (fun p c => p.push (.single c)) {}, s.dropWhile (· == '-'))

/-- The rest of a set, up to its closing bracket. -/
def setRest (ignoreCase : Bool) : (fuel : Nat) → (negated : Bool) → SetProgress → List Char →
    Step DeepSet
  | 0, _, _, _ => .error .unclosedSet
  | _, _, _, [] => .error .unclosedSet
  | fuel + 1, negated, p, c :: rest =>
    if c == ']' then
      let (set, depth) := p.close ignoreCase
      .ok (((set.foldedIf ignoreCase).complementIf negated, depth + 1), rest)
    else if c == '[' then
      match namedSet ignoreCase rest with
      | some (inner, rest) => setRest ignoreCase fuel negated (p.push inner) rest
      | none =>
        let (innerNegated, inner, rest) := setFront rest
        match setRest ignoreCase fuel innerNegated inner rest with
        | .error e => .error e
        | .ok ((set, depth), rest) => setRest ignoreCase fuel negated (p.push set depth) rest
    else
      match setOp? (c :: rest) with
      | some (op, rest) =>
        setRest ignoreCase fuel negated { left := some (op, p.close ignoreCase) } rest
      | none =>
        match setItem (c :: rest) with
        | .error e => .error e
        | .ok (low, rest) =>
          let alone := match low with
            | .inl c => CharSet.single c
            | .inr set => set
          match rest with
          | [] => .error .unclosedSet
          | ['-'] => .error .unclosedSet
          | '-' :: d :: after =>
            if d == ']' || d == '-' then setRest ignoreCase fuel negated (p.push alone) rest
            else
              match low, setItem (d :: after) with
              | .inl low, .ok (.inl high, rest) =>
                if high < low then .error .invalidRange
                else setRest ignoreCase fuel negated (p.push (.range low high)) rest
              | _, .error e => .error e
              | _, _ => .error .invalidRange
          | _ => setRest ignoreCase fuel negated (p.push alone) rest

/-- A set after its opening bracket. -/
def bracketed (ignoreCase : Bool) (fuel : Nat) (s : List Char) : Step DeepSet :=
  let (negated, p, rest) := setFront s
  setRest ignoreCase fuel negated p rest

/-! ## Repetition -/

/-- A question mark after a repetition changes which match is preferred, not whether there is one. -/
def skipPreference : List Char → List Char
  | '?' :: rest => rest
  | s => s

/-- The bounds between braces. -/
def counts (s : List Char) : Step (Nat × Option Nat) :=
  let number (ds : List Char) : Option Nat :=
    let ds := Text.trim ds
    if ds.isEmpty || !ds.all Text.isDigit then none else some (Text.natOfDigits ds)
  match s.dropWhile (· != '\x7d') with
  | [] => .error .invalidCount
  | _ :: rest =>
    match Text.splitWhere (· == ',') (s.takeWhile (· != '\x7d')) with
    | [n] =>
      match number n with
      | some n => .ok ((n, some n), rest)
      | none => .error .invalidCount
    | [low, high] =>
      match number low, Text.trim high with
      | some low, [] => .ok ((low, none), rest)
      | some low, high =>
        match number high with
        | some high => if high < low then .error .invalidCount else .ok ((low, some high), rest)
        | none => .error .invalidCount
      | none, _ => .error .invalidCount
    | _ => .error .invalidCount

/-- The repetition that a text begins with. -/
def repetition? : List Char → Option (Step (Nat × Option Nat))
  | '*' :: rest => some (.ok ((0, none), skipPreference rest))
  | '+' :: rest => some (.ok ((1, none), skipPreference rest))
  | '?' :: rest => some (.ok ((0, some 1), skipPreference rest))
  | '\x7b' :: rest => some ((counts rest).map fun (bounds, rest) => (bounds, skipPreference rest))
  | _ => none

/-! ## Groups -/

/-- What follows an opening parenthesis. -/
inductive Opening where
  /-- A group whose inside has these flags, and whether its match is kept. -/
  | group (flags : Flags) (kept : Bool)
  /-- New flags for the rest of the group around. -/
  | switch (flags : Flags)

def flagLetters (negated : Bool) : Flags → List Char → Step Opening
  | _, [] => .error .unclosedGroup
  | flags, ')' :: rest => .ok (.switch flags, rest)
  | flags, ':' :: rest => .ok (.group flags false, rest)
  | flags, '-' :: rest => if negated then .error .unknownGroup else flagLetters true flags rest
  | flags, 'i' :: rest => flagLetters negated { flags with ignoreCase := !negated } rest
  | flags, 's' :: rest => flagLetters negated { flags with dotMatchesNewline := !negated } rest
  | flags, 'm' :: rest => flagLetters negated { flags with multiLine := !negated } rest
  | flags, 'u' :: rest => flagLetters negated flags rest
  | flags, 'U' :: rest => flagLetters negated flags rest
  | _, _ => .error .unknownGroup

/-- The rest of a group's name, after which the group begins. -/
def groupName (flags : Flags) (s : List Char) : Step Opening :=
  let name := s.takeWhile (· != '>')
  match s.dropWhile (· != '>') with
  | _ :: rest =>
    if name.isEmpty || !name.all Text.isWord then .error .unknownGroup
    else .ok (.group flags true, rest)
  | [] => .error .unknownGroup

def opening (flags : Flags) : List Char → Step Opening
  | '?' :: 'P' :: '<' :: rest => groupName flags rest
  | '?' :: '<' :: rest => groupName flags rest
  | '?' :: ')' :: _ => .error .unknownGroup
  | '?' :: rest => flagLetters false flags rest
  | s => .ok (.group flags true, s)

/-- A part of an expression, with the depth of its nesting. -/
structure Part where
  expr : Expr
  depth : Nat := 0
  /-- Whether a repetition may follow. -/
  repeatable : Bool := true

/-- Joins what stands side by side, the last first. -/
def concat : List Part → Part
  | [] => ⟨.empty, 0, false⟩
  | [part] => part
  | parts =>
    ⟨.sequence (parts.foldl (fun after part => part.expr :: after) []),
      parts.foldl (fun n part => max n part.depth) 0 + 1, true⟩

/-- Joins alternatives, the last first. -/
def alternation : List Part → Part
  | [] => ⟨.empty, 0, false⟩
  | [part] => part
  | parts =>
    ⟨.choice (parts.foldl (fun after part => part.expr :: after) []),
      parts.foldl (fun n part => max n part.depth) 0 + 1, true⟩

/-- The deepest nesting that is read. -/
def maxDepth : Nat := 250

/-- The alternatives up to the end of the text or of the group, the closing parenthesis left.
`earlier` are the alternatives before the current one, of which `parts` have been read; both have
the last first. At most `levels` more groups may be nested. -/
def alternatives : (fuel : Nat) → (levels : Nat) → Flags → (earlier parts : List Part) →
    List Char → Step Part
  | 0, _, _, earlier, parts, s => .ok (alternation (concat parts :: earlier), s)
  | _, _, _, earlier, parts, [] => .ok (alternation (concat parts :: earlier), [])
  | fuel + 1, levels, flags, earlier, parts, c :: rest =>
    match repetition? (c :: rest) with
    | some (.error e) => .error e
    | some (.ok ((min, max), rest)) =>
      match parts with
      | [] => .error .missingOperand
      | last :: parts =>
        if !last.repeatable then .error .missingOperand
        else if maxDepth ≤ last.depth then .error .nestedTooDeep
        else
          alternatives fuel levels flags earlier
            (⟨last.expr.repeated min max, last.depth + 1, true⟩ :: parts) rest
    | none =>
      let next (e : Expr) (rest : List Char) : Step Part :=
        alternatives fuel levels flags earlier ({ expr := e } :: parts) rest
      match c with
      | ')' => .ok (alternation (concat parts :: earlier), c :: rest)
      | '|' => alternatives fuel levels flags (concat parts :: earlier) [] rest
      | '(' =>
        match opening flags rest, levels with
        | .error e, _ => .error e
        | .ok (.switch flags, rest), levels =>
          alternatives fuel levels flags earlier (⟨.empty, 0, false⟩ :: parts) rest
        | .ok (.group _ _, _), 0 => .error .nestedTooDeep
        | .ok (.group inner kept, rest), levels + 1 =>
          match alternatives fuel levels inner [] [] rest with
          | .error e => .error e
          | .ok (part, ')' :: rest) =>
            let expr := if kept then .group part.expr else part.expr
            alternatives fuel (levels + 1) flags earlier (⟨expr, part.depth + 1, true⟩ :: parts) rest
          | .ok _ => .error .unclosedGroup
      | '[' =>
        match bracketed flags.ignoreCase fuel rest with
        | .error e => .error e
        | .ok ((set, depth), rest) =>
          alternatives fuel levels flags earlier (⟨.oneOf set, depth, true⟩ :: parts) rest
      | '\\' =>
        match escape rest with
        | .error e => .error e
        | .ok (.char c, rest) => next (.oneOf (.ofChar flags.ignoreCase c)) rest
        | .ok (.set s, rest) => next (.oneOf s) rest
        | .ok (.place p, rest) => next (.place p) rest
      | '.' => next (.oneOf (if flags.dotMatchesNewline then .any else .inLine)) rest
      | '^' => next (.place (if flags.multiLine then .lineStart else .textStart)) rest
      | '$' => next (.place (if flags.multiLine then .lineEnd else .textEnd)) rest
      | c => next (.oneOf (.ofChar flags.ignoreCase c)) rest

/-- The expression that a text writes. -/
def Expr.parse (text : String) : Except Error Expr :=
  match alternatives (text.length + 1) maxDepth {} [] [] text.toList with
  | .ok (part, []) => if part.depth ≤ maxDepth then .ok part.expr else .error .nestedTooDeep
  | .ok _ => .error .unopenedGroup
  | .error e => .error e

end ScriptStore.Pattern
