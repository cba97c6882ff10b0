import ScriptStore.Config.Section

/-!
# Rules for sections

Which entries and subsections a section must or may have. A check reports what is missing or of
the wrong kind, rule by rule, and then every node that no rule speaks of.
-/

namespace ScriptStore.Config

inductive Expected where
  | entry
  | section
  deriving DecidableEq

structure Rule where
  key : String
  expected : Expected
  optional : Bool

structure Rules where
  rules : List Rule
  allowOtherEntries : Bool := false
  allowOtherSections : Bool := false

/-- What a rule has to say about a section. -/
def Rule.check (r : Rule) (s : Section) : List Diagnostic :=
  match s.get? r.key, r.expected with
  | none, expected =>
    if r.optional then []
    else
      let what := match expected with
        | .entry => "entry"
        | .section => "section"
      [⟨.error, s!"Required {what} '{r.key}' is missing", none⟩]
  | some n, .entry =>
    if n.isEntry then []
    else [⟨.error, s!"'{r.key}' is not an entry (like '{r.key}: value')", n.line⟩]
  | some n, .section =>
    if n.isSection then []
    else
      [⟨.error,
        s!"'{r.key}' is not a section (like '{r.key}:' followed by one or more indented lines)",
        n.line⟩]

namespace Rules

/-- Whether some rule is about the node. -/
def covers (r : Rules) (n : Node) : Bool :=
  match n.key with
  | none => false
  | some key => n.isNamed && r.rules.any fun rule => Text.sameIgnoringAsciiCase rule.key key

def allowsUncovered (r : Rules) (n : Node) : Bool :=
  n.isEntry && r.allowOtherEntries || n.isSection && r.allowOtherSections

def unexpected (n : Node) : Diagnostic :=
  let message := match n.key with
    | some key => s!"Unexpected entry '{key}'. Check whether it's spelled correctly or remove it."
    | none => "Unexpected line"
  ⟨.error, message, n.line⟩

/-- The findings about a section; none if it is as it should be. -/
def check (r : Rules) (s : Section) : List Diagnostic :=
  r.rules.flatMap (·.check s) ++
    (s.content.filter fun n => !r.covers n && !r.allowsUncovered n).map unexpected

end Rules

end ScriptStore.Config
