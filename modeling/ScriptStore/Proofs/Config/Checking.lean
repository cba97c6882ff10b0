import ScriptStore.Config.Rule
import ScriptStore.Proofs.Config.Upkeep
import ScriptStore.Proofs.Text.Case

/-!
# Rules and what they find

A check goes through a section twice. Each rule looks its key up, as everyone who reads the section
does, so a key is found in whatever case its letters are. Then every node is held against the keys of
the rules, and here only the letters `A` to `Z` may differ in case. So there are nodes that a rule has
found and that no rule is taken to speak of (`Rules.Overlooks`), and each of them is reported.

But for these nodes a check finds nothing exactly if the section is as the rules say
(`Rules.Satisfied`). Where all keys are ASCII texts there are none.
-/

namespace ScriptStore.Config

/-- Whether a node is of the kind that a rule asks for. -/
def Node.hasKind (n : Node) : Expected → Bool
  | .entry => n.isEntry
  | .section => n.isSection

/-- Whether a rule is content with what stands under its key, or with nothing there. -/
def Rule.Met (r : Rule) (s : Section) : Prop :=
  match s.get? r.key with
  | none => r.optional = true
  | some n => n.hasKind r.expected = true

theorem Rule.check_eq_nil_iff (r : Rule) (s : Section) : r.check s = [] ↔ r.Met s := by
  unfold Rule.check Rule.Met Node.hasKind
  cases s.get? r.key with
  | none => simp
  | some n => cases r.expected <;> simp

namespace Rules

variable {r : Rules} {s : Section} {n : Node}

/-- Whether the key of a rule leads to the node, or would if no other node hid it. -/
def Names (r : Rules) (n : Node) : Prop := ∃ rule ∈ r.rules, n.goesBy rule.key = true

/-- What the rules say of a section: each finds what it asks for, and there are no nodes but those that
a rule names and those that are allowed anyway. -/
structure Satisfied (r : Rules) (s : Section) : Prop where
  met : ∀ rule ∈ r.rules, rule.Met s
  known : ∀ n ∈ s.content, r.Names n ∨ r.allowsUncovered n = true

/-- Whether a rule names the node, but only by letters other than `A` to `Z`. -/
def Overlooks (r : Rules) (n : Node) : Prop :=
  r.Names n ∧ ∀ rule ∈ r.rules, ∀ key ∈ n.key, Text.sameIgnoringAsciiCase rule.key key = false

/-- The nodes that are reported as unexpected. -/
def strays (r : Rules) (s : Section) : List Node :=
  s.content.filter fun n => !r.covers n && !r.allowsUncovered n

theorem mem_strays :
    n ∈ r.strays s ↔ n ∈ s.content ∧ r.covers n = false ∧ r.allowsUncovered n = false := by
  rw [strays, List.mem_filter, Bool.and_eq_true, Bool.not_eq_true', Bool.not_eq_true']

theorem covers_iff :
    r.covers n = true ↔ ∃ rule ∈ r.rules, ∃ key ∈ n.key,
      n.isNamed = true ∧ Text.sameIgnoringAsciiCase rule.key key = true := by
  unfold covers
  cases n.key with
  | none => simp
  | some key =>
    simp only [Bool.and_eq_true, List.any_eq_true, Option.mem_def, Option.some.injEq,
      exists_eq_left']
    constructor
    · rintro ⟨hnamed, rule, hrule, hsame⟩
      exact ⟨rule, hrule, hnamed, hsame⟩
    · rintro ⟨rule, hrule, hnamed, hsame⟩
      exact ⟨hnamed, rule, hrule, hsame⟩

theorem goesBy_iff_lowercase {key : String} :
    n.goesBy key = true ↔ n.isNamed = true ∧ ∃ k ∈ n.key, Text.lowercase k = Text.lowercase key := by
  rw [Node.goesBy, Bool.and_eq_true, Option.any_eq_true, Node.isNamed]
  simp only [Option.mem_def, beq_iff_eq]

/-- A node that a rule is taken to speak of is one that it names. -/
theorem names_of_covers (h : r.covers n = true) : r.Names n := by
  obtain ⟨rule, hrule, key, hkey, hnamed, hsame⟩ := covers_iff.1 h
  exact ⟨rule, hrule, goesBy_iff_lowercase.2 ⟨hnamed, key, hkey, (Text.lowercase_eq_of_same hsame).symm⟩⟩

/-- The nodes that some rule names are covered, but for those that are overlooked. -/
theorem overlooks_iff : r.Overlooks n ↔ r.Names n ∧ r.covers n = false := by
  refine and_congr_right fun hnames => ?_
  obtain ⟨_, _, hgoes⟩ := hnames
  have hnamed := (goesBy_iff_lowercase.1 hgoes).1
  rw [← Bool.not_eq_true, covers_iff]
  constructor
  · rintro hnone ⟨rule, hrule, key, hkey, _, hsame⟩
    rw [hnone rule hrule key hkey] at hsame
    cases hsame
  · intro hnot rule hrule key hkey
    exact Bool.eq_false_iff.2 fun hsame => hnot ⟨rule, hrule, key, hkey, hnamed, hsame⟩

theorem not_overlooks_of_ascii (hrules : ∀ rule ∈ r.rules, Text.isAscii rule.key = true)
    (hkey : ∀ key ∈ n.key, Text.isAscii key = true) : ¬r.Overlooks n := by
  rintro ⟨⟨rule, hrule, hgoes⟩, hnone⟩
  obtain ⟨_, key, hk, hlower⟩ := goesBy_iff_lowercase.1 hgoes
  have hsame := (Text.sameIgnoringAsciiCase_iff_lowercase (hrules rule hrule) (hkey key hk)).2 hlower.symm
  rw [hnone rule hrule key hk] at hsame
  cases hsame

/-- A check finds nothing if every rule is met and there are no strays. -/
theorem check_eq_nil_iff_strays :
    r.check s = [] ↔ (∀ rule ∈ r.rules, rule.Met s) ∧ r.strays s = [] := by
  have hcheck : r.check s = r.rules.flatMap (·.check s) ++ (r.strays s).map unexpected := rfl
  rw [hcheck, List.append_eq_nil_iff, List.flatMap_eq_nil_iff, List.map_eq_nil_iff]
  simp only [Rule.check_eq_nil_iff]

/-- There are no strays if every node is named or allowed, and those that are overlooked are allowed. -/
theorem strays_eq_nil_iff :
    r.strays s = [] ↔ (∀ n ∈ s.content, r.Names n ∨ r.allowsUncovered n = true) ∧
      ∀ n ∈ s.content, r.Overlooks n → r.allowsUncovered n = true := by
  rw [List.eq_nil_iff_forall_not_mem, ← forall₂_and]
  refine forall_congr' fun n => ?_
  rw [mem_strays, not_and]
  refine imp_congr_right fun _ => ?_
  rw [overlooks_iff]
  cases hallowed : r.allowsUncovered n with
  | true => simp
  | false =>
    have hnames := @names_of_covers r n
    cases hcovers : r.covers n with
    | true => simpa using hnames hcovers
    | false => simp

/-- What is found by a key goes by it, and is no void node. -/
theorem goesBy_of_get? {level : Nat} (hs : s.Tidy level) {key : String} (h : s.get? key = some n) :
    n ∈ s.content ∧ n.goesBy key = true := by
  have hgoes := Node.goesBy_iff.2 (hs.name?_of_get? h)
  have hnamed := (goesBy_iff_lowercase.1 hgoes).1
  refine ⟨List.mem_filter.2 ⟨Section.mem_of_get? h, ?_⟩, hgoes⟩
  cases n with
  | leaf h content =>
    cases content with
    | void => cases hnamed
    | _ => rfl
  | block => rfl

/-- **When a check finds nothing.** Behind what the rules find there is one finding for each stray. A
check finds nothing exactly if the section is as the rules say and every node that is overlooked is of
a kind that is allowed anyway. A node that a rule has found is a stray if, and only if, it is overlooked
and not allowed; where the keys of rules and nodes are ASCII texts, nothing is overlooked, and the check
finds nothing exactly if the section is as the rules say. -/
theorem check_finds_nothing_iff (r : Rules) (s : Section) :
    (r.check s = r.rules.flatMap (·.check s) ++ (r.strays s).map unexpected) ∧
    (r.check s = [] ↔ r.Satisfied s ∧ ∀ n ∈ s.content, r.Overlooks n → r.allowsUncovered n = true) ∧
    (∀ level, s.Tidy level → ∀ rule ∈ r.rules, ∀ n, s.get? rule.key = some n →
      (n ∈ r.strays s ↔ r.Overlooks n ∧ r.allowsUncovered n = false)) ∧
    ((∀ rule ∈ r.rules, Text.isAscii rule.key = true) →
      (∀ n ∈ s.content, ∀ key ∈ n.key, Text.isAscii key = true) → (r.check s = [] ↔ r.Satisfied s)) := by
  have hiff : r.check s = [] ↔
      r.Satisfied s ∧ ∀ n ∈ s.content, r.Overlooks n → r.allowsUncovered n = true := by
    rw [check_eq_nil_iff_strays, strays_eq_nil_iff, ← and_assoc]
    exact and_congr_left' ⟨fun h => ⟨h.1, h.2⟩, fun h => ⟨h.met, h.known⟩⟩
  refine ⟨rfl, hiff, fun level hs rule hrule n hn => ?_, fun hrules hkeys => ?_⟩
  · obtain ⟨hcontent, hgoes⟩ := goesBy_of_get? hs hn
    rw [mem_strays, overlooks_iff]
    constructor
    · rintro ⟨_, hcovers, hallowed⟩
      exact ⟨⟨⟨rule, hrule, hgoes⟩, hcovers⟩, hallowed⟩
    · rintro ⟨⟨_, hcovers⟩, hallowed⟩
      exact ⟨hcontent, hcovers, hallowed⟩
  · rw [hiff, and_iff_left_iff_imp]
    intro _ n hn hover
    exact absurd hover (not_overlooks_of_ascii hrules (hkeys n hn))

/-- An entry whose key is a capital beyond `Z`, on the first line. -/
def accented : Node := .leaf { key := some "É", line := some 1 } (.entry "1")

/-- A rule that asks for it by the small letter. -/
def accentedRule : Rule := ⟨"é", .entry, false⟩

theorem get?_accented : (Section.ofNodes [accented]).get? "é" = some accented := by cbv

/-- The entry is found and would be reported, were other entries not allowed. -/
theorem check_finds_nothing_iff_accented :
    Rules.check ⟨[accentedRule], true, false⟩ (.ofNodes [accented]) = [] ∧
      Rules.Overlooks ⟨[accentedRule], true, false⟩ accented := by
  have hover : Rules.Overlooks ⟨[accentedRule], true, false⟩ accented := by
    refine overlooks_iff.2 ⟨⟨accentedRule, .head _, ?_⟩, ?_⟩ <;> cbv
  refine ⟨(check_finds_nothing_iff _ _).2.1.2 ⟨⟨?_, ?_⟩, ?_⟩, hover⟩
  · refine List.forall_mem_singleton.2 ?_
    rw [Rule.Met, accentedRule, get?_accented]
    rfl
  · exact List.forall_mem_singleton.2 (.inl hover.1)
  · exact List.forall_mem_singleton.2 fun _ => rfl

/-- **A check can report the very node that a rule has found.** The section is as the rule says. -/
theorem check_reports_found_entry :
    (Section.ofNodes [accented]).get? "é" = some accented ∧
      Rules.Satisfied { rules := [accentedRule] } (.ofNodes [accented]) ∧
      Rules.check { rules := [accentedRule] } (.ofNodes [accented])
        = [⟨.error, "Unexpected entry 'É'. Check whether it's spelled correctly or remove it.", some 1⟩] := by
  refine ⟨get?_accented, ⟨List.forall_mem_singleton.2 ?_, List.forall_mem_singleton.2 (.inl ?_)⟩, by cbv⟩
  · rw [Rule.Met, accentedRule, get?_accented]
    rfl
  · exact ⟨accentedRule, .head _, by cbv⟩

end Rules

end ScriptStore.Config
