import Mathlib
import ScriptStore.Proofs.Config.LineReader
import ScriptStore.Proofs.Config.Reading

/-!
# One node for every line

Loading makes one node of every line it takes, whether the line follows the rules or breaks them.
A walk through a document, every section before its block, meets the lines in the order in which
they stand in the source, and the errors that were reported are about the invalid nodes, in the
order of the walk.

`judge` says once what a line does to the section that reads it: it becomes a node, opens a section
below, or belongs to a section around. Loading acts on that, and so does `readSection`, which takes
the lines from a reader and gives a line back when it belongs to a section around. The reader holds
one line at a time; `readSection_eq` says that it never has to hold more.
-/

namespace ScriptStore.Config

open Text (trim)

/-! ## Walking through nodes -/

mutual

/-- The node, and behind it the nodes of its block. -/
def Node.walk : Node → List Node
  | .leaf h content => [.leaf h content]
  | .block h index level nodes => .block h index level nodes :: walkOf nodes

def walkOf : List Node → List Node
  | [] => []
  | n :: rest => n.walk ++ walkOf rest

end

/-- The line of every node on a walk, and whether the node is invalid. -/
def marks (nodes : List Node) : List (Option Nat × Bool) :=
  (walkOf nodes).map fun n => (n.line, n.isInvalid)

theorem walkOf_append (nodes more : List Node) :
    walkOf (nodes ++ more) = walkOf nodes ++ walkOf more := by
  induction nodes with
  | nil => rfl
  | cons n nodes ih => rw [List.cons_append, walkOf, walkOf, ih, List.append_assoc]

theorem marks_append (nodes more : List Node) :
    marks (nodes ++ more) = marks nodes ++ marks more := by
  rw [marks, walkOf_append, List.map_append, marks, marks]

mutual

theorem Node.marks_setLevel (level : Nat) : ∀ n : Node,
    (n.setLevel level).walk.map (fun n => (n.line, n.isInvalid)) =
      n.walk.map fun n => (n.line, n.isInvalid)
  | .leaf h content => by cases content <;> rfl
  | .block h index childLevel nodes => by
      rw [Node.setLevel, Node.walk, Node.walk, List.map_cons, List.map_cons]
      exact congrArg _ (marks_setLevels (level + 1) nodes)

/-- Moving nodes to another level changes neither their lines nor what they are. -/
theorem marks_setLevels (level : Nat) : ∀ nodes : List Node,
    marks (setLevels level nodes) = marks nodes
  | [] => rfl
  | n :: nodes => by
      have hrest := marks_setLevels level nodes
      rw [marks, marks] at hrest
      rw [setLevels, marks, marks, walkOf, walkOf, List.map_append, List.map_append,
        Node.marks_setLevel level n, hrest]

end

mutual

theorem Node.length_lines (indentation separator : List Char) : ∀ n : Node,
    (n.lines indentation separator).length = n.walk.length
  | .leaf h content => rfl
  | .block h index level nodes => by
      rw [Node.lines, Node.walk, List.length_cons, List.length_cons,
        length_linesOf indentation separator nodes]

/-- Every node is written on one line. -/
theorem length_linesOf (indentation separator : List Char) : ∀ nodes : List Node,
    (linesOf indentation separator nodes).length = (walkOf nodes).length
  | [] => rfl
  | n :: nodes => by
      rw [linesOf, walkOf, List.length_append, List.length_append,
        Node.length_lines indentation separator n, length_linesOf indentation separator nodes]

end

/-! ## What a line does -/

/-- What a line does to the section that reads it. -/
inductive Verdict where
  /-- It becomes a node of the section. -/
  | node (n : Node) (p : Progress)
  /-- It opens a section below. -/
  | opens (key : List Char) (p : Progress)
  /-- It belongs to a section around. -/
  | leaves (p : Progress)

/-- Judges a line for a section of which `nodes` have been read. -/
def judge (options : Options) (level : Nat) (p : Progress) (nodes : List Node) (number : Nat)
    (line : String) : Verdict :=
  let invalid (text : List Char) : Node :=
    Node.ofLeaf (some (String.ofList text)) (commentOf line) (some number) .invalid
  match sniffUnit p level (valueOf line) with
  | .error message => .node (invalid (trim (valueOf line))) (p.report .error message number)
  | .ok p =>
    match placeLine p.unit level (valueOf line) with
    | .misplaced text message => .node (invalid text) (p.report .error message number)
    | .outside =>
      let warn :=
        level > 0 && nodes.all Node.isVoid && !options.allowEmptySections &&
          options.warnEmptySections
      .leaves (if warn then p.report .warning emptySectionWarning number else p)
    | .void => .node (Node.ofLeaf none (commentOf line) (some number) .void) p
    | .content text =>
      match headerKey? options text with
      | some key => .opens key p
      | none =>
        match leafOf options text (commentOf line) number with
        | (n, some d) => .node n (p.report d.severity d.message number)
        | (n, none) => .node n p

/-- The node of a line that opens a section. -/
def headed (key : List Char) (line : String) (number : Nat) (block : Section) : Node :=
  Node.ofSection (String.ofList key) (commentOf line) (some number) block

/-- Loading acts on what a line does. -/
theorem loadSection_cons (options : Options) (fuel level : Nat) (p : Progress) (nodes : List Node)
    (number : Nat) (line : String) (rest : List (Nat × String)) :
    loadSection options (fuel + 1) level p nodes ((number, line) :: rest) =
      match judge options level p nodes number line with
      | .node n p => loadSection options fuel level p (n :: nodes) rest
      | .opens key p =>
        let block := loadSection options fuel (level + 1) p [] rest
        loadSection options fuel level block.2.1 (headed key line number block.1 :: nodes) block.2.2
      | .leaves p => (.ofNodes nodes.reverse, p, (number, line) :: rest) := by
  rw [loadSection]
  unfold judge valueOf leafOf
  dsimp only
  cases sniffUnit p level (Line.split line.toList).1 with
  | error message => rfl
  | ok p =>
    dsimp only
    cases placeLine p.unit level (Line.split line.toList).1 with
    | void => rfl
    | misplaced text message => rfl
    | outside => rfl
    | content text =>
      dsimp only
      cases headerKey? options text with
      | some key => rfl
      | none =>
        by_cases hsimple : options.simple = true
        · simp only [if_pos hsimple]
          rfl
        · simp only [if_neg hsimple, commentOf]
          rcases Section.entryFromText (String.ofList text) options.separator
            (String.ofList (Line.split line.toList).2) (some number) with ⟨n, _ | d⟩
          · rfl
          · rfl

section

variable {options : Options} {level : Nat} {p p' : Progress} {nodes : List Node} {number : Nat}
  {line : String}

/-- The lines about which errors were found, the first first. -/
def Progress.faults (p : Progress) : List (Option Nat) :=
  (p.findings.reverse.filter fun d => d.severity == .error).map (·.line)

theorem faults_report_error (p : Progress) (message : String) (number : Nat) :
    (p.report .error message number).faults = p.faults ++ [some number] := by
  simp [Progress.faults, Progress.report]

theorem faults_report_warning (p : Progress) (message : String) (number : Nat) :
    (p.report .warning message number).faults = p.faults := by
  simp [Progress.faults, Progress.report]

theorem faults_of_sniffUnit {value : List Char} (h : sniffUnit p level value = .ok p') :
    p'.faults = p.faults := by
  rcases sniffUnit_eq_ok h with ⟨rfl, _⟩ | ⟨_, _, _, _, _, heq⟩
  · rfl
  · rw [heq, Progress.faults, Progress.faults]

/-- A node made of one line, and invalid exactly when an error was found. -/
structure IsNodeOf (p p' : Progress) (number : Nat) (n : Node) : Prop where
  walk_eq : n.walk = [n]
  line_eq : n.line = some number
  faults_eq : p'.faults = p.faults ++ if n.isInvalid then [some number] else []

theorem isNodeOf_invalid (p : Progress) (text : Option String) (comment message : String)
    (number : Nat) :
    IsNodeOf p (p.report .error message number) number
      (Node.ofLeaf text comment (some number) .invalid) :=
  ⟨rfl, rfl, faults_report_error p message number⟩

theorem isNodeOf_leaf (p : Progress) (text : Option String) (comment : String) (number : Nat)
    {content : Leaf} (hcontent : content ≠ .invalid) :
    IsNodeOf p p number (Node.ofLeaf text comment (some number) content) := by
  refine ⟨rfl, rfl, ?_⟩
  cases content with
  | invalid => exact absurd rfl hcontent
  | _ => exact (List.append_nil _).symm

/-- A line that opens no section is an invalid node if and only if there is a complaint. -/
theorem isNodeOf_of_leafOf {text : List Char} {comment : String} {n : Node}
    {found : Option Diagnostic} (h : leafOf options text comment number = (n, found)) :
    (found = none ∧ IsNodeOf p p number n) ∨
      ∃ d, found = some d ∧ IsNodeOf p (p.report d.severity d.message number) number n := by
  unfold leafOf at h
  split at h
  · obtain ⟨rfl, rfl⟩ := Prod.mk.inj h
    exact .inl ⟨rfl, isNodeOf_leaf p _ _ _ (by simp)⟩
  · unfold Section.entryFromText at h
    split at h
    · obtain ⟨rfl, rfl⟩ := Prod.mk.inj h
      exact .inl ⟨rfl, isNodeOf_leaf p _ _ _ (by simp)⟩
    · obtain ⟨rfl, rfl⟩ := Prod.mk.inj h
      exact .inr ⟨_, rfl, isNodeOf_invalid p _ _ _ _⟩

/-- What is found while the unit is looked for was found before. -/
theorem IsNodeOf.of_sniffUnit {value : List Char} {p₁ : Progress} {n : Node}
    (hsniff : sniffUnit p level value = .ok p₁) (hn : IsNodeOf p₁ p' number n) :
    IsNodeOf p p' number n :=
  ⟨hn.walk_eq, hn.line_eq, faults_of_sniffUnit hsniff ▸ hn.faults_eq⟩

/-- The cases of a judgement: a line becomes a node that shows it, or opens or leaves a section
without an error. At level zero there is no section around that it could belong to. -/
theorem judge_spec (options : Options) (level : Nat) (p : Progress) (nodes : List Node)
    (number : Nat) (line : String) :
    (∃ n p', judge options level p nodes number line = .node n p' ∧ IsNodeOf p p' number n) ∨
      (∃ key p', judge options level p nodes number line = .opens key p' ∧ p'.faults = p.faults) ∨
      ∃ p', judge options level p nodes number line = .leaves p' ∧ p'.faults = p.faults ∧
        level ≠ 0 := by
  unfold judge
  dsimp only
  cases hsniff : sniffUnit p level (valueOf line) with
  | error message => exact .inl ⟨_, _, rfl, isNodeOf_invalid p _ _ _ _⟩
  | ok p₁ =>
    dsimp only
    cases hplace : placeLine p₁.unit level (valueOf line) with
    | misplaced text message =>
      exact .inl ⟨_, _, rfl, (isNodeOf_invalid p₁ _ _ _ _).of_sniffUnit hsniff⟩
    | void => exact .inl ⟨_, _, rfl, (isNodeOf_leaf p₁ _ _ _ (by simp)).of_sniffUnit hsniff⟩
    | outside =>
      refine .inr (.inr ⟨_, rfl, ?_, ?_⟩)
      · rw [← faults_of_sniffUnit hsniff]
        split
        · exact faults_report_warning p₁ _ _
        · rfl
      -- to be outside is to stand at a smaller level
      · rintro rfl
        obtain ⟨k, hk, -⟩ := standsAt_of_placeLine_outside hplace
        exact Nat.not_lt_zero k hk
    | content text =>
      dsimp only
      cases headerKey? options text with
      | some key => exact .inr (.inl ⟨key, p₁, rfl, faults_of_sniffUnit hsniff⟩)
      | none =>
        dsimp only
        rcases hleaf : leafOf options text (commentOf line) number with ⟨n, found⟩
        rcases isNodeOf_of_leafOf (p := p₁) hleaf with ⟨rfl, hn⟩ | ⟨d, rfl, hn⟩
        · exact .inl ⟨n, p₁, rfl, hn.of_sniffUnit hsniff⟩
        · exact .inl ⟨n, _, rfl, hn.of_sniffUnit hsniff⟩

end

/-! ## What loading makes of the lines -/

/-- The lines of invalid nodes, in the order of the walk. -/
def invalidLines (nodes : List Node) : List (Option Nat) :=
  ((marks nodes).filter (·.2)).map (·.1)

/-- The nodes `made` show the `lines` up to the `rest`, and the errors found meanwhile are about the
invalid ones among them. -/
structure Shows (p : Progress) (lines : List (Nat × String)) (made : List Node) (p' : Progress)
    (rest : List (Nat × String)) : Prop where
  numbers : lines.map (some ·.1) = (marks made).map (·.1) ++ rest.map (some ·.1)
  faults : p'.faults = p.faults ++ invalidLines made

theorem invalidLines_eq (nodes : List Node) :
    invalidLines nodes = ((walkOf nodes).filter Node.isInvalid).map Node.line := by
  rw [invalidLines, marks, List.filter_map, List.map_map]
  rfl

theorem marks_ofNodes (nodes : List Node) : marks (Section.ofNodes nodes).nodes = marks nodes := by
  rw [Section.ofNodes, ← setLevels_eq_map, marks_setLevels]

theorem marks_headed (key : List Char) (line : String) (number : Nat) (nodes : List Node) :
    marks [headed key line number (.ofNodes nodes)] = (some number, false) :: marks nodes := by
  have hblock := marks_setLevels 1 (Section.ofNodes nodes).nodes
  rw [marks_ofNodes] at hblock
  rw [← hblock, headed, Node.ofSection, Node.setLevel, marks, walkOf, walkOf, Node.walk,
    List.append_nil, List.map_cons]
  rfl

namespace Shows

variable {p p₁ p₂ : Progress} {lines rest rest₁ : List (Nat × String)} {made more : List Node}
  {number : Nat} {line : String}

theorem length_le (h : Shows p lines made p₁ rest) : rest.length ≤ lines.length := by
  have hlength := congrArg List.length h.numbers
  simp only [List.length_map, List.length_append] at hlength
  omega

theorem refl (p : Progress) (lines : List (Nat × String)) : Shows p lines [] p lines :=
  ⟨rfl, (List.append_nil _).symm⟩

theorem trans (h : Shows p lines made p₁ rest) (hmore : Shows p₁ rest more p₂ rest₁) :
    Shows p lines (made ++ more) p₂ rest₁ := by
  constructor
  · rw [h.numbers, hmore.numbers, marks_append, List.map_append, List.append_assoc]
  · rw [hmore.faults, h.faults, invalidLines, invalidLines, invalidLines, marks_append,
      List.filter_append, List.map_append, List.append_assoc]

/-- A line that becomes a node. -/
theorem node {n : Node} (hn : IsNodeOf p p₁ number n) :
    Shows p ((number, line) :: rest) [n] p₁ rest := by
  have hmarks : marks [n] = [(some number, n.isInvalid)] := by
    rw [marks, walkOf, walkOf, hn.walk_eq, List.append_nil, List.map_singleton, hn.line_eq]
  constructor
  · rw [hmarks]
    rfl
  · rw [hn.faults_eq, invalidLines, hmarks]
    cases n.isInvalid <;> rfl

/-- A line that opens a section, with the block of the section. -/
theorem block {key : List Char} (hfaults : p₁.faults = p.faults) (h : Shows p₁ lines made p₂ rest) :
    Shows p ((number, line) :: lines) [headed key line number (.ofNodes made)] p₂ rest := by
  constructor
  · rw [marks_headed, List.map_cons, h.numbers]
    rfl
  · rw [h.faults, hfaults, invalidLines, invalidLines, marks_headed]
    rfl

end Shows

/-- **Every line that is taken becomes one node.** With fuel for all lines, the root takes them
all. -/
theorem loadSection_shows (options : Options) (fuel level : Nat) (p : Progress) (nodes : List Node)
    (lines : List (Nat × String)) (hfuel : lines.length ≤ fuel) :
    ∃ made, (loadSection options fuel level p nodes lines).1 = .ofNodes (nodes.reverse ++ made) ∧
      Shows p lines made (loadSection options fuel level p nodes lines).2.1
        (loadSection options fuel level p nodes lines).2.2 ∧
      (level = 0 → (loadSection options fuel level p nodes lines).2.2 = []) := by
  induction fuel generalizing level p nodes lines with
  | zero =>
    obtain rfl := List.length_eq_zero_iff.1 (Nat.le_zero.1 hfuel)
    exact ⟨[], by rw [loadSection, List.append_nil], .refl p [], fun _ => rfl⟩
  | succ fuel ih =>
    cases lines with
    | nil => exact ⟨[], by rw [loadSection, List.append_nil], .refl p [], fun _ => rfl⟩
    | cons e rest =>
      obtain ⟨number, line⟩ := e
      have hrest : rest.length ≤ fuel := Nat.le_of_succ_le_succ hfuel
      rw [loadSection_cons]
      rcases judge_spec options level p nodes number line with
        ⟨n, p₁, hjudge, hn⟩ | ⟨key, p₁, hjudge, hfaults⟩ | ⟨p₁, hjudge, hfaults, hlevel⟩
      · rw [hjudge]
        obtain ⟨made, hsection, hshows, hroot⟩ := ih level p₁ (n :: nodes) rest hrest
        refine ⟨n :: made, ?_, (Shows.node hn).trans hshows, hroot⟩
        rw [hsection, List.reverse_cons, List.append_assoc, List.singleton_append]
      · rw [hjudge]
        dsimp only
        -- the block first, then the lines behind it
        obtain ⟨inner, hinner, hblock, -⟩ := ih (level + 1) p₁ [] rest hrest
        generalize loadSection options fuel (level + 1) p₁ [] rest = result at *
        obtain ⟨block, p₂, rest₁⟩ := result
        obtain rfl : block = .ofNodes inner := hinner
        have hrest₁ : rest₁.length ≤ fuel := hblock.length_le.trans hrest
        obtain ⟨made, hsection, hshows, hroot⟩ :=
          ih level p₂ (headed key line number (.ofNodes inner) :: nodes) rest₁ hrest₁
        refine ⟨headed key line number (.ofNodes inner) :: made, ?_,
          (Shows.block hfaults hblock).trans hshows, hroot⟩
        rw [hsection, List.reverse_cons, List.append_assoc, List.singleton_append]
      · rw [hjudge]
        refine ⟨[], by rw [List.append_nil], ⟨rfl, ?_⟩, fun h => absurd h hlevel⟩
        rw [hfaults]
        exact (List.append_nil _).symm

/-! ## Reading from a reader -/

/-- Reads the lines of a section from a reader. A line that belongs to a section around is given
back, and the reader refuses to hold a second one. -/
def readSection (options : Options) :
    (fuel level : Nat) → Progress → (nodes : List Node) → LineReader →
      Except Error (Section × Progress × LineReader)
  | 0, _, p, nodes, r => .ok (.ofNodes nodes.reverse, p, r)
  | fuel + 1, level, p, nodes, r =>
    match r.read with
    | (.error e, _) => .error e
    | (.ok none, r) => .ok (.ofNodes nodes.reverse, p, r)
    | (.ok (some line), r) =>
      match judge options level p nodes r.number line with
      | .node n p => readSection options fuel level p (n :: nodes) r
      | .opens key p =>
        match readSection options fuel (level + 1) p [] r with
        | .error e => .error e
        | .ok (block, p, after) =>
          readSection options fuel level p (headed key line r.number block :: nodes) after
      | .leaves p =>
        match r.reset with
        | (.error e, _) => .error e
        | (.ok (), r) => .ok (.ofNodes nodes.reverse, p, r)

/-- **One line is all a reader ever has to hold**: reading from it gives what loading makes of the
lines that it hands out. -/
theorem readSection_eq (options : Options) (fuel level : Nat) (p : Progress) (nodes : List Node)
    {r : LineReader} {lines : List (Nat × String)} (hr : Delivers r lines)
    (hfuel : lines.length ≤ fuel) :
    ∃ r', readSection options fuel level p nodes r =
        .ok ((loadSection options fuel level p nodes lines).1,
          (loadSection options fuel level p nodes lines).2.1, r') ∧
      Delivers r' (loadSection options fuel level p nodes lines).2.2 := by
  induction fuel generalizing level p nodes r lines with
  | zero =>
    obtain rfl := List.length_eq_zero_iff.1 (Nat.le_zero.1 hfuel)
    exact ⟨r, rfl, hr⟩
  | succ fuel ih =>
    cases hr with
    | done hheld hrest =>
      refine ⟨{ r with line := none }, ?_, .done hheld hrest⟩
      rw [readSection, LineReader.read_done hheld hrest]
      rfl
    | @line _ r' line rest hread hheld hline hr' =>
      have hrest : rest.length ≤ fuel := Nat.le_of_succ_le_succ hfuel
      rw [readSection, hread, loadSection_cons]
      dsimp only
      cases judge options level p nodes r'.number line with
      | node n p₁ => exact ih level p₁ (n :: nodes) hr' hrest
      | opens key p₁ =>
        obtain ⟨after, hblock, hafter⟩ := ih (level + 1) p₁ [] hr' hrest
        obtain ⟨_, _, hshows, _⟩ :=
          loadSection_shows options fuel (level + 1) p₁ [] rest hrest
        dsimp only
        rw [hblock]
        exact ih level _ _ hafter (hshows.length_le.trans hrest)
      -- the line that ends a section is put back; the reader holds no other one then
      | leaves p₁ =>
        obtain ⟨hreset, hback⟩ := hr'.reset hheld hline
        dsimp only
        rw [hreset]
        exact ⟨_, rfl, hback⟩

/-! ## Documents -/

namespace Document

/-- The diagnostics that are errors. -/
def faultsOf (d : Document) : List Diagnostic :=
  d.diagnostics.filter fun found => found.severity == .error

/-- Errors are found on lines; that there is no line is a warning. -/
theorem faultsOf_ofLines (fileName : String) (options : Options) (lines : List (Nat × String)) :
    (ofLines fileName options lines).faultsOf =
      (loadSection options lines.length 0 {} [] lines).2.1.findings.reverse.filter
        fun found => found.severity == .error := by
  unfold faultsOf ofLines
  dsimp only
  rw [List.filter_append]
  split
  · exact List.append_nil _
  · exact List.append_nil _

/-- The nodes of a document show its lines, and its errors are about the invalid ones. -/
theorem ofLines_walk (fileName : String) (options : Options) (lines : List (Nat × String)) :
    (walkOf (ofLines fileName options lines).root.nodes).map Node.line = lines.map (some ·.1) ∧
      (ofLines fileName options lines).faultsOf.map (·.line) =
        ((walkOf (ofLines fileName options lines).root.nodes).filter Node.isInvalid).map
          Node.line := by
  obtain ⟨made, hroot, hshows, hrest⟩ :=
    loadSection_shows options lines.length 0 {} [] lines (Nat.le_refl _)
  have hmarks : marks (ofLines fileName options lines).root.nodes = marks made := by
    rw [← marks_ofNodes made]
    exact congrArg (fun s => marks s.nodes) hroot
  constructor
  · have hnumbers := hshows.numbers
    rw [hrest rfl, List.map_nil, List.append_nil, ← hmarks, marks, List.map_map] at hnumbers
    exact hnumbers.symm
  · rw [faultsOf_ofLines, ← invalidLines_eq, invalidLines, hmarks]
    exact hshows.faults

/-- **Loading a text with a separator always gives a document, and every line of the text is one
node of it.** On a walk the nodes have the numbers of the lines, one after another, and as many lines
are saved again. The errors that are counted are those among the diagnostics, which name the lines of
the invalid nodes in the order of the walk. Reading the text through a reader that can hold one line
gives the same nodes. -/
theorem loadText_walk (source fileName : String) (options : Options)
    (hseparator : options.separator ≠ "") :
    ∃ d, loadText source fileName options = .ok d ∧
      (∃ p r, readSection options (textLines source.toList).length 0 {} []
        (LineReader.ofBytes (Text.toBytes source)) = .ok (d.root, p, r)) ∧
      (walkOf d.root.nodes).map Node.line =
        (List.range' 1 (textLines source.toList).length).map some ∧
      d.lines.length = (textLines source.toList).length ∧
      d.errors = ((walkOf d.root.nodes).filter Node.isInvalid).length ∧
      d.errors = d.faultsOf.length ∧
      d.faultsOf.map (·.line) = ((walkOf d.root.nodes).filter Node.isInvalid).map Node.line := by
  obtain ⟨lines, hlines, hreader, hnumbers⟩ := exists_sourceLines source
  have hlength : lines.length = (textLines source.toList).length := by
    have := congrArg List.length hnumbers
    rwa [List.length_map, List.length_range'] at this
  have hload : loadText source fileName options = .ok (ofLines fileName options lines) := by
    rw [loadText, load, if_neg (by simpa using hseparator), hlines]
  have herrors : (ofLines fileName options lines).errors =
      (ofLines fileName options lines).faultsOf.length := by
    rw [faultsOf_ofLines]
    rfl
  obtain ⟨hwalk, hfaults⟩ := ofLines_walk fileName options lines
  obtain ⟨r, hread, -⟩ := readSection_eq options lines.length 0 {} [] hreader (Nat.le_refl _)
  rw [← hlength]
  refine ⟨_, hload, ⟨_, r, hread⟩, ?_, ?_, ?_, herrors, hfaults⟩
  · rw [hwalk, hlength, ← hnumbers, List.map_map]
    rfl
  · have hcount := congrArg List.length hwalk
    rw [List.length_map, List.length_map] at hcount
    rw [Document.lines, length_linesOf, hcount]
  · have hcount := congrArg List.length hfaults
    rwa [List.length_map, List.length_map, ← herrors] at hcount

/-- Four lines, two of them in a block; the third is indented wrongly, and the last is no entry. -/
theorem loadText_walk_nested :
    ({} : Options).separator ≠ "" ∧
      ∃ d, loadText "a:\n\tb: 1\n\t\tc: 2\nd\n" "nested" {} = .ok d ∧
        (walkOf d.root.nodes).map Node.line = [some 1, some 2, some 3, some 4] ∧
        d.lines.length = 4 ∧ d.errors = 2 ∧
        ((walkOf d.root.nodes).filter Node.isInvalid).map Node.line = [some 3, some 4] := by
  have hseparator : ({} : Options).separator ≠ "" := by decide
  have hcount : (textLines "a:\n\tb: 1\n\t\tc: 2\nd\n".toList).length = 4 := by cbv
  obtain ⟨d, hload, -, hwalk, hlines, -, herrors, hfaults⟩ :=
    loadText_walk "a:\n\tb: 1\n\t\tc: 2\nd\n" "nested" {} hseparator
  have hfound : (loadText "a:\n\tb: 1\n\t\tc: 2\nd\n" "nested" {}).map
      (fun d => d.faultsOf.map (·.line)) = .ok [some 3, some 4] := by cbv
  rw [hload] at hfound
  have hfound := Except.ok.inj hfound
  have htwo := congrArg List.length hfound
  rw [List.length_map, ← herrors] at htwo
  rw [hcount] at hwalk hlines
  exact ⟨hseparator, d, hload, hwalk, hlines, htwo, hfaults ▸ hfound⟩

end Document

end ScriptStore.Config
