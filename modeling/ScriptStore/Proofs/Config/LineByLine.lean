import ScriptStore.Proofs.Config.Numbering
import ScriptStore.Proofs.Config.Written

/-!
# Documents line by line

Whether lines are read as a tree of nodes can be told from one line after another. A walk through the
tree meets its nodes in the order of the lines, and each line has to be read as its node: it is void,
or it stands at the level of the node and its text gives the key, the value and the comment. The tree
itself only has to be orderly: every node has the level of the place where it stands, and no void node
comes right behind a block, since its line would have gone to the block.

So what a document is saved as is loaded as the document itself if, and only if, there is a unit of
indentation under which every written line is read as the node that it was written for.
-/

namespace ScriptStore.Config

open Text (trim Tight)

/-! ## Nodes without their place

The number of a line, the index of a block and the level that a block gives to its nodes say nothing
about a single line. -/

mutual

/-- A node without the number of its line, and its block without index. -/
def Node.bare : Node → Node
  | .leaf h content => .leaf { h with line := none } content
  | .block h _ _ nodes => .block { h with line := none } {} 0 (bareOf nodes)

def bareOf : List Node → List Node
  | [] => []
  | n :: rest => n.bare :: bareOf rest

end

theorem bareOf_eq_map (nodes : List Node) : bareOf nodes = nodes.map Node.bare := by
  induction nodes with
  | nil => rfl
  | cons n rest ih => rw [bareOf, ih, List.map_cons]

mutual

theorem Node.walk_bare : ∀ n : Node, n.bare.walk = n.walk.map Node.bare
  | .leaf h content => rfl
  | .block h index level nodes => by
      rw [Node.bare, Node.walk, Node.walk, List.map_cons, walkOf_bareOf nodes, Node.bare]

theorem walkOf_bareOf : ∀ nodes : List Node, walkOf (bareOf nodes) = (walkOf nodes).map Node.bare
  | [] => rfl
  | n :: rest => by
      rw [bareOf, walkOf, walkOf, List.map_append, Node.walk_bare n, walkOf_bareOf rest]

end

mutual

theorem Node.same_iff : ∀ n n' : Node,
    n.same n' = true ↔ n.bare = n'.bare ∧ n.walk.map Node.line = n'.walk.map Node.line
  | .leaf h content, .leaf h' content' => by
      obtain ⟨key, comment, line, level⟩ := h
      obtain ⟨key', comment', line', level'⟩ := h'
      simp only [Node.same, Bool.and_eq_true, beq_iff_eq, Header.mk.injEq, Node.bare, Node.leaf.injEq,
        Node.walk, List.map_cons, List.map_nil, List.cons.injEq, Node.line, Node.header, and_true, true_and]
      tauto
  | .leaf h content, .block h' index' level' nodes' => by simp [Node.same, Node.bare]
  | .block h index level nodes, .leaf h' content' => by simp [Node.same, Node.bare]
  | .block h index childLevel nodes, .block h' index' childLevel' nodes' => by
      obtain ⟨key, comment, line, level⟩ := h
      obtain ⟨key', comment', line', level'⟩ := h'
      simp only [Node.same, Bool.and_eq_true, beq_iff_eq, Header.mk.injEq, Node.bare, Node.block.injEq,
        Node.walk, List.map_cons, List.cons.injEq, Node.line, Node.header, true_and,
        sameNodes_iff nodes nodes']
      tauto

/-- Nodes are the same if they are so without their numbers, and have the same numbers on a walk. -/
theorem sameNodes_iff : ∀ nodes nodes' : List Node, sameNodes nodes nodes' = true ↔
    bareOf nodes = bareOf nodes' ∧ (walkOf nodes).map Node.line = (walkOf nodes').map Node.line
  | [], [] => by simp [sameNodes]
  | [], n' :: rest' => by simp [sameNodes, bareOf]
  | n :: rest, [] => by simp [sameNodes, bareOf]
  | n :: rest, n' :: rest' => by
      rw [sameNodes, Bool.and_eq_true, Node.same_iff n n', sameNodes_iff rest rest', bareOf, bareOf,
        List.cons.injEq, walkOf, walkOf, List.map_append, List.map_append]
      constructor
      · rintro ⟨⟨hbare, hlines⟩, hbares, hmore⟩
        exact ⟨⟨hbare, hbares⟩, by rw [hlines, hmore]⟩
      · rintro ⟨⟨hbare, hbares⟩, hlines⟩
        -- a walk through the one is as long as a walk through the other
        have hlength := congrArg (fun n => n.walk.length) hbare
        simp only [Node.walk_bare, List.length_map] at hlength
        obtain ⟨hfirst, hmore⟩ := List.append_inj hlines (by simpa using hlength)
        exact ⟨⟨hbare, hfirst⟩, hbares, hmore⟩

end

mutual

theorem Node.lines_eq_map (indentation separator : List Char) : ∀ n : Node,
    n.lines indentation separator
      = n.walk.map fun n => String.ofList (n.lineText indentation separator)
  | .leaf h content => rfl
  | .block h index level nodes => by
      rw [Node.lines, Node.walk, List.map_cons, linesOf_eq_map indentation separator nodes]

/-- The lines of nodes are the lines of one node after the other. -/
theorem linesOf_eq_map (indentation separator : List Char) : ∀ nodes : List Node,
    linesOf indentation separator nodes
      = (walkOf nodes).map fun n => String.ofList (n.lineText indentation separator)
  | [] => rfl
  | n :: rest => by
      rw [linesOf, walkOf, List.map_append, Node.lines_eq_map indentation separator n,
        linesOf_eq_map indentation separator rest]

end

/-! ## One line and one node -/

/-- `ReadsAs options unit n line`: where it stands, the line is read as the node `n`. The nodes of a
block are on lines of their own. -/
inductive ReadsAs (options : Options) (unit : List Char) : Node → String → Prop
  | void {h : Header} {line : String} (hvoid : trim (valueOf line) = []) (hkey : h.key = none)
      (hcomment : commentOf line = h.comment) : ReadsAs options unit (.leaf h .void) line
  | leaf {h : Header} {content : Leaf} {line : String}
      (hat : StandsAt unit h.level (valueOf line))
      (hheader : headerKey? options (trim (valueOf line)) = none)
      (hleaf : ∀ number, leafOf options (trim (valueOf line)) (commentOf line) number
        = (Node.ofLeaf h.key h.comment (some number) content, none)) :
      ReadsAs options unit (.leaf h content) line
  | block {h : Header} {index : Index} {childLevel : Nat} {nodes : List Node} {line : String}
      {key : List Char} (hat : StandsAt unit h.level (valueOf line))
      (hheader : headerKey? options (trim (valueOf line)) = some key)
      (hkey : h.key = some (String.ofList key)) (hcomment : commentOf line = h.comment) :
      ReadsAs options unit (.block h index childLevel nodes) line

/-- Whether a node is read from a line that keeps all its characters when it is written. -/
def FromLine (options : Options) (unit : List Char) (n : Node) : Prop :=
  ∃ line, ReadsAs options unit n line ∧ ∀ c ∈ line.toList, c ≠ '\n' ∧ IsPlain c

/-- What a text gives as a leaf does not depend on the number of its line. -/
theorem exists_of_leafOf {options : Options} {text : List Char} {comment : String} {number : Nat}
    {n : Node} (h : leafOf options text comment number = (n, none)) :
    ∃ key content, content ≠ .void ∧ n = Node.ofLeaf (some key) comment (some number) content ∧
      ∀ number, leafOf options text comment number
        = (Node.ofLeaf (some key) comment (some number) content, none) := by
  unfold leafOf at h ⊢
  cases hsimple : options.simple with
  | true =>
    rw [hsimple, if_pos rfl] at h
    cases h
    exact ⟨_, _, Leaf.noConfusion, rfl, fun _ => if_pos rfl⟩
  | false =>
    rw [hsimple, if_neg Bool.false_ne_true, Section.entryFromText] at h
    simp only [if_neg Bool.false_ne_true, Section.entryFromText]
    cases hcut : Text.splitOnce options.separator.toList (String.ofList text).toList with
    | none =>
      rw [hcut] at h
      cases h
    | some cut =>
      rw [hcut] at h
      cases h
      exact ⟨_, _, Leaf.noConfusion, rfl, fun _ => rfl⟩

theorem ne_void_of_leafOf {options : Options} {text : List Char} {comment comment' : String}
    {number : Nat} {key : Option String} {line : Option Nat} {content : Leaf}
    (h : leafOf options text comment number = (Node.ofLeaf key comment' line content, none)) :
    content ≠ .void := by
  obtain ⟨_, content', hne, heq, _⟩ := exists_of_leafOf h
  rw [Node.ofLeaf, Node.ofLeaf, Node.leaf.injEq] at heq
  rw [heq.2]
  exact hne

theorem leafOf_number {options : Options} {text : List Char} {comment comment' : String}
    {number : Nat} {key : Option String} {content : Leaf}
    (h : leafOf options text comment number = (Node.ofLeaf key comment' (some number) content, none))
    (number' : Nat) :
    leafOf options text comment number' = (Node.ofLeaf key comment' (some number') content, none) := by
  obtain ⟨key', content', _, heq, hall⟩ := exists_of_leafOf h
  rw [Node.ofLeaf, Node.ofLeaf, Node.leaf.injEq, Header.mk.injEq] at heq
  obtain ⟨⟨rfl, rfl, -, -⟩, rfl⟩ := heq
  exact hall number'

/-- A line that is split at the separator is an entry, with both parts trimmed. -/
theorem leafOf_eq_iff {options : Options} (hsimple : options.simple = false) {text : List Char}
    {comment comment' : String} {number : Nat} {key : Option String} {content : Leaf} :
    leafOf options text comment number = (Node.ofLeaf key comment' (some number) content, none) ↔
      ∃ front back, Text.splitOnce options.separator.toList text = some (front, back) ∧
        key = some (String.ofList (trim front)) ∧ content = .entry (String.ofList (trim back)) ∧
        comment' = comment := by
  rw [leafOf, hsimple, if_neg Bool.false_ne_true, Section.entryFromText, String.toList_ofList]
  cases hcut : Text.splitOnce options.separator.toList text with
  | none => simp
  | some cut =>
    simp only [Node.ofLeaf, Prod.mk.injEq, Node.leaf.injEq, Header.mk.injEq, and_true,
      Option.some.injEq]
    constructor
    · rintro ⟨⟨hkey, hcomment⟩, hcontent⟩
      exact ⟨cut.1, cut.2, rfl, hkey.symm, hcontent.symm, hcomment.symm⟩
    · rintro ⟨front, back, rfl, hkey, hcontent, hcomment⟩
      exact ⟨⟨hkey.symm, hcomment.symm⟩, hcontent.symm⟩

namespace ReadsAs

variable {options : Options} {unit : List Char} {n : Node} {line : String}

/-- A line with content stands at the level of its node. -/
theorem standsAt (h : ReadsAs options unit n line) (hvoid : n.isVoid = false) :
    StandsAt unit n.level (valueOf line) := by
  cases h with
  | void => cases hvoid
  | leaf hat _ _ => exact hat
  | block hat _ _ _ => exact hat

/-- Where nothing is indented, the unit does not matter. -/
theorem of_level_zero (h : ReadsAs options unit n line) (hlevel : n.isVoid = true ∨ n.level = 0)
    (unit' : List Char) : ReadsAs options unit' n line := by
  have hmove : ∀ {level : Nat}, level = 0 → StandsAt unit level (valueOf line) →
      StandsAt unit' level (valueOf line) := by
    rintro _ rfl hat
    exact standsAt_zero.2 (standsAt_zero.1 hat)
  cases h with
  | void hvoid hkey hcomment => exact .void hvoid hkey hcomment
  | @leaf h content _ hat hheader hleaf =>
    have hne := ne_void_of_leafOf (hleaf 0)
    have hzero : h.level = 0 := hlevel.resolve_left fun hvoid => by
      cases content <;> cases hvoid
      exact hne rfl
    exact .leaf (hmove hzero hat) hheader hleaf
  | block hat hheader hkey hcomment =>
    exact .block (hmove (hlevel.resolve_left Bool.false_ne_true) hat) hheader hkey hcomment

theorem bare_iff : ReadsAs options unit n.bare line ↔ ReadsAs options unit n line := by
  cases n with
  | leaf h content =>
    rw [Node.bare]
    constructor
    · intro hread
      cases hread with
      | void hvoid hkey hcomment => exact .void hvoid hkey hcomment
      | leaf hat hheader hleaf => exact .leaf hat hheader hleaf
    · intro hread
      cases hread with
      | void hvoid hkey hcomment => exact .void hvoid hkey hcomment
      | leaf hat hheader hleaf => exact .leaf hat hheader hleaf
  | block h index childLevel nodes =>
    rw [Node.bare]
    constructor
    · intro hread
      cases hread with
      | block hat hheader hkey hcomment => exact .block hat hheader hkey hcomment
    · intro hread
      cases hread with
      | block hat hheader hkey hcomment => exact .block hat hheader hkey hcomment

end ReadsAs

/-! ## The line that is written for a node -/

section

variable {options : Options} {unit separator : List Char}

theorem ReadsAs.isComment {n : Node} {line : String} (h : ReadsAs options unit n line) :
    Line.IsComment n.comment.toList ∧ commentOf line = n.comment := by
  have hcomment : commentOf line = n.comment := by
    cases h with
    | void _ _ hcomment => exact hcomment
    | block _ _ _ hcomment => exact hcomment
    | leaf _ _ hleaf =>
      obtain ⟨_, _, _, heq, _⟩ := exists_of_leafOf (hleaf 0)
      exact (congrArg Node.comment heq).symm
  exact ⟨hcomment ▸ isComment_commentOf line, hcomment⟩

variable (hunit : IsUnit unit)

include hunit

/-- A leaf that is read from its own body is read from its own line. -/
theorem readsAs_of_isLeafOf {h : Header} {content : Leaf} {text : List Char}
    (hcomment : Line.IsComment h.comment.toList)
    (hleaf : IsLeafOf options separator text h.comment 0
      (Node.ofLeaf h.key h.comment (some 0) content)) :
    ReadsAs options unit (.leaf h content)
      (String.ofList ((Node.leaf h content).lineText unit separator)) := by
  have hbody : (Node.leaf h content).body separator
      = (Node.ofLeaf h.key h.comment (some 0) content).body separator := by
    cases content <;> rfl
  have hvoid : (Node.leaf h content).isVoid = false := by
    have hnot := hleaf.notVoid
    cases content with
    | void => exact hnot
    | _ => rfl
  have hwritten := written_content hunit (hbody.symm ▸ hleaf.tight) hvoid hcomment
  refine .leaf hwritten.standsAt ?_ ?_
  · rw [hwritten.trim_eq, hbody]
    exact hleaf.noHeader
  · rw [hwritten.trim_eq, hwritten.comment_eq, hbody]
    exact leafOf_number hleaf.leaf

/-- What comes from a line is written as a line that it comes from, with all its characters from the
first line but for blanks and a colon. -/
theorem ReadsAs.rewritten (hmode : PlainMode options separator) {n : Node} {line : String}
    (h : ReadsAs options unit n line) :
    ReadsAs options unit n (String.ofList (n.lineText unit separator)) ∧
      Rewrites (0, line) (0, String.ofList (n.lineText unit separator)) := by
  obtain ⟨hcomment, hsame⟩ := h.isComment
  have hmade := hsame ▸ madeOf_lineText hunit separator n
  cases h with
  | @void h _ hvoid hkey _ =>
    have hbody : (Node.leaf h .void).body separator = [] := by
      simp [Node.body, Node.key, Node.header, hkey]
    have hwritten := written_void hunit hbody rfl hcomment
    exact ⟨.void hwritten.trim_eq hkey hwritten.comment_eq,
      .of_madeOf hmade fun c hc => by rw [hbody] at hc; cases hc⟩
  | @leaf h content _ hat hheader hleaf =>
    have hn := isLeafOf_of_leafOf hmode (Text.tight_trim hat.trim_ne_nil) hheader (hleaf 0)
    have hbody : (Node.leaf h content).body separator
        = (Node.ofLeaf h.key h.comment (some 0) content).body separator := by
      cases content <;> rfl
    refine ⟨readsAs_of_isLeafOf hunit hcomment (hsame ▸ hn), .of_madeOf hmade fun c hc => ?_⟩
    exact hn.chars c (hbody ▸ hc)
  | @block h index childLevel nodes _ key hat hheader hkey _ =>
    have htext := headerKey?_eq_some hheader
    have hbody : (Node.block h index childLevel nodes).body separator = trim (valueOf line) := by
      rw [htext, Node.body, Node.key, Node.header, hkey, Option.getD_some, String.toList_ofList]
    have htight := hbody.symm ▸ Text.tight_trim hat.trim_ne_nil
    have hwritten := written_content hunit htight rfl hcomment
    refine ⟨.block hwritten.standsAt ?_ hkey hwritten.comment_eq,
      .of_madeOf hmade fun c hc => .inl (hbody ▸ hc)⟩
    rw [hwritten.trim_eq, hbody]
    exact hheader

end

/-! ## All lines and all nodes -/

/-- Nodes of a section at a level. What comes behind a block is not void. -/
inductive Orderly : Nat → List Node → Prop
  | nil {level : Nat} : Orderly level []
  | leaf {level : Nat} {h : Header} {content : Leaf} {rest : List Node} (hlevel : h.level = level)
      (hrest : Orderly level rest) : Orderly level (.leaf h content :: rest)
  | block {level : Nat} {h : Header} {index : Index} {childLevel : Nat} {nodes rest : List Node}
      (hlevel : h.level = level) (hnodes : Orderly (level + 1) nodes)
      (hnext : ∀ n ∈ rest.head?, n.isVoid = false) (hrest : Orderly level rest) :
      Orderly level (.block h index childLevel nodes :: rest)

/-- Whether there is a line with content below the first level. -/
def indents (nodes : List Node) : Bool :=
  (walkOf nodes).any fun n => !n.isVoid && decide (0 < n.level)

/-- The lines are read as the nodes, one after the other. -/
def ReadsEach (options : Options) (unit : List Char) (lines : List (Nat × String))
    (nodes : List Node) : Prop :=
  List.Forall₂ (fun e n => ReadsAs options unit n e.2) lines (walkOf nodes)

section

variable {options : Options} {unit : List Char} {level : Nat} {known known' : Bool}
  {lines rest : List (Nat × String)} {nodes : List Node}

/-- **Lines that are nodes are so one by one.** -/
theorem Reads.readsEach (h : Reads options unit level known lines nodes known' rest) :
    ∃ front, lines = front ++ rest ∧ ReadsEach options unit front (setLevels level nodes) := by
  unfold ReadsEach
  induction h with
  | nil => exact ⟨[], rfl, .nil⟩
  | outside => exact ⟨[], rfl, .nil⟩
  | void hvoid _ ih =>
    obtain ⟨front, rfl, hfront⟩ := ih
    exact ⟨_ :: front, rfl, .cons (.void hvoid rfl rfl) hfront⟩
  | leaf hat hkey hleaf _ ih =>
    obtain ⟨front, rfl, hfront⟩ := ih
    obtain ⟨key, content, _, rfl, hall⟩ := exists_of_leafOf hleaf
    exact ⟨_ :: front, rfl, .cons (.leaf hat hkey hall) hfront⟩
  | block hat hkey _ _ ihInner ih =>
    obtain ⟨front₁, rfl, hfront₁⟩ := ihInner
    obtain ⟨front₂, rfl, hfront₂⟩ := ih
    refine ⟨_ :: (front₁ ++ front₂), by rw [List.cons_append, List.append_assoc], ?_⟩
    rw [setLevels, setLevel_ofSection, walkOf, Node.walk]
    exact .cons (.block hat hkey rfl rfl) (List.rel_append hfront₁ hfront₂)

/-- What comes behind a block has content. -/
theorem Reads.head?_not_void (h : Reads options unit level known lines nodes known' rest)
    (hlines : Stops unit (level + 1) lines) :
    ∀ n ∈ (setLevels level nodes).head?, n.isVoid = false := by
  intro n hn
  cases h with
  | nil => cases hn
  | outside => cases hn
  | void hvoid _ =>
    obtain ⟨k, _, hat⟩ := hlines _ rfl
    exact absurd hvoid hat.trim_ne_nil
  | leaf _ _ hleaf _ =>
    obtain ⟨key, content, hne, rfl, _⟩ := exists_of_leafOf hleaf
    cases hn
    cases content with
    | void => exact absurd rfl hne
    | _ => rfl
  | block _ _ _ _ =>
    rw [setLevels, setLevel_ofSection] at hn
    cases hn
    rfl

theorem Reads.orderly (h : Reads options unit level known lines nodes known' rest) :
    Orderly level (setLevels level nodes) := by
  induction h with
  | nil => exact .nil
  | outside => exact .nil
  | void _ _ ih => exact .leaf rfl ih
  | leaf _ _ hleaf _ ih =>
    obtain ⟨key, content, _, rfl, _⟩ := exists_of_leafOf hleaf
    exact .leaf rfl ih
  | block _ _ hinner h ihInner ih =>
    rw [setLevels, setLevel_ofSection]
    exact .block rfl ihInner (h.head?_not_void hinner.stops) ih

/-- Lines of nodes that do not start with a void one end a block. -/
theorem Orderly.stops (ho : Orderly level nodes) (hhead : ∀ n ∈ nodes.head?, n.isVoid = false)
    (hlines : ReadsEach options unit lines nodes) (hrest : Stops unit level rest) :
    Stops unit (level + 1) (lines ++ rest) := by
  cases ho with
  | nil =>
    obtain rfl := List.forall₂_nil_right_iff.1 hlines
    exact hrest.mono (Nat.le_succ level)
  | leaf hlevel _ =>
    obtain ⟨e, lines, hread, _, rfl⟩ := List.forall₂_cons_right_iff.1 hlines
    exact stops_cons (hlevel ▸ hread.standsAt (hhead _ rfl))
  | block hlevel _ _ _ =>
    obtain ⟨e, lines, hread, _, rfl⟩ := List.forall₂_cons_right_iff.1 hlines
    exact stops_cons (hlevel ▸ hread.standsAt rfl)

/-- **Lines that are read one by one as orderly nodes are these nodes.** -/
theorem Orderly.exists_reads (ho : Orderly level nodes) (hlines : ReadsEach options unit lines nodes)
    (hrest : Stops unit level rest) (known : Bool) :
    ∃ nodes', Reads options unit level known (lines ++ rest) nodes' (known || indents nodes) rest ∧
      bareOf (setLevels level nodes') = bareOf nodes := by
  induction ho generalizing known lines rest with
  | nil =>
    obtain rfl := List.forall₂_nil_right_iff.1 hlines
    exact ⟨[], (Bool.or_false known).symm ▸ .of_stops hrest, rfl⟩
  | @leaf level h content nodes hlevel _ ih =>
    obtain ⟨e, lines, hread, htail, rfl⟩ := List.forall₂_cons_right_iff.1 hlines
    cases hread with
    | void hvoid hkey hcomment =>
      obtain ⟨nodes', hreads, hbare⟩ := ih htail hrest known
      refine ⟨_, .void hvoid hreads, ?_⟩
      rw [setLevels, bareOf, bareOf, hbare, Node.ofLeaf, Node.setLevel, Node.bare, Node.bare,
        hcomment, hkey, hlevel]
    | leaf hat hheader hleaf =>
      have hne := ne_void_of_leafOf (hleaf 0)
      obtain ⟨nodes', hreads, hbare⟩ := ih htail hrest (known || decide (0 < level))
      have hknown : (known || decide (0 < level) || indents nodes)
          = (known || indents (.leaf h content :: nodes)) := by
        cases content with
        | void => exact absurd rfl hne
        | _ => rw [Bool.or_assoc, ← hlevel]; rfl
      rw [hknown] at hreads
      refine ⟨_, .leaf (hlevel ▸ hat) hheader (hleaf e.1) hreads, ?_⟩
      rw [setLevels, bareOf, bareOf, hbare, Node.ofLeaf, Node.setLevel, Node.bare, Node.bare,
        hlevel]
  | @block level h index childLevel inner nodes hlevel _ hnext honodes ihInner ih =>
    obtain ⟨e, lines, hread, htail, rfl⟩ := List.forall₂_cons_right_iff.1 hlines
    -- the walk through the inner nodes takes the first lines, and the rest comes behind the section
    have hlines₁ := List.forall₂_take_append lines (walkOf inner) (walkOf nodes) htail
    have hlines₂ := List.forall₂_drop_append lines (walkOf inner) (walkOf nodes) htail
    cases hread with
    | block hat hheader hkey hcomment =>
      obtain ⟨inner', hinner', hbareInner⟩ :=
        ihInner hlines₁ (honodes.stops hnext hlines₂ hrest) (known || decide (0 < level))
      obtain ⟨nodes', hreads, hbare⟩ := ih hlines₂ hrest (known || decide (0 < level) || indents inner)
      rw [← List.append_assoc, List.take_append_drop] at hinner'
      have hknown : (known || decide (0 < level) || indents inner || indents nodes)
          = (known || indents (.block h index childLevel inner :: nodes)) := by
        rw [indents, indents, indents, walkOf, Node.walk, List.cons_append, List.any_cons,
          List.any_append, ← hlevel, Bool.or_assoc, Bool.or_assoc]
        rfl
      rw [hknown] at hreads
      refine ⟨_, .block (hlevel ▸ hat) hheader hinner' hreads, ?_⟩
      rw [setLevels, bareOf, bareOf, hbare, setLevel_ofSection, Node.bare, Node.bare, hbareInner,
        hcomment, hkey, hlevel]

/-- Every node is read from a line. -/
theorem ReadsEach.exists_line (h : ReadsEach options unit lines nodes) {n : Node}
    (hn : n ∈ walkOf nodes) : ∃ e ∈ lines, ReadsAs options unit n e.2 := by
  obtain ⟨i, hi, rfl⟩ := List.getElem_of_mem hn
  exact ⟨lines.get ⟨i, h.length_eq ▸ hi⟩, List.get_mem _ _, h.get (h.length_eq ▸ hi) hi⟩

/-- The numbers of the lines do not matter. -/
theorem readsEach_numbered {lines : List String} :
    ReadsEach options unit ((List.range' 1 lines.length).zip lines) nodes ↔
      List.Forall₂ (fun line n => ReadsAs options unit n line) lines (walkOf nodes) := by
  have hiff := List.forall₂_map_left_iff (R := fun line n => ReadsAs options unit n line)
    (f := Prod.snd) (l := (List.range' 1 lines.length).zip lines) (u := walkOf nodes)
  rw [List.map_snd_zip (by simp)] at hiff
  exact hiff.symm

/-- Neither do those of the nodes, or the indexes. -/
theorem ReadsEach.congr {nodes' : List Node} (h : ReadsEach options unit lines nodes)
    (hbare : bareOf nodes = bareOf nodes') : ReadsEach options unit lines nodes' := by
  have hiff : ∀ nodes, ReadsEach options unit lines nodes ↔
      List.Forall₂ (fun e n => ReadsAs options unit n e.2) lines (walkOf (bareOf nodes)) := by
    intro nodes
    rw [walkOf_bareOf, List.forall₂_map_right_iff]
    simp only [ReadsAs.bare_iff, ReadsEach]
  rw [hiff, ← hbare]
  exact (hiff nodes).1 h

/-- Where nothing is indented, the lines are read as they are with tabs. -/
theorem ReadsEach.tab (h : ReadsEach options unit lines nodes) (hindents : indents nodes = false) :
    ReadsEach options ['\t'] lines nodes := by
  have hlevels : ∀ n ∈ walkOf nodes, n.isVoid = true ∨ n.level = 0 := by
    intro n hn
    have hnot := List.any_eq_false.1 hindents n hn
    rw [Bool.and_eq_true, decide_eq_true_eq, Bool.not_eq_true', not_and_or, Bool.not_eq_false,
      Nat.not_lt, Nat.le_zero] at hnot
    exact hnot
  have hflip : List.Forall₂ (fun n e => ReadsAs options unit n e.2) (walkOf nodes) lines := h.flip
  have hboth := (List.forall₂_and_left _ _).2 ⟨hlevels, hflip⟩
  exact .flip (hboth.imp fun n e hread => hread.2.of_level_zero hread.1 _)

end

/-! ## Documents -/

namespace Document

variable {fileName : String} {options : Options} {lines : List (Nat × String)} {nodes : List Node}

/-- The lines of a document without errors are read one by one as its nodes. -/
theorem readsEach_of_errors (h : (ofLines fileName options lines).errors = 0) :
    Orderly 0 (ofLines fileName options lines).root.nodes ∧
      ∃ unit, IsUnit unit ∧ (ofLines fileName options lines).indentation = String.ofList unit ∧
        ReadsEach options unit lines (ofLines fileName options lines).root.nodes := by
  obtain ⟨unit, known, nodes, hunit, htab, hreads⟩ := reads_of_errors h
  obtain ⟨hroot, hindentation, _⟩ := hreads.ofLines_eq hunit htab fileName
  have hnodes : (ofLines fileName options lines).root.nodes = setLevels 0 nodes := by
    rw [hroot, setLevels_eq_map]
    rfl
  obtain ⟨front, hfront, hlines⟩ := hreads.readsEach
  rw [List.append_nil] at hfront
  subst hfront
  rw [hnodes]
  exact ⟨hreads.orderly, unit, hunit, hindentation, hlines⟩

/-- Lines that are read one by one as orderly nodes are loaded as these nodes without errors. -/
theorem ofLines_of_readsEach (ho : Orderly 0 nodes) {unit : List Char} (hunit : IsUnit unit)
    (h : ReadsEach options unit lines nodes) (fileName : String) :
    (ofLines fileName options lines).errors = 0 ∧
      bareOf (ofLines fileName options lines).root.nodes = bareOf nodes := by
  -- without an indented line the unit is a tab
  obtain ⟨unit', hunit', htab, h'⟩ : ∃ unit', IsUnit unit' ∧
      (indents nodes = false → unit' = ['\t']) ∧ ReadsEach options unit' lines nodes := by
    cases hindents : indents nodes with
    | false => exact ⟨['\t'], isUnit_tab, fun _ => rfl, h.tab hindents⟩
    | true => exact ⟨unit, hunit, fun hfalse => (Bool.false_ne_true hfalse.symm).elim, h⟩
  have hend : Stops unit' 0 [] := fun _ he => by cases he
  obtain ⟨nodes', hreads, hbare⟩ := ho.exists_reads h' hend false
  rw [List.append_nil, Bool.false_or] at hreads
  obtain ⟨hroot, _, herrors⟩ := hreads.ofLines_eq hunit' htab fileName
  refine ⟨herrors, ?_⟩
  rw [hroot, ← hbare, setLevels_eq_map]
  rfl

/-- The nodes of lines that are numbered from one have these numbers. -/
theorem line_ofLines (fileName : String) (options : Options) (lines : List String) :
    (walkOf (ofLines fileName options ((List.range' 1 lines.length).zip lines)).root.nodes).map Node.line
      = (List.range' 1 lines.length).map some := by
  have hnumbers : ∀ l : List (Nat × String), l.map (some ·.1) = (l.map Prod.fst).map some :=
    fun l => List.map_map.symm
  rw [(ofLines_walk fileName options _).1, hnumbers, List.map_fst_zip (by simp)]

/-- What is known of a document that was read without errors from a text of `count` lines: every node
comes from a line of it, and the numbers on a walk are those of the lines. -/
structure IsRead (d : Document) (options : Options) (unit : List Char) (count : Nat) : Prop where
  someSeparator : options.separator.isEmpty = false
  separator : d.separator = options.separator
  isUnit : IsUnit unit
  indentation : d.indentation.toList = unit
  orderly : Orderly 0 d.root.nodes
  fromLine : ∀ n ∈ walkOf d.root.nodes, FromLine options unit n
  numbers : (walkOf d.root.nodes).map Node.line = (List.range' 1 count).map some

theorem exists_isRead {source : String} {d : Document} (hplain : ∀ c ∈ source.toList, IsPlain c)
    (h : loadText source fileName options = .ok d) (herrors : d.errors = 0) :
    ∃ unit, d.IsRead options unit (textLines source.toList).length := by
  obtain ⟨hseparator, rfl⟩ := (loadText_eq_ok (sourceLines_toBytes hplain)).1 h
  obtain ⟨ho, unit, hunit, hindentation, heach⟩ := readsEach_of_errors herrors
  refine ⟨unit, hseparator, rfl, hunit, by rw [hindentation, String.toList_ofList], ho, fun n hn => ?_, ?_⟩
  · obtain ⟨e, he, hread⟩ := heach.exists_line hn
    refine ⟨e.2, hread, fun c hc => ?_⟩
    obtain ⟨chars, hchars, heq⟩ := List.mem_map.1 (List.of_mem_zip he).2
    rw [← heq, String.toList_ofList] at hc
    obtain ⟨hmem, hfeed⟩ := mem_textLines hchars c hc
    exact ⟨hfeed, hplain c hmem⟩
  · have hnumbers := line_ofLines fileName options ((textLines source.toList).map String.ofList)
    rwa [List.length_map] at hnumbers

/-- A walk meets as many nodes as there are lines. -/
theorem IsRead.length_walkOf {d : Document} {unit : List Char} {count : Nat}
    (h : d.IsRead options unit count) : (walkOf d.root.nodes).length = count := by
  simpa using congrArg List.length h.numbers

theorem lines_ne_nil {d : Document} (hne : d.root.nodes ≠ []) : d.lines ≠ [] := by
  obtain ⟨n, rest, hnodes⟩ := List.exists_cons_of_ne_nil hne
  rw [Document.lines, linesOf_eq_map, hnodes, walkOf]
  cases n <;> simp [Node.walk]

/-- A document that has nodes is saved as its lines, if they can be told apart again. -/
theorem loadText_save_eq {d d' : Document} (hne : d.root.nodes ≠ [])
    (hkept : ∀ n ∈ walkOf d.root.nodes,
      Kept (n.lineText d.indentation.toList d.saveSeparator.toList)) :
    loadText d.save fileName options = .ok d' ↔ options.separator.isEmpty = false ∧
      ofLines fileName options ((List.range' 1 d.lines.length).zip d.lines) = d' := by
  apply loadText_eq_ok
  have hlines : d.lines = _ := linesOf_eq_map d.indentation.toList d.saveSeparator.toList d.root.nodes
  refine sourceLines_of_kept (lines_ne_nil hne) fun line hline => ?_
  rw [hlines] at hline
  obtain ⟨n, hn, rfl⟩ := List.mem_map.1 hline
  rw [String.toList_ofList]
  exact hkept n hn

/-- **What a document is saved as is loaded as the same nodes if every written line is read as the
node that it was written for, and only then.** -/
theorem exists_loadText_save_iff {d : Document} (hseparator : options.separator.isEmpty = false)
    (ho : Orderly 0 d.root.nodes) (hne : d.root.nodes ≠ [])
    (hkept : ∀ n ∈ walkOf d.root.nodes,
      Kept (n.lineText d.indentation.toList d.saveSeparator.toList)) :
    (∃ d', loadText d.save fileName options = .ok d' ∧ d'.errors = 0 ∧
        bareOf d'.root.nodes = bareOf d.root.nodes) ↔
      ∃ unit, IsUnit unit ∧ ∀ n ∈ walkOf d.root.nodes, ReadsAs options unit n
        (String.ofList (n.lineText d.indentation.toList d.saveSeparator.toList)) := by
  -- the lines are those of the nodes on the walk, and their numbers do not matter
  have hall : ∀ unit, ReadsEach options unit ((List.range' 1 d.lines.length).zip d.lines) d.root.nodes ↔
      ∀ n ∈ walkOf d.root.nodes, ReadsAs options unit n
        (String.ofList (n.lineText d.indentation.toList d.saveSeparator.toList)) := by
    intro unit
    have hlines : d.lines = _ := linesOf_eq_map d.indentation.toList d.saveSeparator.toList d.root.nodes
    rw [readsEach_numbered, hlines, List.forall₂_map_left_iff, List.forall₂_same]
  simp only [loadText_save_eq hne hkept]
  constructor
  · rintro ⟨_, ⟨_, rfl⟩, herrors, hbare⟩
    obtain ⟨_, unit, hunit, _, hread⟩ := readsEach_of_errors herrors
    exact ⟨unit, hunit, (hall unit).1 (hread.congr hbare)⟩
  · rintro ⟨unit, hunit, hread⟩
    obtain ⟨herrors, hbare⟩ := ofLines_of_readsEach ho hunit ((hall unit).2 hread) fileName
    exact ⟨_, ⟨hseparator, rfl⟩, herrors, hbare⟩

/-- The numbers of the lines come back with the nodes. -/
theorem IsRead.exists_same_iff {d : Document} {unit : List Char} {count : Nat}
    (h : d.IsRead options unit count) (hne : d.root.nodes ≠ [])
    (hkept : ∀ n ∈ walkOf d.root.nodes,
      Kept (n.lineText d.indentation.toList d.saveSeparator.toList)) :
    (∃ d', loadText d.save fileName options = .ok d' ∧ d'.errors = 0 ∧
        sameNodes d'.root.nodes d.root.nodes = true) ↔
      ∃ d', loadText d.save fileName options = .ok d' ∧ d'.errors = 0 ∧
        bareOf d'.root.nodes = bareOf d.root.nodes := by
  have hcount : d.lines.length = count :=
    (length_linesOf d.indentation.toList d.saveSeparator.toList d.root.nodes).trans h.length_walkOf
  refine exists_congr fun d' => and_congr_right fun hload => and_congr_right fun _ => ?_
  rw [sameNodes_iff, and_iff_left_iff_imp]
  intro _
  obtain ⟨_, rfl⟩ := (loadText_save_eq hne hkept).1 hload
  rw [h.numbers, line_ofLines, hcount]

end Document

end ScriptStore.Config
