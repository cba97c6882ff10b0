import ScriptStore.Proofs.Config.Places

/-!
# Splitting the simple lines of a tree

Simple lines are turned into entries down to some depth. The work is done on the way through the tree:
a block that is within the limit has its lines split, its nodes put at their levels and its index made
anew. What results is said here place by place. `convertedAt` is what becomes of a node at a level, and
what stands below it at some place is what stood there, itself converted with what is left of the limit.

A line that was split is no simple line any more, so a second run finds only the lines below the first
limit: two runs are one run with the larger limit, and report the same lines.
-/

namespace ScriptStore.Config

def Node.isSimple : Node → Bool
  | .leaf _ .simple => true
  | _ => false

/-! ## Limits -/

/-- Whether a depth is within a limit, if there is one. -/
def Within (levels : Option Nat) (depth : Nat) : Prop := ∀ limit ∈ levels, depth ≤ limit

instance (levels : Option Nat) (depth : Nat) : Decidable (Within levels depth) :=
  inferInstanceAs (Decidable (∀ limit ∈ levels, depth ≤ limit))

/-- The larger of two limits, where no limit is larger than any. -/
def larger : Option Nat → Option Nat → Option Nat
  | some a, some b => some (max a b)
  | _, _ => none

theorem within_zero (levels : Option Nat) : Within levels 0 := fun limit _ => Nat.zero_le limit

theorem not_within_succ (depth : Nat) : ¬Within (some 0) (depth + 1) := fun h =>
  Nat.not_succ_le_zero depth (h 0 rfl)

/-- One section further down, one less is left of the limit. -/
theorem within_succ {levels : Option Nat} (h : levels ≠ some 0) (depth : Nat) :
    Within levels (depth + 1) ↔ Within (levels.map (· - 1)) depth := by
  cases levels with
  | none => simp [Within]
  | some limit =>
    have hpos : limit ≠ 0 := fun hzero => h (congrArg some hzero)
    simp only [Within, Option.map_some, Option.mem_def, Option.some.injEq, forall_eq']
    omega

theorem larger_zero_left (b : Option Nat) : larger (some 0) b = b := by
  cases b with
  | none => rfl
  | some b => exact congrArg some (Nat.zero_max b)

theorem larger_zero_right (a : Option Nat) : larger a (some 0) = a := by
  cases a with
  | none => rfl
  | some a => exact congrArg some (Nat.max_zero a)

theorem larger_ne_zero {a b : Option Nat} (ha : a ≠ some 0) : larger a b ≠ some 0 := by
  cases a with
  | none => simp [larger]
  | some a =>
    cases b with
    | none => simp [larger]
    | some b =>
      intro h
      have hmax : max a b = 0 := Option.some.inj h
      exact ha (congrArg some (by omega))

theorem map_larger {a b : Option Nat} :
    (larger a b).map (· - 1) = larger (a.map (· - 1)) (b.map (· - 1)) := by
  cases a with
  | none => rfl
  | some a =>
    cases b with
    | none => rfl
    | some b =>
      have hmax : max a b - 1 = max (a - 1) (b - 1) := by omega
      exact congrArg some hmax

/-! ## What becomes of a node -/

theorem Index.noteAll_congr {nodes nodes' : List Node}
    (h : nodes.map Node.name? = nodes'.map Node.name?) (index : Index) (start : Nat) :
    index.noteAll start nodes = index.noteAll start nodes' := by
  induction nodes generalizing nodes' index start with
  | nil =>
    cases nodes' with
    | nil => rfl
    | cons => cases h
  | cons n rest ih =>
    cases nodes' with
    | nil => cases h
    | cons n' rest' =>
      rw [List.map_cons, List.map_cons, List.cons.injEq] at h
      rw [noteAll, noteAll, note_eq, note_eq, h.1, ih h.2]

/-- An index depends on the names only. -/
theorem Index.ofNodes_congr {nodes nodes' : List Node}
    (h : nodes.map Node.name? = nodes'.map Node.name?) : ofNodes nodes = ofNodes nodes' :=
  noteAll_congr h {} 0

namespace Section

theorem convertNodes_snd (separator : String) (levels : Option Nat) (nodes : List Node) :
    (convertNodes separator levels nodes).2
      = nodes.flatMap fun n => (convertNode separator levels n).2 := by
  induction nodes with
  | nil => rw [convertNodes]; rfl
  | cons n rest ih => rw [convertNodes, List.flatMap_cons, ← ih]

/-- What becomes of a node that is converted and put at a level. -/
def convertedAt (separator : String) (level : Nat) (levels : Option Nat) (n : Node) : Node :=
  (convertNode separator levels n).1.setLevel level

section

variable (separator : String) (level : Nat) {levels : Option Nat} {h : Header} {content : Leaf}
  {index : Index} {childLevel : Nat} {nodes : List Node}

theorem convertNode_leaf (hcontent : content ≠ .simple) :
    convertNode separator levels (.leaf h content) = (.leaf h content, []) := by
  cases content with
  | simple => exact absurd rfl hcontent
  | _ => rw [convertNode]; exact Leaf.noConfusion

theorem convertNode_simple :
    convertNode separator levels (.leaf h .simple) =
      ((entryFromText (h.key.getD "") separator h.comment h.line).1,
        (entryFromText (h.key.getD "") separator h.comment h.line).2.toList) := by
  rw [convertNode]

theorem convertNode_block_zero :
    convertNode separator (some 0) (.block h index childLevel nodes)
      = (.block h index childLevel nodes, []) := by
  rw [convertNode]

theorem convertNode_block_snd (hlevels : levels ≠ some 0) :
    (convertNode separator levels (.block h index childLevel nodes)).2
      = nodes.flatMap fun n => (convertNode separator (levels.map (· - 1)) n).2 := by
  rw [← convertNodes_snd, convertNode]
  exact hlevels

theorem convertedAt_leaf (hcontent : content ≠ .simple) :
    convertedAt separator level levels (.leaf h content) = .leaf { h with level } content := by
  rw [convertedAt, convertNode_leaf separator hcontent, Node.setLevel]

/-- Within the limit, the nodes of a block are converted one level deeper. -/
theorem convertedAt_block (hlevels : levels ≠ some 0) :
    convertedAt separator level levels (.block h index childLevel nodes) =
      let nodes := nodes.map (convertedAt separator (level + 1) (levels.map (· - 1)))
      .block { h with level } (Index.ofNodes nodes) (level + 1) nodes := by
  have hnodes : setLevels (level + 1) (setLevels childLevel
      (convertNodes separator (levels.map (· - 1)) nodes).1)
        = nodes.map (convertedAt separator (level + 1) (levels.map (· - 1))) := by
    rw [setLevels_setLevels, convertNodes_fst, setLevels_eq_map, List.map_map]
    rfl
  -- the index was made when the nodes were at their old level
  have hindex : Index.ofNodes (setLevels childLevel (convertNodes separator (levels.map (· - 1)) nodes).1)
      = Index.ofNodes (nodes.map (convertedAt separator (level + 1) (levels.map (· - 1)))) := by
    refine Index.ofNodes_congr ?_
    rw [← hnodes]
    exact (Node.names_setLevels ..).symm
  rw [convertedAt, convertNode_block separator hlevels]
  dsimp only
  rw [Node.setLevel, hnodes, hindex]

theorem convertedAt_block_zero :
    convertedAt separator level (some 0) (.block h index childLevel nodes)
      = .block { h with level } index (level + 1) (setLevels (level + 1) nodes) := by
  rw [convertedAt, convertNode_block_zero, Node.setLevel]

/-- A line is split into an entry, or it becomes invalid. -/
theorem exists_entryFromText (text comment : String) (line : Option Nat) :
    ∃ key content, content ≠ .simple ∧
      (entryFromText text separator comment line).1 = Node.ofLeaf (some key) comment line content := by
  unfold entryFromText
  cases Text.splitOnce separator.toList text.toList with
  | none => exact ⟨_, _, Leaf.noConfusion, rfl⟩
  | some cut => exact ⟨_, _, Leaf.noConfusion, rfl⟩

/-- A line that was split is not split again. -/
theorem exists_convertedAt_simple (h : Header) (levels : Option Nat) :
    ∃ key content, content ≠ .simple ∧
      convertedAt separator level levels (.leaf h .simple)
        = .leaf { h with key := some key, level } content := by
  obtain ⟨key, content, hcontent, heq⟩ :=
    exists_entryFromText separator (h.key.getD "") h.comment h.line
  refine ⟨key, content, hcontent, ?_⟩
  rw [convertedAt, convertNode_simple, heq]
  rfl

/-- A leaf stays a leaf. -/
theorem exists_convertedAt_leaf (h : Header) (content : Leaf) (levels : Option Nat) :
    ∃ h' content', convertedAt separator level levels (.leaf h content) = .leaf h' content' := by
  by_cases hcontent : content = .simple
  · obtain ⟨key, content', _, heq⟩ := exists_convertedAt_simple separator level h levels
    exact ⟨_, _, hcontent ▸ heq⟩
  · exact ⟨_, _, convertedAt_leaf separator level hcontent⟩

end

theorem convertToEntries_fst (s : Section) (levels : Option Nat) (separator : String) :
    (s.convertToEntries levels separator).1
      = s.withNodes (s.nodes.map (convertedAt separator s.childLevel levels)) := by
  have hnodes : setLevels s.childLevel (convertNodes separator levels s.nodes).1
      = s.nodes.map (convertedAt separator s.childLevel levels) := by
    rw [convertNodes_fst, setLevels_eq_map, List.map_map]
    rfl
  rw [convertToEntries, ← hnodes]

theorem convertToEntries_snd (s : Section) (levels : Option Nat) (separator : String) :
    (s.convertToEntries levels separator).2 = (convertNodes separator levels s.nodes).2 := rfl

/-! ## Place by place -/

theorem inner_convertedAt (separator : String) (level : Nat) {levels : Option Nat}
    (hlevels : levels ≠ some 0) (n : Node) :
    (convertedAt separator level levels n).inner
      = n.inner.map (convertedAt separator (level + 1) (levels.map (· - 1))) := by
  cases n with
  | block h index childLevel nodes => rw [convertedAt_block separator level hlevels]; rfl
  | leaf h content =>
    obtain ⟨h', content', heq⟩ := exists_convertedAt_leaf separator level h content levels
    rw [heq]
    rfl

/-- Below the limit nothing but levels changes. -/
theorem at?_convertedAt_zero (separator : String) (level : Nat) (n : Node) (i : Nat) (rest : List Nat) :
    (convertedAt separator level (some 0) n).at? (i :: rest) = (n.setLevel level).at? (i :: rest) := by
  have hinner : (convertedAt separator level (some 0) n).inner = (n.setLevel level).inner := by
    cases n with
    | block h index childLevel nodes => rw [convertedAt_block_zero, Node.setLevel]
    | leaf h content =>
      obtain ⟨h', content', heq⟩ := exists_convertedAt_leaf separator level h content (some 0)
      rw [heq]
      rfl
  rw [Node.at?, Node.at?, hinner]

/-- **At a place of a converted tree there is what stood there, converted with what is left of the
limit,** or only put at its level if the limit is passed. -/
theorem at?_convertedAt (separator : String) (level : Nat) (levels : Option Nat) (n : Node)
    (place : List Nat) :
    (convertedAt separator level levels n).at? place = (n.at? place).map fun m =>
      if Within levels place.length
      then convertedAt separator (level + place.length) (levels.map (· - place.length)) m
      else m.setLevel (level + place.length) := by
  induction place generalizing level levels n with
  | nil =>
    have hsame : levels.map (· - 0) = levels := by cases levels <;> rfl
    simp only [Node.at?, List.length_nil, within_zero, if_true, Option.map_some, Nat.add_zero, hsame]
  | cons i rest ih =>
    have hdepth : level + 1 + rest.length = level + (rest.length + 1) := by omega
    by_cases hlevels : levels = some 0
    · subst hlevels
      rw [at?_convertedAt_zero, Node.at?_setLevel, List.length_cons]
      simp only [not_within_succ, if_false]
    · have hrest : (levels.map (· - 1)).map (· - rest.length) = levels.map (· - (rest.length + 1)) := by
        rw [Option.map_map]
        congr 1
        funext limit
        rw [Function.comp_apply, Nat.sub_sub, Nat.add_comm 1]
      rw [Node.at?, Node.at?, inner_convertedAt separator level hlevels, List.getElem?_map,
        Option.bind_map, Option.map_bind, List.length_cons]
      refine Option.bind_congr fun m _ => ?_
      rw [Function.comp_apply, ih, hdepth, hrest]
      simp only [within_succ hlevels]
      rfl

/-- What becomes of a node as such: a simple line is split, all else stays, but for the level. -/
theorem face_convertedAt (separator : String) (level : Nat) (levels : Option Nat) (n : Node) :
    (convertedAt separator level levels n).face =
      ((if n.isSimple then (entryFromText (n.key.getD "") separator n.comment n.line).1 else n).setLevel
        level).face := by
  cases n with
  | leaf h content =>
    cases content with
    | simple => rw [convertedAt, convertNode_simple]; rfl
    | _ => rw [convertedAt_leaf separator level Leaf.noConfusion]; rfl
  | block h index childLevel nodes =>
    by_cases hlevels : levels = some 0
    · rw [hlevels, convertedAt_block_zero]
      rfl
    · rw [convertedAt_block separator level hlevels]
      rfl

/-! ## Twice is once -/

section

variable (separator : String)

/-- The level at which a node stood before makes no difference. -/
theorem convertedAt_setLevel (level old : Nat) (levels : Option Nat) (n : Node) :
    convertedAt separator level levels (n.setLevel old) = convertedAt separator level levels n := by
  induction n using Node.blockInduction generalizing level old levels with
  | leaf h content =>
    by_cases hcontent : content = .simple
    · rw [hcontent, convertedAt, convertedAt, Node.setLevel, convertNode_simple, convertNode_simple]
    · rw [Node.setLevel, convertedAt_leaf separator level hcontent,
        convertedAt_leaf separator level hcontent]
  | block h index childLevel nodes ih =>
    rw [Node.setLevel]
    by_cases hlevels : levels = some 0
    · rw [hlevels, convertedAt_block_zero, convertedAt_block_zero, setLevels_setLevels]
    · have hnodes : (setLevels (old + 1) nodes).map
          (convertedAt separator (level + 1) (levels.map (· - 1)))
            = nodes.map (convertedAt separator (level + 1) (levels.map (· - 1))) := by
        rw [setLevels_eq_map, List.map_map]
        exact List.map_congr_left fun n hn => ih n hn _ _ _
      rw [convertedAt_block separator level hlevels,
        convertedAt_block separator level hlevels, hnodes]

theorem convertNode_snd_setLevel (old : Nat) (levels : Option Nat) (n : Node) :
    (convertNode separator levels (n.setLevel old)).2 = (convertNode separator levels n).2 := by
  induction n using Node.blockInduction generalizing old levels with
  | leaf h content =>
    by_cases hcontent : content = .simple
    · rw [hcontent, Node.setLevel, convertNode_simple, convertNode_simple]
    · rw [Node.setLevel, convertNode_leaf separator hcontent, convertNode_leaf separator hcontent]
  | block h index childLevel nodes ih =>
    rw [Node.setLevel]
    by_cases hlevels : levels = some 0
    · rw [hlevels, convertNode_block_zero, convertNode_block_zero]
    · rw [convertNode_block_snd separator hlevels, convertNode_block_snd separator hlevels,
        setLevels_eq_map, List.flatMap_map]
      exact List.flatMap_congr fun n hn => ih n hn _ _

/-- **Converting a node twice is converting it once with the larger limit.** -/
theorem convertedAt_convertedAt (level : Nat) (a b : Option Nat) (n : Node) :
    convertedAt separator level b (convertedAt separator level a n)
      = convertedAt separator level (larger a b) n := by
  induction n using Node.blockInduction generalizing level a b with
  | leaf h content =>
    by_cases hcontent : content = .simple
    · -- once split, a line is left alone
      obtain ⟨key, content', hcontent', heq⟩ := exists_convertedAt_simple separator level h a
      have hany : convertedAt separator level (larger a b) (.leaf h .simple)
          = convertedAt separator level a (.leaf h .simple) := by
        rw [convertedAt, convertedAt, convertNode_simple, convertNode_simple]
      rw [hcontent, hany, heq, convertedAt_leaf separator level hcontent']
    · rw [convertedAt_leaf separator level hcontent, convertedAt_leaf separator level hcontent,
        convertedAt_leaf separator level hcontent]
  | block h index childLevel nodes ih =>
    by_cases ha : a = some 0
    · -- the first run leaves the block alone
      have hfirst : convertedAt separator level (some 0) (.block h index childLevel nodes)
          = (Node.block h index childLevel nodes).setLevel level := by
        rw [convertedAt, convertNode_block_zero]
      rw [ha, larger_zero_left, hfirst, convertedAt_setLevel]
    · rw [convertedAt_block separator level ha]
      by_cases hb : b = some 0
      · -- the nodes are at their level already
        have hnodes : setLevels (level + 1)
            (nodes.map (convertedAt separator (level + 1) (a.map (· - 1))))
              = nodes.map (convertedAt separator (level + 1) (a.map (· - 1))) := by
          rw [setLevels_eq_map, List.map_map]
          exact List.map_congr_left fun n _ => Node.setLevel_setLevel ..
        rw [hb, larger_zero_right, convertedAt_block_zero, convertedAt_block separator level ha, hnodes]
      · have hnodes : (nodes.map (convertedAt separator (level + 1) (a.map (· - 1)))).map
            (convertedAt separator (level + 1) (b.map (· - 1)))
              = nodes.map (convertedAt separator (level + 1) ((larger a b).map (· - 1))) := by
          rw [List.map_map, map_larger]
          exact List.map_congr_left fun n hn => ih n hn _ _ _
        rw [convertedAt_block separator level hb,
          convertedAt_block separator level (larger_ne_zero ha), hnodes]

/-- What is found in two runs is what is found in one. -/
theorem perm_convertNode_snd (level : Nat) (a b : Option Nat) (n : Node) :
    ((convertNode separator a n).2 ++
      (convertNode separator b (convertedAt separator level a n)).2).Perm
        (convertNode separator (larger a b) n).2 := by
  induction n using Node.blockInduction generalizing level a b with
  | leaf h content =>
    by_cases hcontent : content = .simple
    · obtain ⟨key, content', hcontent', heq⟩ := exists_convertedAt_simple separator level h a
      rw [hcontent, heq, convertNode_leaf separator hcontent', List.append_nil, convertNode_simple,
        convertNode_simple]
    · rw [convertedAt_leaf separator level hcontent, convertNode_leaf separator hcontent,
        convertNode_leaf separator hcontent, convertNode_leaf separator hcontent]
      rfl
  | block h index childLevel nodes ih =>
    by_cases ha : a = some 0
    · rw [ha, larger_zero_left, convertedAt, convertNode_block_zero, convertNode_snd_setLevel]
      rfl
    · rw [convertedAt_block separator level ha, convertNode_block_snd separator ha]
      by_cases hb : b = some 0
      · rw [hb, larger_zero_right, convertNode_block_zero, convertNode_block_snd separator ha,
          List.append_nil]
      · rw [convertNode_block_snd separator hb, convertNode_block_snd separator (larger_ne_zero ha),
          map_larger, List.flatMap_map]
        refine (List.flatMap_append_perm ..).trans (List.Perm.flatMap_left _ fun n hn => ?_)
        exact ih n hn _ _ _

end

/-! ## One finding for each line -/

/-- The finding about a simple line that has become invalid. -/
def newlyInvalid (separator : String) (p : Node × Node) : Option Diagnostic :=
  if p.1.isSimple && p.2.isInvalid then
    let text := p.1.key.getD ""
    some ⟨.error, s!"'{text}' is not an entry (like 'name {separator} value')", p.1.line⟩
  else none

end Section

/-- Walks through nodes and what has become of them, side by side. -/
theorem zip_walkOf_map {f : Node → Node} {nodes : List Node}
    (h : ∀ n ∈ nodes, (f n).walk.length = n.walk.length) :
    (walkOf nodes).zip (walkOf (nodes.map f)) = nodes.flatMap fun n => n.walk.zip (f n).walk := by
  induction nodes with
  | nil => rfl
  | cons n rest ih =>
    obtain ⟨hfirst, hrest⟩ := List.forall_mem_cons.1 h
    rw [List.map_cons, walkOf, walkOf, List.zip_append hfirst.symm, ih hrest, List.flatMap_cons]

namespace Section

variable (separator : String)

theorem length_walk_setLevel (level : Nat) (n : Node) :
    (n.setLevel level).walk.length = n.walk.length := by
  simpa using congrArg List.length (Node.marks_setLevel level n)

theorem length_walk_convertedAt (level : Nat) (levels : Option Nat) (n : Node) :
    (convertedAt separator level levels n).walk.length = n.walk.length := by
  induction n using Node.blockInduction generalizing level levels with
  | leaf h content =>
    obtain ⟨h', content', heq⟩ := exists_convertedAt_leaf separator level h content levels
    rw [heq]
    rfl
  | block h index childLevel nodes ih =>
    by_cases hlevels : levels = some 0
    · rw [hlevels, convertedAt, convertNode_block_zero, length_walk_setLevel]
    · rw [convertedAt_block separator level hlevels, Node.walk, Node.walk, walkOf_eq_flatMap,
        walkOf_eq_flatMap, List.length_cons, List.length_cons, List.length_flatMap,
        List.length_flatMap, List.map_map]
      congr 2
      exact List.map_congr_left fun n hn => ih n hn _ _

/-- A node that is only moved has not become invalid. -/
theorem newlyInvalid_setLevel (level : Nat) (n : Node) :
    (n.walk.zip (n.setLevel level).walk).filterMap (newlyInvalid separator) = [] := by
  rw [List.filterMap_eq_nil_iff]
  intro p hp
  obtain ⟨i, hi⟩ := List.mem_iff_getElem?.1 hp
  obtain ⟨hold, hnew⟩ := List.getElem?_zip_eq_some.1 hi
  have hmarks := congrArg (·[i]?) (Node.marks_setLevel level n)
  simp only [List.getElem?_map, hold, hnew, Option.map_some, Option.some.injEq, Prod.mk.injEq] at hmarks
  obtain ⟨_, hsame⟩ := hmarks
  rw [newlyInvalid, hsame, if_neg]
  -- no node is a simple line and an invalid one
  cases p.1 with
  | leaf h content => cases content <;> exact Bool.false_ne_true
  | block => exact Bool.false_ne_true

/-- **What is found is about the simple lines that become invalid, one by one.** -/
theorem convertNode_snd_eq (level : Nat) (levels : Option Nat) (n : Node) :
    (convertNode separator levels n).2
      = (n.walk.zip (convertedAt separator level levels n).walk).filterMap (newlyInvalid separator) := by
  induction n using Node.blockInduction generalizing level levels with
  | leaf h content =>
    by_cases hcontent : content = .simple
    · rw [hcontent, convertedAt, convertNode_simple, entryFromText]
      cases Text.splitOnce separator.toList (h.key.getD "").toList with
      | none => rfl
      | some cut => rfl
    · rw [convertNode_leaf separator hcontent, convertedAt_leaf separator level hcontent]
      cases content with
      | simple => exact absurd rfl hcontent
      | _ => rfl
  | block h index childLevel nodes ih =>
    by_cases hlevels : levels = some 0
    · rw [hlevels, convertedAt, convertNode_block_zero, newlyInvalid_setLevel]
    · have hlengths : ∀ n ∈ nodes, (convertedAt separator (level + 1) (levels.map (· - 1)) n).walk.length
          = n.walk.length := fun n _ => length_walk_convertedAt separator _ _ n
      rw [convertedAt_block separator level hlevels, convertNode_block_snd separator hlevels, Node.walk,
        Node.walk, List.zip_cons_cons, List.filterMap_cons_none rfl, zip_walkOf_map hlengths,
        List.filterMap_flatMap]
      exact List.flatMap_congr fun n hn => ih n hn _ _

/-! ## Sections -/

variable (s : Section) (a b : Option Nat)

/-- What stands at a place of a converted section. -/
theorem face_at?_convertToEntries (i : Nat) (rest : List Nat) :
    ((s.convertToEntries a separator).1.at? i rest).map Node.face = (s.at? i rest).map fun n =>
      ((if n.isSimple = true ∧ Within a rest.length
          then (entryFromText (n.key.getD "") separator n.comment n.line).1
          else n).setLevel (s.childLevel + rest.length)).face := by
  rw [convertToEntries_fst, at?, at?, withNodes, List.getElem?_map, Option.bind_map, Option.map_bind,
    Option.map_bind]
  refine Option.bind_congr fun n _ => ?_
  rw [Function.comp_apply, Function.comp_apply, at?_convertedAt, Option.map_map]
  refine Option.map_congr fun m _ => ?_
  rw [Function.comp_apply]
  by_cases hwithin : Within a rest.length
  · rw [if_pos hwithin, face_convertedAt]
    simp only [hwithin, and_true]
  · rw [if_neg hwithin, if_neg fun h => hwithin h.2]

theorem convertToEntries_convertToEntries :
    ((s.convertToEntries a separator).1.convertToEntries b separator).1
      = (s.convertToEntries (larger a b) separator).1 := by
  have hnodes : (s.nodes.map (convertedAt separator s.childLevel a)).map
      (convertedAt separator s.childLevel b)
        = s.nodes.map (convertedAt separator s.childLevel (larger a b)) := by
    rw [List.map_map]
    exact List.map_congr_left fun n _ => convertedAt_convertedAt ..
  simp only [convertToEntries_fst, withNodes, hnodes]

theorem perm_convertToEntries_snd :
    ((s.convertToEntries a separator).2 ++
      ((s.convertToEntries a separator).1.convertToEntries b separator).2).Perm
        (s.convertToEntries (larger a b) separator).2 := by
  simp only [convertToEntries_fst, convertToEntries_snd, convertNodes_snd, withNodes, List.flatMap_map]
  refine (List.flatMap_append_perm ..).trans (List.Perm.flatMap_left _ fun n _ => ?_)
  exact perm_convertNode_snd separator s.childLevel a b n

/-- **Lines are split down to the limit, and two runs are one.** At every place, at most `a` sections
deep, a simple line has become what its text gives, and every other node is what it was, with its
comment, its line and its place; levels are those of the places, as they have been in a tidy section.
There is one finding for each simple line that has become invalid, in the order of the lines. Running
with `a` and then with `b` gives the section that one run with the larger limit gives, and together the
same findings. -/
theorem convertToEntries_by_depth (s : Section) (separator : String) (a b : Option Nat) :
    (∀ i rest, ((s.convertToEntries a separator).1.at? i rest).map Node.face
      = (s.at? i rest).map fun n =>
        ((if n.isSimple = true ∧ Within a rest.length
            then (entryFromText (n.key.getD "") separator n.comment n.line).1
            else n).setLevel (s.childLevel + rest.length)).face) ∧
    (∀ level, s.Tidy level → ∀ i rest n, s.at? i rest = some n →
      n.level = s.childLevel + rest.length) ∧
    (s.convertToEntries a separator).2 = ((walkOf s.nodes).zip
      (walkOf (s.convertToEntries a separator).1.nodes)).filterMap (newlyInvalid separator) ∧
    ((s.convertToEntries a separator).1.convertToEntries b separator).1
      = (s.convertToEntries (larger a b) separator).1 ∧
    ((s.convertToEntries a separator).2 ++
      ((s.convertToEntries a separator).1.convertToEntries b separator).2).Perm
        (s.convertToEntries (larger a b) separator).2 := by
  refine ⟨face_at?_convertToEntries separator s a, fun level hs i rest n hn => hs.level_at? hn, ?_,
    convertToEntries_convertToEntries separator s a b, perm_convertToEntries_snd separator s a b⟩
  rw [convertToEntries_fst, convertToEntries_snd, convertNodes_snd, withNodes,
    zip_walkOf_map fun n _ => length_walk_convertedAt separator _ _ n, List.filterMap_flatMap]
  exact List.flatMap_congr fun n _ => convertNode_snd_eq separator _ _ n

end Section

end ScriptStore.Config
