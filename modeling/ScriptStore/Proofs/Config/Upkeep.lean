import ScriptStore.Proofs.Config.Numbering
import ScriptStore.Proofs.Dict

/-!
# Index and levels are kept up

A section finds its nodes by an index from names to places, and every node has the level that it
stands at written in it. Both repeat what the tree says already, so every operation that changes the
tree has to keep them up: some make the index anew, some add one name to it, and some leave it as it
is because no name changes.

A section is tidy (`Section.Tidy`) if its index gives the last place of every name, its nodes have the
level that the section gives them, and the same holds of the blocks below, one level deeper. Every
operation keeps a section tidy, also on a section far below, and every node that is taken out is tidy
in itself, at the level it had; where it is put in, it gets the level of its new place.
-/

namespace ScriptStore.Config

/-! ## The index -/

/-- The lower-cased key under which a node is found. -/
def Node.name? (n : Node) : Option String := if n.isNamed then n.key.map Text.lowercase else none

/-- The last place of a name. -/
def lastPlace? (name : String) : List (Option String) → Option Nat
  | [] => none
  | x :: rest =>
    match lastPlace? name rest with
    | some i => some (i + 1)
    | none => if x = some name then some 0 else none

theorem lastPlace?_concat (name : String) (names : List (Option String)) (x : Option String) :
    lastPlace? name (names ++ [x]) =
      if x = some name then some names.length else lastPlace? name names := by
  induction names with
  | nil => rfl
  | cons y rest ih =>
    rw [List.cons_append, lastPlace?, ih, lastPlace?]
    by_cases hx : x = some name
    · rw [if_pos hx, if_pos hx]
      rfl
    · rw [if_neg hx, if_neg hx]

theorem lastPlace?_eq_none {name : String} {names : List (Option String)} :
    lastPlace? name names = none ↔ some name ∉ names := by
  induction names with
  | nil => simp [lastPlace?]
  | cons x rest ih =>
    rw [lastPlace?, List.mem_cons, not_or, ← ih]
    cases hrest : lastPlace? name rest with
    | some i => simp
    | none =>
      by_cases hx : x = some name
      · simp [hx]
      · simp [hx, Ne.symm hx]

theorem lastPlace?_eq_some {name : String} {names : List (Option String)} {i : Nat} :
    lastPlace? name names = some i ↔
      names[i]? = some (some name) ∧ ∀ j, i < j → names[j]? ≠ some (some name) := by
  induction names generalizing i with
  | nil => simp [lastPlace?]
  | cons x rest ih =>
    rw [lastPlace?]
    cases hrest : lastPlace? name rest with
    | some k =>
      -- the name comes again behind the first place, which is not the last one then
      obtain ⟨hk, hlast⟩ := ih.1 hrest
      constructor
      · rintro ⟨⟩
        refine ⟨hk, fun j hj => ?_⟩
        obtain ⟨j, rfl⟩ := Nat.exists_eq_succ_of_ne_zero (Nat.ne_zero_of_lt hj)
        exact hlast j (Nat.lt_of_succ_lt_succ hj)
      · rintro ⟨hi, hlater⟩
        cases i with
        | zero => exact absurd hk (hlater (k + 1) (Nat.succ_pos k))
        | succ i =>
          have hplace := ih.2 ⟨hi, fun j hj => hlater (j + 1) (Nat.succ_lt_succ hj)⟩
          rw [hrest] at hplace
          cases hplace
          rfl
    | none =>
      have habsent := lastPlace?_eq_none.1 hrest
      have hnowhere : ∀ j, rest[j]? ≠ some (some name) :=
        fun j hj => habsent (List.mem_of_getElem? hj)
      cases i with
      | zero =>
        by_cases hx : x = some name
        · simp only [hx, if_true, List.getElem?_cons_zero, true_and, true_iff]
          intro j hj
          obtain ⟨j, rfl⟩ := Nat.exists_eq_succ_of_ne_zero (Nat.ne_zero_of_lt hj)
          exact hnowhere j
        · simp [hx]
      | succ i =>
        constructor
        · intro h
          by_cases hx : x = some name <;> simp [hx] at h
        · rintro ⟨hi, -⟩
          exact absurd hi (hnowhere i)

/-- The node at the last place of a name is the first one from behind that has it. -/
theorem getElem?_lastPlace? (name : String) (nodes : List Node) :
    ((lastPlace? name (nodes.map Node.name?)).bind fun i => nodes[i]?)
      = nodes.reverse.find? fun n => n.name? == some name := by
  induction nodes using List.reverseRecOn with
  | nil => rfl
  | append_singleton nodes n ih =>
    rw [List.map_append, List.map_singleton, lastPlace?_concat, List.reverse_append,
      List.reverse_singleton, List.singleton_append, List.find?_cons, ← ih]
    by_cases hn : n.name? = some name
    · rw [if_pos hn, hn, beq_self_eq_true, List.length_map]
      exact List.getElem?_concat_length
    · rw [if_neg hn, beq_eq_false_iff_ne.2 hn]
      refine Option.bind_congr fun i hi => List.getElem?_append_left ?_
      have hplace := List.getElem?_eq_some_iff.1 (lastPlace?_eq_some.1 hi).1
      exact List.length_map Node.name? ▸ hplace.1

/-- An index gives the last place of every name. -/
def Index.Fits (index : Index) (names : List (Option String)) : Prop :=
  ∀ name, index.get? name = lastPlace? name names

namespace Index

theorem note_eq (index : Index) (n : Node) (i : Nat) :
    index.note n i = match n.name? with
      | some name => index.insert name i
      | none => index := by
  unfold note Node.name?
  cases n.isNamed with
  | false => rfl
  | true => cases n.key <;> rfl

theorem fits_empty : Fits {} [] := fun _ => rfl

/-- Noting a node behind the others. -/
theorem Fits.note {index : Index} {names : List (Option String)} (h : index.Fits names) (n : Node) :
    (index.note n names.length).Fits (names ++ [n.name?]) := by
  intro name
  rw [note_eq, lastPlace?_concat]
  cases n.name? with
  | none =>
    rw [if_neg (by simp)]
    exact h name
  | some new =>
    dsimp only
    rw [Dict.get?_insert, h name]
    simp only [Option.some.injEq]

theorem Fits.noteAll {index : Index} {names : List (Option String)} (h : index.Fits names)
    (nodes : List Node) : (index.noteAll names.length nodes).Fits (names ++ nodes.map Node.name?) := by
  induction nodes generalizing index names with
  | nil =>
    rw [List.map_nil, List.append_nil]
    exact h
  | cons n rest ih =>
    have hrest := ih (h.note n)
    rw [List.length_append, List.append_assoc] at hrest
    exact hrest

theorem fits_ofNodes (nodes : List Node) : (ofNodes nodes).Fits (nodes.map Node.name?) :=
  fits_empty.noteAll nodes

end Index

/-! ## Tidy nodes and sections -/

/-- A node at a level. The index of its block fits, and the nodes of its block are tidy one level
deeper. -/
inductive Node.Tidy : Nat → Node → Prop
  | leaf {level : Nat} {h : Header} {content : Leaf} (hlevel : h.level = level) :
      Tidy level (.leaf h content)
  | block {level : Nat} {h : Header} {index : Index} {nodes : List Node} (hlevel : h.level = level)
      (hindex : index.Fits (nodes.map Node.name?)) (hnodes : ∀ n ∈ nodes, Tidy (level + 1) n) :
      Tidy level (.block h index (level + 1) nodes)

/-- A section whose nodes stand at a level. -/
structure Section.Tidy (s : Section) (level : Nat) : Prop where
  index : s.index.Fits (s.nodes.map Node.name?)
  childLevel : s.childLevel = level
  nodes : ∀ n ∈ s.nodes, n.Tidy level

/-- A node that is tidy wherever it stood. -/
def Node.Loose (n : Node) : Prop := ∃ level, n.Tidy level

namespace Node

variable {n m : Node} {level : Nat}

theorem Tidy.level_eq (hn : n.Tidy level) : n.level = level := by
  cases hn with
  | leaf hlevel => exact hlevel
  | block hlevel _ _ => exact hlevel

theorem Tidy.loose (hn : n.Tidy level) : n.Loose := ⟨level, hn⟩

theorem loose_leaf (h : Header) (content : Leaf) : (leaf h content).Loose := ⟨h.level, .leaf rfl⟩

theorem name?_setLevel (level : Nat) (n : Node) : (n.setLevel level).name? = n.name? := by
  cases n with
  | leaf h content => cases content <;> rw [setLevel] <;> rfl
  | block h index _ nodes => rw [setLevel]; rfl

theorem names_setLevels (level : Nat) (nodes : List Node) :
    (setLevels level nodes).map name? = nodes.map name? := by
  rw [setLevels_eq_map, List.map_map]
  exact List.map_congr_left fun n _ => name?_setLevel level n

theorem tidy_setLevel_block {h : Header} {index : Index} {nodes : List Node}
    (hindex : index.Fits (nodes.map name?)) (childLevel : Nat)
    (hnodes : ∀ n ∈ nodes, (n.setLevel (level + 1)).Tidy (level + 1)) :
    ((block h index childLevel nodes).setLevel level).Tidy level := by
  rw [setLevel]
  refine .block rfl ((names_setLevels _ nodes).symm ▸ hindex) fun n hn => ?_
  rw [setLevels_eq_map] at hn
  obtain ⟨m, hm, rfl⟩ := List.mem_map.1 hn
  exact hnodes m hm

/-- A node gets the level of the place where it is put, and its block goes with it. -/
theorem Tidy.setLevel (hn : n.Tidy level) (new : Nat) : (n.setLevel new).Tidy new := by
  induction hn generalizing new with
  | leaf _ =>
    rw [Node.setLevel]
    exact .leaf rfl
  | block _ hindex _ ih => exact tidy_setLevel_block hindex _ fun m hm => ih m hm (new + 1)

theorem Loose.setLevel (hn : n.Loose) (new : Nat) : (n.setLevel new).Tidy new := by
  obtain ⟨_, hn⟩ := hn
  exact hn.setLevel new

/-- The section of a block is tidy one level deeper. -/
theorem Tidy.inner {t : Section} (hn : n.Tidy level) (ht : n.section? = some t) :
    t.Tidy (level + 1) := by
  cases hn with
  | leaf _ => cases ht
  | block _ hindex hnodes =>
    cases ht
    exact ⟨hindex, rfl, hnodes⟩

/-- Another content for a block. -/
theorem Tidy.replaceIn {t t' : Section} (hn : n.Tidy level) (ht : n.section? = some t)
    (ht' : t'.Tidy (level + 1)) : (t'.replaceIn n).Tidy level ∧ (t'.replaceIn n).name? = n.name? := by
  cases hn with
  | leaf _ => cases ht
  | block hlevel _ _ =>
    rw [Section.replaceIn, ht'.childLevel]
    exact ⟨.block hlevel ht'.index ht'.nodes, rfl⟩

theorem Tidy.setKey (hn : n.Tidy level) (key : String) : (n.setKey key).Tidy level := by
  cases hn with
  | leaf hlevel => exact .leaf hlevel
  | block hlevel hindex hnodes => exact .block hlevel hindex hnodes

/-- A section becomes a node. -/
theorem tidy_ofSection {s : Section} (hs : s.Tidy level) (key comment : String) (line : Option Nat) :
    (ofSection key comment line s).Tidy 0 :=
  tidy_setLevel_block hs.index _ fun n hn => (hs.nodes n hn).setLevel 1

end Node

/-! ## What the operations do -/

namespace Section

variable {s s' t : Section} {n m : Node} {level : Nat}

theorem tidy_empty : empty.Tidy 0 :=
  ⟨Index.fits_empty, rfl, fun _ hn => absurd hn List.not_mem_nil⟩

/-- With its index made anew, a section is tidy if its nodes are. -/
theorem tidy_withNodes (hlevel : s.childLevel = level) {nodes : List Node}
    (hnodes : ∀ n ∈ nodes, n.Tidy level) : (s.withNodes nodes).Tidy level :=
  ⟨Index.fits_ofNodes nodes, hlevel, hnodes⟩

theorem tidy_ofNodes {nodes : List Node} (hnodes : ∀ n ∈ nodes, n.Loose) : (ofNodes nodes).Tidy 0 := by
  refine ⟨Index.fits_ofNodes _, rfl, fun n hn => ?_⟩
  obtain ⟨m, hm, rfl⟩ := List.mem_map.1 hn
  exact (hnodes m hm).setLevel 0

/-- Where a node takes the place of another one of its name, the index may stay. -/
theorem Tidy.replace (hs : s.Tidy level) {i : Nat} (hi : s.nodes[i]? = some n)
    (hname : m.name? = n.name?) (hm : m.Tidy level) : Tidy { s with nodes := s.nodes.set i m } level := by
  refine ⟨?_, hs.childLevel, fun k hk => ?_⟩
  · have hplace : (s.nodes.map Node.name?)[i]? = some m.name? := by
      rw [List.getElem?_map, hi, hname]
      rfl
    have hnames : (s.nodes.set i m).map Node.name? = s.nodes.map Node.name? := by
      obtain ⟨hlt, heq⟩ := List.getElem?_eq_some_iff.1 hplace
      rw [List.map_set, ← heq]
      exact List.set_getElem_self hlt
    change s.index.Fits ((s.nodes.set i m).map Node.name?)
    rw [hnames]
    exact hs.index
  · rcases List.mem_or_eq_of_mem_set hk with hk | rfl
    · exact hs.nodes k hk
    · exact hm

/-- What is found by its name stands at the place that the index gives. -/
theorem exists_of_get? {key : String} (h : s.get? key = some n) :
    ∃ i, s.position key = some i ∧ s.nodes[i]? = some n :=
  Option.bind_eq_some_iff.1 h

theorem mem_of_get? {key : String} (h : s.get? key = some n) : n ∈ s.nodes := by
  obtain ⟨i, _, hi⟩ := exists_of_get? h
  exact List.mem_of_getElem? hi

/-- What an operation below a section does to it. -/
theorem exists_of_updateAt {α : Type} {f : Section → α × Section} {key : String}
    {rest : List String} {a : α} (h : updateAt f (key :: rest) s = some (a, s')) :
    ∃ n child child', s.get? key = some n ∧ n.section? = some child ∧
      updateAt f rest child = some (a, child') ∧ s' = s.modify key child'.replaceIn := by
  rw [updateAt] at h
  cases hchild : s.section? key with
  | none => rw [hchild] at h; cases h
  | some child =>
    rw [hchild] at h
    dsimp only at h
    cases hupdate : updateAt f rest child with
    | none => rw [hupdate] at h; cases h
    | some result =>
      obtain ⟨a, child'⟩ := result
      rw [hupdate] at h
      cases h
      obtain ⟨n, hn, hblock⟩ := Option.bind_eq_some_iff.1 hchild
      exact ⟨n, child, child', hn, hblock, hupdate, rfl⟩

section

variable (hs : s.Tidy level)

include hs

theorem Tidy.add (hn : n.Loose) : (s.add n).Tidy level := by
  refine ⟨?_, hs.childLevel, fun m hm => ?_⟩
  · have hnoted := hs.index.note (n.setLevel s.childLevel)
    rw [List.length_map] at hnoted
    change (s.index.note _ s.nodes.length).Fits ((s.nodes ++ [_]).map Node.name?)
    rw [List.map_append]
    exact hnoted
  · rcases List.mem_append.1 hm with hm | hm
    · exact hs.nodes m hm
    · rw [List.mem_singleton.1 hm, hs.childLevel]
      exact hn.setLevel level

theorem Tidy.insert (i : Nat) (hn : n.Loose) : (s.insert i n).Tidy level := by
  refine tidy_withNodes hs.childLevel fun m hm => ?_
  rcases List.mem_append.1 hm with hm | hm
  · exact hs.nodes m (List.mem_of_mem_take hm)
  · rcases List.mem_cons.1 hm with rfl | hm
    · rw [hs.childLevel]
      exact hn.setLevel level
    · exact hs.nodes m (List.mem_of_mem_drop hm)

theorem Tidy.removeAt (i : Nat) :
    (s.removeAt i).2.Tidy level ∧ ∀ n ∈ (s.removeAt i).1, n.Loose := by
  unfold Section.removeAt
  split
  · exact ⟨hs, nofun⟩
  · next n hi =>
      refine ⟨tidy_withNodes hs.childLevel fun m hm => hs.nodes m (List.mem_of_mem_eraseIdx hm), ?_⟩
      rintro _ ⟨⟩
      exact (hs.nodes n (List.mem_of_getElem? hi)).loose

theorem Tidy.remove (key : String) :
    (s.remove key).2.Tidy level ∧ ∀ n ∈ (s.remove key).1, n.Loose := by
  unfold Section.remove
  split
  · exact ⟨hs, nofun⟩
  · exact hs.removeAt _

theorem Tidy.setNode (key : String) (hn : n.Loose) : (s.setNode key n).Tidy level := by
  unfold Section.setNode
  split
  · refine tidy_withNodes hs.childLevel fun m hm => ?_
    rcases List.mem_or_eq_of_mem_set hm with hm | rfl
    · exact hs.nodes m hm
    · rw [hs.childLevel]
      exact hn.setLevel level
  · exact hs.add hn

/-- A new value leaves the name and the level of an entry as they are. -/
theorem Tidy.set (key value : String) : (s.set key value).Tidy level := by
  unfold Section.set
  split
  · next n i hn hi =>
      obtain ⟨old, hold, hn⟩ := Option.bind_eq_some_iff.1 hn
      obtain ⟨_, hplace, hold⟩ := exists_of_get? hold
      rw [hi] at hplace
      cases hplace
      have htidy := hs.nodes old (List.mem_of_getElem? hold)
      unfold Node.setValue? at hn
      split at hn
      · cases hn
        exact hs.replace hold rfl (.leaf htidy.level_eq)
      · cases hn
  · exact hs.setNode key (Node.loose_leaf _ _)

theorem Tidy.exists_of_position {key : String} {i : Nat} (h : s.position key = some i) :
    ∃ n, s.nodes[i]? = some n ∧ n.name? = some (Text.lowercase key) := by
  have hplace : lastPlace? (Text.lowercase key) (s.nodes.map Node.name?) = some i :=
    (hs.index _).symm.trans h
  have hi := (lastPlace?_eq_some.1 hplace).1
  rw [List.getElem?_map, Option.map_eq_some_iff] at hi
  exact hi

theorem Tidy.of_get? {key : String} (h : s.get? key = some n) : n.Tidy level := by
  obtain ⟨i, _, hi⟩ := exists_of_get? h
  exact hs.nodes n (List.mem_of_getElem? hi)

/-- What is found by its name has that name. -/
theorem Tidy.name?_of_get? {key : String} (h : s.get? key = some n) :
    n.name? = some (Text.lowercase key) := by
  obtain ⟨i, hplace, hi⟩ := exists_of_get? h
  obtain ⟨m, hm, hname⟩ := hs.exists_of_position hplace
  rw [hi] at hm
  cases hm
  exact hname

/-- Another content for the block of that name. -/
theorem Tidy.modify_replaceIn {key : String} {child child' : Section} (hn : s.get? key = some n)
    (hchild : n.section? = some child) (hchild' : child'.Tidy (level + 1)) :
    (s.modify key child'.replaceIn).Tidy level := by
  obtain ⟨hnew, hname⟩ := (hs.of_get? hn).replaceIn hchild hchild'
  obtain ⟨i, hplace, hi⟩ := exists_of_get? hn
  rw [modify, hplace]
  dsimp only
  rw [List.modify_eq_set_getElem?, hi]
  exact hs.replace hi hname hnew

theorem Tidy.rename {key new : String} (h : s.rename key new = some s') : s'.Tidy level := by
  unfold Section.rename at h
  split at h
  · cases h
  · next i hi =>
      cases h
      obtain ⟨n, hn, -⟩ := hs.exists_of_position hi
      refine tidy_withNodes hs.childLevel fun m hm => ?_
      rw [List.modify_eq_set_getElem?, hn] at hm
      rcases List.mem_or_eq_of_mem_set hm with hm | rfl
      · exact hs.nodes m hm
      · exact (hs.nodes n (List.mem_of_getElem? hn)).setKey new

end

end Section

/-! ## Splitting lines and taking over values -/

namespace Section

variable {s : Section} {n : Node} {level : Nat}

theorem convertNodes_fst (separator : String) (levels : Option Nat) (nodes : List Node) :
    (convertNodes separator levels nodes).1 = nodes.map fun n => (convertNode separator levels n).1 := by
  induction nodes with
  | nil => rw [convertNodes]; rfl
  | cons n rest ih => rw [convertNodes, List.map_cons, ← ih]

theorem loose_convertNode_leaf (separator : String) (levels : Option Nat) (h : Header)
    (content : Leaf) : (convertNode separator levels (.leaf h content)).1.Loose := by
  cases content with
  | simple =>
    rw [convertNode, entryFromText]
    cases Text.splitOnce separator.toList (h.key.getD "").toList <;> exact Node.loose_leaf _ _
  | _ =>
    rw [convertNode]
    · exact Node.loose_leaf _ _
    · exact Leaf.noConfusion

theorem convertNode_block (separator : String) {levels : Option Nat} (hlevels : levels ≠ some 0)
    (h : Header) (index : Index) (level : Nat) (nodes : List Node) :
    (convertNode separator levels (.block h index level nodes)).1 =
      let nodes := setLevels level (convertNodes separator (levels.map (· - 1)) nodes).1
      .block h (Index.ofNodes nodes) level nodes := by
  rw [convertNode]
  exact hlevels

/-- A line that is split has to be given its level again, as part of the block that it stands in. -/
theorem loose_convertNode (separator : String) (hn : n.Tidy level) (levels : Option Nat) :
    (convertNode separator levels n).1.Loose := by
  induction hn generalizing levels with
  | leaf _ => exact loose_convertNode_leaf separator levels _ _
  | @block level h index nodes hlevel hindex hnodes ih =>
    by_cases hlevels : levels = some 0
    · rw [hlevels, convertNode]
      exact ⟨level, .block hlevel hindex hnodes⟩
    · rw [convertNode_block separator hlevels]
      refine ⟨level, .block hlevel (Index.fits_ofNodes _) fun n hn => ?_⟩
      rw [setLevels_eq_map, convertNodes_fst, List.map_map] at hn
      obtain ⟨m, hm, rfl⟩ := List.mem_map.1 hn
      exact (ih m hm _).setLevel (level + 1)

theorem Tidy.convertToEntries (hs : s.Tidy level) (levels : Option Nat) (separator : String) :
    (s.convertToEntries levels separator).1.Tidy level := by
  refine tidy_withNodes hs.childLevel fun n hn => ?_
  rw [setLevels_eq_map, convertNodes_fst, List.map_map, hs.childLevel] at hn
  obtain ⟨m, hm, rfl⟩ := List.mem_map.1 hn
  exact (loose_convertNode separator (hs.nodes m hm) levels).setLevel level

/-- What becomes of a node when values are taken over, unless its key is excluded. -/
def adopted (other : Section) (excluded : List String) (n : Node) : Node :=
  if !n.isVoid && n.key.any fun key => excluded.any (Text.sameIgnoringAsciiCase · key) then n
  else (adoptNode other n).1

theorem adoptNodes_fst (other : Section) (excluded : List String) (nodes : List Node) :
    (adoptNodes other excluded nodes).1 = nodes.map (adopted other excluded) := by
  induction nodes with
  | nil => rw [adoptNodes]; rfl
  | cons n rest ih =>
    rw [adoptNodes, List.map_cons, ← ih, adopted]
    dsimp only
    split <;> rfl

/-- A leaf takes over a value at most. -/
theorem adoptNode_leaf (other : Section) (h : Header) (content : Leaf) :
    (adoptNode other (.leaf h content)).1 = .leaf h content ∨
      ∃ v w, content = .entry v ∧ (adoptNode other (.leaf h content)).1 = .leaf h (.entry w) := by
  unfold adoptNode
  split
  · exact .inl rfl
  · exact .inl rfl
  · split
    · exact .inl rfl
    · exact .inr ⟨_, _, rfl, rfl⟩
    · exact .inl rfl
  · exact .inl rfl

/-- A block takes over values in some section, or stays as it is. -/
theorem adoptNode_block (other : Section) (h : Header) (index : Index) (level : Nat)
    (nodes : List Node) :
    (adoptNode other (.block h index level nodes)).1 = .block h index level nodes ∨
      ∃ theirs, (adoptNode other (.block h index level nodes)).1 =
        .block h index level (nodes.map (adopted theirs [])) := by
  rw [adoptNode]
  split
  · exact .inl rfl
  · split
    · exact .inl rfl
    · split
      · exact .inl rfl
      · next theirs _ =>
          right
          refine ⟨theirs, ?_⟩
          rw [← adoptNodes_fst]

theorem name?_adopted (other : Section) (excluded : List String) (n : Node) :
    (adopted other excluded n).name? = n.name? := by
  rw [adopted]
  split
  · rfl
  · cases n with
    | leaf h content =>
      rcases adoptNode_leaf other h content with hsame | ⟨v, w, rfl, hnew⟩
      · rw [hsame]
      · rw [hnew]
        rfl
    | block h index level nodes =>
      rcases adoptNode_block other h index level nodes with hsame | ⟨theirs, hnew⟩
      · rw [hsame]
      · rw [hnew]
        rfl

theorem names_adopted (other : Section) (excluded : List String) (nodes : List Node) :
    (nodes.map (adopted other excluded)).map Node.name? = nodes.map Node.name? := by
  rw [List.map_map]
  exact List.map_congr_left fun n _ => name?_adopted other excluded n

/-- Names and levels stay, so the index does. -/
theorem tidy_adopted (hn : n.Tidy level) (other : Section) (excluded : List String) :
    (adopted other excluded n).Tidy level := by
  induction hn generalizing other excluded with
  | @leaf level h content hlevel =>
    rw [adopted]
    split
    · exact .leaf hlevel
    · rcases adoptNode_leaf other h content with hsame | ⟨v, w, -, hnew⟩
      · rw [hsame]
        exact .leaf hlevel
      · rw [hnew]
        exact .leaf hlevel
  | @block level h index nodes hlevel hindex hnodes ih =>
    rw [adopted]
    split
    · exact .block hlevel hindex hnodes
    · rcases adoptNode_block other h index (level + 1) nodes with hsame | ⟨theirs, hnew⟩
      · rw [hsame]
        exact .block hlevel hindex hnodes
      · rw [hnew]
        refine .block hlevel ((names_adopted theirs [] nodes).symm ▸ hindex) fun m hm => ?_
        obtain ⟨k, hk, rfl⟩ := List.mem_map.1 hm
        exact ih k hk theirs []

theorem Tidy.setValues (hs : s.Tidy level) (other : Section) (excluded : List String) :
    (s.setValues other excluded).1.Tidy level := by
  have hnodes : (s.setValues other excluded).1
      = { s with nodes := s.nodes.map (adopted other excluded) } := by
    rw [Section.setValues, ← adoptNodes_fst]
  rw [hnodes]
  refine ⟨(names_adopted other excluded s.nodes).symm ▸ hs.index, hs.childLevel, fun m hm => ?_⟩
  obtain ⟨k, hk, rfl⟩ := List.mem_map.1 hm
  exact tidy_adopted (hs.nodes k hk) other excluded

end Section

/-! ## Loading -/

/-- A line that becomes a node becomes a leaf. -/
theorem loose_of_judge {options : Options} {level number : Nat} {p p' : Progress} {nodes : List Node}
    {line : String} {n : Node} (h : judge options level p nodes number line = .node n p') :
    n.Loose := by
  unfold judge at h
  dsimp only at h
  split at h
  · cases h
    exact Node.loose_leaf _ _
  · split at h
    · cases h
      exact Node.loose_leaf _ _
    · cases h
    · cases h
      exact Node.loose_leaf _ _
    · next text _ =>
        split at h
        · cases h
        -- an entry, or a simple or invalid line: a leaf in every case
        · have hleaf : (leafOf options text (commentOf line) number).1.Loose := by
            unfold leafOf Section.entryFromText
            split
            · exact Node.loose_leaf _ _
            · split <;> exact Node.loose_leaf _ _
          split at h
          · next heq =>
              cases h
              rw [heq] at hleaf
              exact hleaf
          · next heq =>
              cases h
              rw [heq] at hleaf
              exact hleaf

/-- Sections that are read are made of their nodes when all of them are there. -/
theorem tidy_loadSection (options : Options) (fuel level : Nat) (p : Progress) {nodes : List Node}
    (hnodes : ∀ n ∈ nodes, n.Loose) (lines : List (Nat × String)) :
    (loadSection options fuel level p nodes lines).1.Tidy 0 := by
  have hdone : (Section.ofNodes nodes.reverse).Tidy 0 :=
    Section.tidy_ofNodes fun n hn => hnodes n (List.mem_reverse.1 hn)
  induction fuel generalizing level p nodes lines with
  | zero => exact hdone
  | succ fuel ih =>
    cases lines with
    | nil => exact hdone
    | cons e rest =>
      obtain ⟨number, line⟩ := e
      have hgrown : ∀ n : Node, n.Loose → (∀ m ∈ n :: nodes, m.Loose) ∧
          (Section.ofNodes (n :: nodes).reverse).Tidy 0 := by
        intro n hn
        have hall := List.forall_mem_cons.2 ⟨hn, hnodes⟩
        exact ⟨hall, Section.tidy_ofNodes fun m hm => hall m (List.mem_reverse.1 hm)⟩
      rw [loadSection_cons]
      split
      · next n p₁ hjudge =>
          obtain ⟨hall, hdone⟩ := hgrown n (loose_of_judge hjudge)
          exact ih level p₁ hall rest hdone
      · next key p₁ _ =>
          -- the block comes first, and becomes a node of this section
          have hblock := @ih (level + 1) p₁ [] (fun n hn => absurd hn List.not_mem_nil) rest
            (Section.tidy_ofNodes fun n hn => absurd hn List.not_mem_nil)
          obtain ⟨hall, hdone⟩ := hgrown _
            (Node.tidy_ofSection hblock (String.ofList key) (commentOf line) (some number)).loose
          exact ih level _ hall _ hdone
      · exact hdone

theorem Document.tidy_of_load {source : Text.Bytes} {fileName : String} {options : Options}
    {d : Document} (h : load source fileName options = .ok d) : d.root.Tidy 0 := by
  unfold load at h
  split at h
  · cases h
  · split at h
    · cases h
    · cases h
      exact tidy_loadSection options _ 0 {} (fun n hn => absurd hn List.not_mem_nil) _

/-! ## Everything that can be reached -/

/-- What can be done to a section. -/
inductive Section.Op where
  | add (n : Node)
  | insert (i : Nat) (n : Node)
  | removeAt (i : Nat)
  | remove (key : String)
  | set (key value : String)
  /-- Without a node, the one of that name is removed. -/
  | setNode (key : String) (n : Option Node)
  | rename (key new : String)
  | setValues (other : Section) (excluded : List String)
  | convertToEntries (levels : Option Nat) (separator : String)

namespace Section.Op

/-- The nodes that are put in. -/
def nodes : Op → List Node
  | .add n | .insert _ n | .setNode _ (some n) => [n]
  | _ => []

/-- The node that is given back, and the section after it. -/
def run : Op → Section → Option Node × Section
  | .add n, s => (none, s.add n)
  | .insert i n, s => (none, s.insert i n)
  | .removeAt i, s => s.removeAt i
  | .remove key, s => s.remove key
  | .set key value, s => (none, s.set key value)
  | .setNode key (some n), s => (none, s.setNode key n)
  | .setNode key none, s => (none, (s.remove key).2)
  | .rename key new, s => (none, (s.rename key new).getD s)
  | .setValues other excluded, s => (none, (s.setValues other excluded).1)
  | .convertToEntries levels separator, s => (none, (s.convertToEntries levels separator).1)

/-- **Every operation keeps a section tidy, and gives back tidy nodes.** -/
theorem tidy_run {op : Op} (hop : ∀ n ∈ op.nodes, n.Loose) {s : Section} {level : Nat}
    (hs : s.Tidy level) : (op.run s).2.Tidy level ∧ ∀ n ∈ (op.run s).1, n.Loose := by
  cases op with
  | add n => exact ⟨hs.add (hop n (List.mem_singleton_self n)), nofun⟩
  | insert i n => exact ⟨hs.insert i (hop n (List.mem_singleton_self n)), nofun⟩
  | removeAt i => exact hs.removeAt i
  | remove key => exact hs.remove key
  | set key value => exact ⟨hs.set key value, nofun⟩
  | setNode key n =>
    cases n with
    | none => exact ⟨(hs.remove key).1, nofun⟩
    | some n => exact ⟨hs.setNode key (hop n (List.mem_singleton_self n)), nofun⟩
  | rename key new =>
    refine ⟨?_, nofun⟩
    change ((s.rename key new).getD s).Tidy level
    cases hrename : s.rename key new with
    | none => exact hs
    | some s' => exact hs.rename hrename
  | setValues other excluded => exact ⟨hs.setValues other excluded, nofun⟩
  | convertToEntries levels separator => exact ⟨hs.convertToEntries levels separator, nofun⟩

/-- The same of an operation on a section below. -/
theorem tidy_updateAt {op : Op} (hop : ∀ n ∈ op.nodes, n.Loose) {path : List String}
    {s s' : Section} {taken : Option Node} {level : Nat} (hs : s.Tidy level)
    (h : updateAt op.run path s = some (taken, s')) :
    s'.Tidy level ∧ ∀ n ∈ taken, n.Loose := by
  induction path generalizing s s' level with
  | nil =>
    rw [updateAt] at h
    have hrun := tidy_run hop hs
    rw [Option.some.inj h] at hrun
    exact hrun
  | cons key rest ih =>
    obtain ⟨n, child, child', hn, hchild, hupdate, rfl⟩ := exists_of_updateAt h
    have htidy := hs.of_get? hn
    obtain ⟨hchild', htaken⟩ := ih (htidy.inner hchild) hupdate
    exact ⟨hs.modify_replaceIn hn hchild hchild', htaken⟩

end Section.Op

/-- A section that is nowhere else, or a node that is in no section. -/
inductive Piece where
  | root (s : Section)
  | loose (n : Node)

open Section (updateAt)

/-- What can be reached from new sections, new nodes and loaded documents. Operations may be done
on a section itself or on one below it, and a node that was taken out may be put in anywhere. -/
inductive Reached : Piece → Prop
  | empty : Reached (.root .empty)
  | load {source : Text.Bytes} {fileName : String} {options : Options} {d : Document}
      (h : Document.load source fileName options = .ok d) : Reached (.root d.root)
  | leaf (h : Header) (content : Leaf) : Reached (.loose (.leaf h content))
  | block {s : Section} (h : Reached (.root s)) (key : String) :
      Reached (.loose (.ofSection key "" none s))
  | changed {s s' : Section} {op : Section.Op} {path : List String} {taken : Option Node}
      (h : Reached (.root s)) (hop : ∀ n ∈ op.nodes, Reached (.loose n))
      (hrun : updateAt op.run path s = some (taken, s')) : Reached (.root s')
  | taken {s s' : Section} {op : Section.Op} {path : List String} {n : Node}
      (h : Reached (.root s)) (hop : ∀ n ∈ op.nodes, Reached (.loose n))
      (hrun : updateAt op.run path s = some (some n, s')) : Reached (.loose n)
  | changedWithin {n : Node} {t t' : Section} {op : Section.Op} {path : List String}
      {taken : Option Node} (h : Reached (.loose n)) (hblock : n.section? = some t)
      (hop : ∀ n ∈ op.nodes, Reached (.loose n))
      (hrun : updateAt op.run path t = some (taken, t')) : Reached (.loose (t'.replaceIn n))
  | takenWithin {n m : Node} {t t' : Section} {op : Section.Op} {path : List String}
      (h : Reached (.loose n)) (hblock : n.section? = some t)
      (hop : ∀ n ∈ op.nodes, Reached (.loose n))
      (hrun : updateAt op.run path t = some (some m, t')) : Reached (.loose m)

/-- Roots are tidy at level zero, and other nodes at some level. -/
def Piece.Tidy : Piece → Prop
  | .root s => s.Tidy 0
  | .loose n => n.Loose

theorem Reached.tidy {piece : Piece} (h : Reached piece) : piece.Tidy := by
  induction h with
  | empty => exact Section.tidy_empty
  | load h => exact Document.tidy_of_load h
  | leaf h content => exact Node.loose_leaf h content
  | block _ key ih => exact (Node.tidy_ofSection ih key "" none).loose
  | changed _ _ hrun ih ihop => exact (Section.Op.tidy_updateAt ihop ih hrun).1
  | taken _ _ hrun ih ihop => exact (Section.Op.tidy_updateAt ihop ih hrun).2 _ rfl
  | changedWithin _ hblock _ hrun ih ihop =>
    obtain ⟨level, hn⟩ := ih
    have hinner := (Section.Op.tidy_updateAt ihop (hn.inner hblock) hrun).1
    exact (hn.replaceIn hblock hinner).1.loose
  | takenWithin _ hblock _ hrun ih ihop =>
    obtain ⟨level, hn⟩ := ih
    exact (Section.Op.tidy_updateAt ihop (hn.inner hblock) hrun).2 _ rfl

/-! ## Sections below sections -/

/-- `t` stands in `s`, so many sections below it. -/
inductive Section.Contains : Section → Nat → Section → Prop
  | self (s : Section) : Contains s 0 s
  | inner {s t : Section} {n : Node} {child : Section} {depth : Nat} (hn : n ∈ s.nodes)
      (hchild : n.section? = some child) (ht : Contains child depth t) : Contains s (depth + 1) t

/-- Whether a node is an entry or a section, with that key up to case. -/
def Node.goesBy (n : Node) (key : String) : Bool :=
  (n.isEntry || n.isSection) && n.key.any fun k => Text.lowercase k == Text.lowercase key

theorem Node.goesBy_iff {n : Node} {key : String} :
    n.goesBy key = true ↔ n.name? = some (Text.lowercase key) := by
  unfold goesBy name? isNamed
  cases n.isEntry || n.isSection with
  | false => simp
  | true => cases n.key <;> simp

theorem Section.Tidy.contains {s t : Section} {depth level : Nat} (hs : s.Tidy level)
    (ht : s.Contains depth t) : t.Tidy (level + depth) := by
  induction ht generalizing level with
  | self s => exact hs
  | inner hn hchild _ ih =>
    have hbelow := ih ((hs.nodes _ hn).inner hchild)
    rw [Nat.add_right_comm] at hbelow
    exact hbelow

/-- **Index and levels never go stale.** In every section that can be reached, and in every section
below it, a key leads to the last of the entries and sections that have it up to case, and to none if
there is no such node; and every node has the level at which it stands. -/
theorem Section.upkeep_of_reached {s t : Section} {depth : Nat} (h : Reached (.root s))
    (ht : s.Contains depth t) :
    (∀ key i, t.position key = some i ↔ (∃ n, t.nodes[i]? = some n ∧ n.goesBy key = true) ∧
      ∀ j n, i < j → t.nodes[j]? = some n → n.goesBy key = false) ∧
    (∀ key, t.position key = none ↔ ∀ n ∈ t.nodes, n.goesBy key = false) ∧
    (∀ key, t.get? key = t.nodes.reverse.find? (·.goesBy key)) ∧
    ∀ n ∈ t.nodes, n.level = depth := by
  have htidy : t.Tidy (0 + depth) := h.tidy.contains ht
  rw [Nat.zero_add] at htidy
  have hplace : ∀ key, t.position key
      = lastPlace? (Text.lowercase key) (t.nodes.map Node.name?) := fun key => htidy.index _
  refine ⟨fun key i => ?_, fun key => ?_, fun key => ?_, fun n hn => (htidy.nodes n hn).level_eq⟩
  · have hat : ∀ j : Nat, (t.nodes.map Node.name?)[j]? = some (some (Text.lowercase key)) ↔
        ∃ n : Node, t.nodes[j]? = some n ∧ n.goesBy key = true := by
      intro j
      rw [List.getElem?_map, Option.map_eq_some_iff]
      simp only [Node.goesBy_iff]
    rw [hplace, lastPlace?_eq_some, hat]
    refine and_congr_right fun _ => forall_congr' fun j => ?_
    rw [Ne, hat]
    constructor
    · intro hnot n hj hn
      exact Bool.eq_false_iff.2 fun hgoes => hnot hj ⟨n, hn, hgoes⟩
    · rintro hnot hj ⟨n, hn, hgoes⟩
      exact absurd hgoes (Bool.eq_false_iff.1 (hnot n hj hn))
  · rw [hplace, lastPlace?_eq_none, List.mem_map]
    constructor
    · intro hnot n hn
      exact Bool.eq_false_iff.2 fun hgoes => hnot ⟨n, hn, Node.goesBy_iff.1 hgoes⟩
    · rintro hnot ⟨n, hn, hname⟩
      exact absurd (Node.goesBy_iff.2 hname) (Bool.eq_false_iff.1 (hnot n hn))
  · rw [get?, hplace, getElem?_lastPlace?]
    congr 1
    funext n
    rw [Bool.eq_iff_iff, beq_iff_eq, Node.goesBy_iff]

namespace Moving

/-- What is in the box. -/
def box : Section := (Section.empty.add (.entry "a" "1")).add (.entry "B" "2")

/-- A section with a box. -/
def boxed : Section := .add .empty (.ofSection "Box" "" none box)

/-- The second entry after it was taken out of the box. -/
def takenOut : Node := .leaf { key := some "B", level := 1 } (.entry "2")

/-- What is left. -/
def left : Section :=
  ⟨[.block { key := some "Box" } ⟨[("a", 0)]⟩ 1 [.leaf { key := some "a", level := 1 } (.entry "1")]],
    ⟨[("box", 0)]⟩, 0⟩

theorem reached_add {s : Section} {n : Node} (hs : Reached (.root s)) (hn : Reached (.loose n)) :
    Reached (.root (s.add n)) :=
  @Reached.changed s (s.add n) (.add n) [] none hs (List.forall_mem_singleton.2 hn) rfl

theorem reached_boxed : Reached (.root boxed) :=
  reached_add .empty (.block (reached_add (reached_add .empty (.leaf _ _)) (.leaf _ _)) "Box")

theorem updateAt_boxed :
    updateAt (Section.Op.remove "b").run ["BOX"] boxed = some (some takenOut, left) := by
  cbv

/-- An entry is moved from the box to the section around it. -/
theorem upkeep_of_reached_moved :
    Reached (.root (left.add takenOut)) ∧ (left.add takenOut).position "b" = some 1 ∧
      (∀ n ∈ (left.add takenOut).nodes, n.level = 0) ∧
      ∃ t, (left.add takenOut).Contains 1 t ∧ t.position "b" = none ∧ ∀ n ∈ t.nodes, n.level = 1 := by
  have hop : ∀ n ∈ (Section.Op.remove "b").nodes, Reached (.loose n) :=
    fun n hn => absurd hn List.not_mem_nil
  have hmoved : Reached (.root (left.add takenOut)) :=
    reached_add (.changed reached_boxed hop updateAt_boxed) (.taken reached_boxed hop updateAt_boxed)
  have hbox : (left.add takenOut).Contains 1
      ⟨[.leaf { key := some "a", level := 1 } (.entry "1")], ⟨[("a", 0)]⟩, 1⟩ :=
    .inner (.head _) rfl (.self _)
  obtain ⟨hposition, -, -, hlevels⟩ := Section.upkeep_of_reached hmoved (.self _)
  obtain ⟨-, hnone, -, hbelow⟩ := Section.upkeep_of_reached hmoved hbox
  refine ⟨hmoved, (hposition "b" 1).2 ⟨⟨_, rfl, by cbv⟩, ?_⟩, hlevels, _, hbox, ?_, hbelow⟩
  · intro j n hj hn
    rw [List.getElem?_eq_none (by exact hj)] at hn
    cases hn
  · exact (hnone "b").2 (List.forall_mem_singleton.2 (by cbv))

end Moving

end ScriptStore.Config
