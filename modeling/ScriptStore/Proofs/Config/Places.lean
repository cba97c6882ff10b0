import ScriptStore.Proofs.Config.Editing

/-!
# Places in a tree

A node of a tree is told by its place: the position of the block it is in, of the block in that one,
and so on, down to its own. Keys do not serve, since several nodes may share one.

A change of one header can be said in two ways, at a place (`Node.modifyAt`) or everywhere by a function
of the header (`Node.relabel`). They agree where the numbers of the lines are different.
-/

namespace ScriptStore.Config

/-- Induction on a node with all nodes of its block at hand. -/
@[elab_as_elim]
theorem Node.blockInduction {motive : Node → Prop} (leaf : ∀ h content, motive (.leaf h content))
    (block : ∀ h index level nodes, (∀ n ∈ nodes, motive n) → motive (.block h index level nodes))
    (n : Node) : motive n :=
  @Node.rec motive (fun nodes => ∀ n ∈ nodes, motive n) leaf block
    (fun _ hn => absurd hn List.not_mem_nil)
    (fun _ _ hfirst hrest => List.forall_mem_cons.2 ⟨hfirst, hrest⟩) n

/-! ## Places -/

/-- The nodes of a block. -/
def Node.inner : Node → List Node
  | .leaf _ _ => []
  | .block _ _ _ nodes => nodes

/-- The node at a place below a node, given by one position after the other. -/
def Node.at? (n : Node) : List Nat → Option Node
  | [] => some n
  | i :: rest => n.inner[i]?.bind fun m => m.at? rest

/-- The node at a place in a section. As many sections stand around it as positions follow the first. -/
def Section.at? (s : Section) (i : Nat) (rest : List Nat) : Option Node :=
  s.nodes[i]?.bind fun n => n.at? rest

/-- A node apart from what stands in its block. -/
def Node.face : Node → Header × Option Leaf
  | .leaf h content => (h, some content)
  | .block h _ _ _ => (h, none)

theorem Node.inner_setLevel (level : Nat) (n : Node) :
    (n.setLevel level).inner = n.inner.map (·.setLevel (level + 1)) := by
  cases n with
  | leaf => rfl
  | block => exact setLevels_eq_map ..

theorem Node.at?_setLevel (level : Nat) (n : Node) (place : List Nat) :
    (n.setLevel level).at? place = (n.at? place).map (·.setLevel (level + place.length)) := by
  induction place generalizing level n with
  | nil => rfl
  | cons i rest ih =>
    have hdepth : level + 1 + rest.length = level + (i :: rest).length := by
      rw [List.length_cons]
      omega
    rw [Node.at?, Node.at?, Node.inner_setLevel, List.getElem?_map, Option.bind_map, Option.map_bind]
    refine Option.bind_congr fun m _ => ?_
    rw [Function.comp_apply, ih, hdepth]
    rfl

/-- In a tidy tree every node has the level of its place. -/
theorem Node.Tidy.level_at? {n m : Node} {level : Nat} (hn : n.Tidy level) {place : List Nat}
    (h : n.at? place = some m) : m.level = level + place.length := by
  induction place generalizing n level with
  | nil =>
    cases h
    exact hn.level_eq
  | cons i rest ih =>
    obtain ⟨k, hk, hm⟩ := Option.bind_eq_some_iff.1 h
    cases hn with
    | leaf => cases hk
    | block _ _ hnodes =>
      rw [ih (hnodes k (List.mem_of_getElem? hk)) hm, List.length_cons]
      omega

theorem Section.Tidy.level_at? {s : Section} {level : Nat} (hs : s.Tidy level) {i : Nat}
    {rest : List Nat} {n : Node} (h : s.at? i rest = some n) :
    n.level = s.childLevel + rest.length := by
  obtain ⟨m, hm, hn⟩ := Option.bind_eq_some_iff.1 h
  rw [hs.childLevel]
  exact (hs.nodes m (List.mem_of_getElem? hm)).level_at? hn

/-! ## Walks -/

theorem walkOf_eq_flatMap (nodes : List Node) : walkOf nodes = nodes.flatMap Node.walk := by
  induction nodes with
  | nil => rfl
  | cons n rest ih => rw [walkOf, ih, List.flatMap_cons]

/-! ## Other headers -/

mutual

/-- A node with other headers, its own and those in its block. -/
def Node.relabel (f : Header → Header) : Node → Node
  | .leaf h content => .leaf (f h) content
  | .block h index level nodes => .block (f h) index level (relabelAll f nodes)

def relabelAll (f : Header → Header) : List Node → List Node
  | [] => []
  | n :: rest => n.relabel f :: relabelAll f rest

end

theorem relabelAll_eq_map (f : Header → Header) (nodes : List Node) :
    relabelAll f nodes = nodes.map (·.relabel f) := by
  induction nodes with
  | nil => rfl
  | cons n rest ih => rw [relabelAll, ih, List.map_cons]

namespace Node

variable {f g : Header → Header} {n m : Node}

theorem header_relabel (f : Header → Header) (n : Node) : (n.relabel f).header = f n.header := by
  cases n with
  | leaf => rfl
  | block => rfl

theorem value?_relabel (f : Header → Header) (n : Node) : (n.relabel f).value? = n.value? := by
  cases n with
  | leaf h content => cases content <;> rfl
  | block => rfl

theorem inner_relabel (f : Header → Header) (n : Node) :
    (n.relabel f).inner = n.inner.map (·.relabel f) := by
  cases n with
  | leaf => rfl
  | block => exact relabelAll_eq_map ..

theorem at?_relabel (f : Header → Header) (n : Node) (place : List Nat) :
    (n.relabel f).at? place = (n.at? place).map (·.relabel f) := by
  induction place generalizing n with
  | nil => rfl
  | cons i rest ih =>
    rw [at?, at?, inner_relabel, List.getElem?_map, Option.bind_map, Option.map_bind]
    exact Option.bind_congr fun m _ => ih m

theorem relabel_relabel (f g : Header → Header) (n : Node) :
    (n.relabel f).relabel g = n.relabel (g ∘ f) := by
  induction n using blockInduction with
  | leaf => rfl
  | block h index level nodes ih =>
    rw [relabel, relabel, relabel, relabelAll_eq_map, relabelAll_eq_map, relabelAll_eq_map, List.map_map]
    exact congrArg _ (List.map_congr_left ih)

theorem walk_relabel (f : Header → Header) (n : Node) :
    (n.relabel f).walk = n.walk.map (·.relabel f) := by
  induction n using blockInduction with
  | leaf => rfl
  | block h index level nodes ih =>
    rw [relabel, walk, walk, List.map_cons, relabel, relabelAll_eq_map, walkOf_eq_flatMap,
      walkOf_eq_flatMap, List.flatMap_map, List.map_flatMap]
    exact congrArg _ (List.flatMap_congr ih)

/-- Headers that are left alone leave the tree alone. -/
theorem relabel_eq_self (h : ∀ m ∈ n.walk, f m.header = m.header) : n.relabel f = n := by
  induction n using blockInduction with
  | leaf header content => exact congrArg (leaf · content) (h _ (self_mem_walk _))
  | block header index level nodes ih =>
    have hnodes : nodes.map (·.relabel f) = nodes := by
      conv_rhs => rw [← List.map_id nodes]
      refine List.map_congr_left fun n hn => ih n hn fun m hm => h m ?_
      exact .tail _ (mem_walkOf.2 ⟨n, hn, hm⟩)
    rw [relabel, relabelAll_eq_map, hnodes]
    exact congrArg (block · index level nodes) (h _ (self_mem_walk _))

end Node

theorem walkOf_map_relabel (f : Header → Header) (nodes : List Node) :
    walkOf (nodes.map (·.relabel f)) = (walkOf nodes).map (·.relabel f) := by
  rw [walkOf_eq_flatMap, walkOf_eq_flatMap, List.flatMap_map, List.map_flatMap]
  exact List.flatMap_congr fun n _ => Node.walk_relabel f n

theorem Section.at?_map_relabel (s : Section) (f : Header → Header) (i : Nat) (rest : List Nat) :
    Section.at? { s with nodes := s.nodes.map (·.relabel f) } i rest
      = (s.at? i rest).map (·.relabel f) := by
  rw [Section.at?, Section.at?, List.getElem?_map, Option.bind_map, Option.map_bind]
  exact Option.bind_congr fun n _ => Node.at?_relabel f n rest

/-- Headers at their levels keep the nodes orderly. -/
theorem Orderly.relabel {f : Header → Header} (hf : ∀ h, (f h).level = h.level) {level : Nat}
    {nodes : List Node} (ho : Orderly level nodes) : Orderly level (nodes.map (·.relabel f)) := by
  induction ho with
  | nil => exact .nil
  | leaf hlevel _ ih => exact .leaf ((hf _).trans hlevel) ih
  | @block level h index childLevel inner rest hlevel _ hnext _ ihInner ih =>
    rw [List.map_cons, Node.relabel, relabelAll_eq_map]
    refine .block ((hf _).trans hlevel) ihInner (fun n hn => ?_) ih
    rw [List.head?_map] at hn
    obtain ⟨m, hm, rfl⟩ := Option.map_eq_some_iff.1 hn
    have hvoid := hnext m hm
    cases m with
    | leaf h content => cases content <;> exact hvoid
    | block => rfl

/-! ## Numbers and indexes aside -/

theorem Node.inner_bare (n : Node) : n.bare.inner = n.inner.map Node.bare := by
  cases n with
  | leaf => rfl
  | block => exact bareOf_eq_map _

theorem Node.at?_bare (n : Node) (place : List Nat) :
    n.bare.at? place = (n.at? place).map Node.bare := by
  induction place generalizing n with
  | nil => rfl
  | cons i rest ih =>
    rw [Node.at?, Node.at?, Node.inner_bare, List.getElem?_map, Option.bind_map, Option.map_bind]
    exact Option.bind_congr fun m _ => ih m

theorem Node.key_bare (n : Node) : n.bare.key = n.key := by
  cases n with
  | leaf => rfl
  | block => rfl

theorem Node.comment_bare (n : Node) : n.bare.comment = n.comment := by
  cases n with
  | leaf => rfl
  | block => rfl

theorem Section.bare_at? (s : Section) (i : Nat) (rest : List Nat) :
    (s.at? i rest).map Node.bare = (bareOf s.nodes)[i]?.bind fun n => n.at? rest := by
  rw [Section.at?, bareOf_eq_map, List.getElem?_map, Option.bind_map, Option.map_bind]
  exact Option.bind_congr fun n _ => (Node.at?_bare n rest).symm

/-! ## One place -/

/-- Changes the node at a place below a node. -/
def Node.modifyAt (f : Node → Node) : List Nat → Node → Node
  | [], n => f n
  | _ :: _, .leaf h content => .leaf h content
  | i :: rest, .block h index level nodes => .block h index level (nodes.modify i (Node.modifyAt f rest))

/-- Changes the node at a place of a section. -/
def Section.modifyAt (s : Section) (f : Node → Node) (i : Nat) (rest : List Nat) : Section :=
  { s with nodes := s.nodes.modify i (Node.modifyAt f rest) }

/-- What stands at a place below a node is met on a walk. -/
theorem Node.mem_walk_of_at? {n m : Node} {place : List Nat} (h : n.at? place = some m) : m ∈ n.walk := by
  induction place generalizing n with
  | nil =>
    cases h
    exact Node.self_mem_walk _
  | cons i rest ih =>
    obtain ⟨k, hk, hm⟩ := Option.bind_eq_some_iff.1 h
    cases n with
    | leaf => cases hk
    | block => exact .tail _ (mem_walkOf.2 ⟨k, List.mem_of_getElem? hk, ih hm⟩)

theorem Section.mem_walkOf_of_at? {s : Section} {i : Nat} {rest : List Nat} {n : Node}
    (h : s.at? i rest = some n) : n ∈ walkOf s.nodes := by
  obtain ⟨m, hm, hn⟩ := Option.bind_eq_some_iff.1 h
  exact mem_walkOf.2 ⟨m, List.mem_of_getElem? hm, Node.mem_walk_of_at? hn⟩

/-- The header on one line, changed. -/
def onLine (line : Option Nat) (g : Header → Header) (h : Header) : Header :=
  if h.line = line then g h else h

theorem onLine_of_ne {line : Option Nat} {g : Header → Header} {h : Header} (hne : h.line ≠ line) :
    onLine line g h = h := if_neg hne

/-- Where the numbers of the lines are different, a change on one line is a change of the node that has
it among its own. -/
theorem modify_eq_map_relabel {nodes : List Node} {i : Nat} {n : Node} {line : Option Nat}
    {g : Header → Header} {f : Node → Node} (hnodup : ((walkOf nodes).map Node.line).Nodup)
    (hi : nodes[i]? = some n) (hline : line ∈ n.walk.map Node.line)
    (hn : f n = n.relabel (onLine line g)) :
    nodes.modify i f = nodes.map (·.relabel (onLine line g)) := by
  rw [walkOf_eq_flatMap, List.map_flatMap, List.nodup_flatMap] at hnodup
  refine List.ext_getElem? fun j => ?_
  rw [List.getElem?_modify, List.getElem?_map]
  refine Option.map_congr fun k hk => ?_
  split
  · next hij =>
      rw [hij, hk] at hi
      cases hi
      exact hn
  · next hij =>
      -- the line is among those of another node
      refine (Node.relabel_eq_self fun m hm => onLine_of_ne fun heq => ?_).symm
      have hdisjoint : List.Disjoint (n.walk.map Node.line) (k.walk.map Node.line) := by
        obtain ⟨hlt, rfl⟩ := List.getElem?_eq_some_iff.1 hi
        obtain ⟨hlt', rfl⟩ := List.getElem?_eq_some_iff.1 hk
        rcases Nat.lt_or_gt_of_ne hij with hlt'' | hlt''
        · exact List.pairwise_iff_getElem.1 hnodup.2 i j hlt hlt' hlt''
        · exact (List.pairwise_iff_getElem.1 hnodup.2 j i hlt' hlt hlt'').symm
      exact hdisjoint hline (List.mem_map.2 ⟨m, hm, heq⟩)

theorem Node.modifyAt_eq_relabel {n m : Node} {place : List Nat}
    (hnodup : (n.walk.map Node.line).Nodup) (hm : n.at? place = some m) (g : Header → Header) :
    n.modifyAt (fun k => k.withHeader (g k.header)) place = n.relabel (onLine m.line g) := by
  induction place generalizing n with
  | nil =>
    obtain rfl : n = m := Option.some.inj hm
    cases n with
    | leaf h content => exact congrArg (leaf · content) (if_pos rfl).symm
    | block h index level nodes =>
      obtain ⟨hnot, _⟩ := List.nodup_cons.1 hnodup
      -- no node below has the line of this one
      have hnodes : nodes.map (·.relabel (onLine h.line g)) = nodes := by
        conv_rhs => rw [← List.map_id nodes]
        refine List.map_congr_left fun k hk => relabel_eq_self fun m hm => onLine_of_ne fun heq => hnot ?_
        exact List.mem_map.2 ⟨m, mem_walkOf.2 ⟨k, hk, hm⟩, heq⟩
      rw [relabel, relabelAll_eq_map, show (block h index level nodes).line = h.line from rfl, hnodes,
        onLine, if_pos rfl]
      rfl
  | cons i rest ih =>
    obtain ⟨k, hk, hbelow⟩ := Option.bind_eq_some_iff.1 hm
    cases n with
    | leaf => cases hk
    | block h index level nodes =>
      obtain ⟨hnot, hinner⟩ := List.nodup_cons.1 hnodup
      have hmem := mem_walk_of_at? hbelow
      have hknodup : (k.walk.map Node.line).Nodup := by
        rw [walkOf_eq_flatMap, List.map_flatMap, List.nodup_flatMap] at hinner
        exact hinner.1 k (List.mem_of_getElem? hk)
      have hline : h.line ≠ m.line := fun heq => hnot
        (List.mem_map.2 ⟨m, mem_walkOf.2 ⟨k, List.mem_of_getElem? hk, hmem⟩, heq.symm⟩)
      rw [relabel, relabelAll_eq_map, onLine_of_ne hline, modifyAt,
        modify_eq_map_relabel hinner hk (List.mem_map_of_mem hmem) (ih hknodup hbelow)]

theorem Section.modifyAt_eq_relabel {s : Section} {i : Nat} {rest : List Nat} {n : Node}
    (hnodup : ((walkOf s.nodes).map Node.line).Nodup) (hn : s.at? i rest = some n)
    (g : Header → Header) :
    (s.modifyAt (fun k => k.withHeader (g k.header)) i rest).nodes
      = s.nodes.map (·.relabel (onLine n.line g)) := by
  obtain ⟨m, hm, hn⟩ := Option.bind_eq_some_iff.1 hn
  have hmnodup : (m.walk.map Node.line).Nodup := by
    rw [walkOf_eq_flatMap, List.map_flatMap, List.nodup_flatMap] at hnodup
    exact hnodup.1 m (List.mem_of_getElem? hm)
  exact modify_eq_map_relabel hnodup hm (List.mem_map_of_mem (Node.mem_walk_of_at? hn))
    (Node.modifyAt_eq_relabel hmnodup hn g)

end ScriptStore.Config
