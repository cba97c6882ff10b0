import ScriptStore.Proofs.Config.LineByLine
import ScriptStore.Proofs.Config.Upkeep

/-!
# Setting an entry somewhere in a tree

Setting an entry changes one place of a tree. A section on the way to it gets another content for one
block and nothing else, so every value that is not looked up through that place stays; the nodes of
the tree that results are the old ones, blocks with their old headers, and the entry that was set.

Setting and going down to a section are one kind of change: `Section.put` says what a section has
afterwards, and what is found in it follows from that for both.
-/

namespace ScriptStore.Config

/-! ## One place of a section -/

namespace Section

variable {s s' t : Section} {n m : Node} {level level' : Nat} {key other : String}

/-- The nodes with `n` in the place of the node of that name, or behind the others. -/
def put (s : Section) (key : String) (n : Node) : List Node :=
  match s.position key with
  | some i => s.nodes.set i n
  | none => s.nodes ++ [n]

theorem get?_congr (h : Text.lowercase other = Text.lowercase key) : s.get? other = s.get? key := by
  rw [get?, get?, position, position, h]

/-- Another content for a block changes one place. -/
theorem nodes_modify (h : s.get? key = some n) (f : Node → Node) :
    (s.modify key f).nodes = s.put key (f n) := by
  obtain ⟨i, hplace, hi⟩ := exists_of_get? h
  rw [modify, put, hplace]
  dsimp only
  rw [List.modify_eq_set_getElem?, hi]
  rfl

/-- Setting a value changes one place: an entry gets another value, and where there is none, a new
entry is put. -/
theorem Tidy.nodes_set (hs : s.Tidy level) (key value : String) :
    ∃ n, (s.set key value).nodes = s.put key n ∧
      ((∃ h old, s.get? key = some (.leaf h (.entry old)) ∧ n = .leaf h (.entry value)) ∨
        n = .leaf { key := some key, level } (.entry value)) := by
  unfold Section.set
  split
  · next new i hnew hplace =>
      obtain ⟨old, hold, hnew⟩ := Option.bind_eq_some_iff.1 hnew
      refine ⟨new, by rw [put, hplace], .inl ?_⟩
      unfold Node.setValue? at hnew
      split at hnew
      · cases hnew
        exact ⟨_, _, hold, rfl⟩
      · cases hnew
  · refine ⟨_, ?_, .inr rfl⟩
    rw [Section.setNode, put, ← hs.childLevel]
    cases s.position key <;> rfl

/-- Names of nodes after one was put in its place. -/
theorem Tidy.lastPlace?_put (hs : s.Tidy level) (hname : n.name? = some (Text.lowercase key))
    (name : String) :
    lastPlace? name ((s.put key n).map Node.name?) = if name = Text.lowercase key
      then some ((s.position key).getD s.nodes.length) else lastPlace? name (s.nodes.map Node.name?) := by
  rw [put]
  cases hplace : s.position key with
  | none =>
    rw [List.map_append, List.map_singleton, hname, lastPlace?_concat, List.length_map]
    simp only [Option.some.injEq, eq_comm, Option.getD_none]
  | some i =>
    obtain ⟨m, hm, hold⟩ := hs.exists_of_position hplace
    have hi : (s.nodes.map Node.name?)[i]? = some n.name? := by
      rw [List.getElem?_map, hm, hname, ← hold]
      rfl
    have hnames : (s.nodes.set i n).map Node.name? = s.nodes.map Node.name? := by
      obtain ⟨hlt, heq⟩ := List.getElem?_eq_some_iff.1 hi
      rw [List.map_set, ← heq]
      exact List.set_getElem_self hlt
    dsimp only
    rw [hnames]
    split
    · next heq => rw [heq, ← hs.index]; exact hplace
    · rfl

section

variable (hs : s.Tidy level) (hs' : s'.Tidy level') (hnodes : s'.nodes = s.put key n)
  (hname : n.name? = some (Text.lowercase key))

include hs hs' hnodes hname

/-- What was put is found. -/
theorem Tidy.get?_put : s'.get? key = some n := by
  have hposition : s'.position key = some ((s.position key).getD s.nodes.length) := by
    rw [position, hs'.index, hnodes, hs.lastPlace?_put hname, if_pos rfl]
  rw [get?, hposition, Option.bind_some, hnodes, put]
  cases hplace : s.position key with
  | none => exact List.getElem?_concat_length
  | some i =>
    obtain ⟨m, hm, _⟩ := hs.exists_of_position hplace
    exact List.getElem?_set_self (List.getElem?_eq_some_iff.1 hm).1

/-- What has another name is found where it was. -/
theorem Tidy.get?_put_ne (hne : Text.lowercase other ≠ Text.lowercase key) :
    s'.get? other = s.get? other := by
  have hposition : s'.position other = s.position other := by
    rw [position, hs'.index, hnodes, hs.lastPlace?_put hname, if_neg hne, ← hs.index]
    rfl
  rw [get?, get?, hposition, hnodes]
  refine Option.bind_congr fun j hj => ?_
  obtain ⟨m, hm, hother⟩ := hs.exists_of_position hj
  rw [put]
  cases hplace : s.position key with
  | none => exact List.getElem?_append_left (List.getElem?_eq_some_iff.1 hm).1
  | some i =>
    refine List.getElem?_set_ne fun hij => hne ?_
    -- at one place there is one name
    obtain ⟨m', hm', hkey⟩ := hs.exists_of_position hplace
    rw [hij, hm] at hm'
    cases hm'
    rw [hother] at hkey
    exact Option.some.inj hkey

end

/-! ## Values on the way -/

theorem valueAt_cons {path : List String} (h : path ≠ []) :
    s.valueAt (key :: path) = (s.section? key).bind fun child => child.valueAt path := by
  obtain ⟨next, rest, rfl⟩ := List.exists_cons_of_ne_nil h
  rw [valueAt]
  cases s.section? key <;> rfl

theorem valueAt_congr (h : s.get? key = t.get? other) (path : List String) :
    s.valueAt (key :: path) = t.valueAt (other :: path) := by
  by_cases hpath : path = []
  · subst hpath
    rw [valueAt, valueAt, value?, value?, h]
  · rw [valueAt_cons hpath, valueAt_cons hpath, section?, section?, h]

theorem nodes_ne_nil_of_valueAt {path : List String} {value : String}
    (h : s.valueAt path = some value) : s.nodes ≠ [] := by
  intro hnil
  have hget : ∀ key, s.get? key = none := by
    intro key
    rw [get?, hnil]
    cases s.position key <;> rfl
  cases path with
  | nil => cases h
  | cons key rest => cases rest <;> simp [valueAt, value?, section?, hget] at h

theorem section?_replaceIn {child : Section} (h : n.section? = some child) :
    (s.replaceIn n).section? = some s ∧ (s.replaceIn n).value? = n.value? := by
  cases n with
  | leaf => cases h
  | block => exact ⟨rfl, rfl⟩

section

variable {child child' : Section} {first : String} (hs : s.Tidy level) (hn : s.get? first = some n)
  (hchild : n.section? = some child) (hchild' : child'.Tidy (level + 1))

include hs hn hchild hchild'

/-- A block with another content is found in its place. -/
theorem Tidy.get?_modify_replaceIn :
    (s.modify first child'.replaceIn).get? first = some (child'.replaceIn n) := by
  have hname := ((hs.of_get? hn).replaceIn hchild hchild').2.trans (hs.name?_of_get? hn)
  exact hs.get?_put (hs.modify_replaceIn hn hchild hchild') (nodes_modify hn child'.replaceIn) hname

theorem Tidy.get?_modify_replaceIn_ne (hne : Text.lowercase other ≠ Text.lowercase first) :
    (s.modify first child'.replaceIn).get? other = s.get? other := by
  have hname := ((hs.of_get? hn).replaceIn hchild hchild').2.trans (hs.name?_of_get? hn)
  exact hs.get?_put_ne (hs.modify_replaceIn hn hchild hchild') (nodes_modify hn child'.replaceIn) hname
    hne

end

/-- **Setting an entry in a section below gives it the value and leaves all others.** -/
theorem valueAt_updateAt_set {value : String} {path : List String} {u : Unit} (hs : s.Tidy level)
    (h : updateAt (fun t => ((), t.set key value)) path s = some (u, s')) :
    s'.Tidy level ∧ s'.valueAt (path ++ [key]) = some value ∧
      ∀ q : List String, ¬(path ++ [key]).map Text.lowercase <+: q.map Text.lowercase →
        s'.valueAt q = s.valueAt q := by
  induction path generalizing s s' level with
  | nil =>
    cases h
    have htidy := hs.set key value
    obtain ⟨n, hnodes, hn⟩ := hs.nodes_set key value
    have hname : n.name? = some (Text.lowercase key) ∧ n.value? = some value := by
      rcases hn with ⟨h, old, hold, rfl⟩ | rfl
      · have hname := hs.name?_of_get? hold
        exact ⟨hname, rfl⟩
      · exact ⟨rfl, rfl⟩
    refine ⟨htidy, ?_, fun q hq => ?_⟩
    · rw [List.nil_append, valueAt, value?, hs.get?_put htidy hnodes hname.1]
      exact hname.2
    · cases q with
      | nil => rfl
      | cons k rest =>
        refine valueAt_congr (hs.get?_put_ne htidy hnodes hname.1 fun heq => hq ?_) rest
        exact ⟨rest.map Text.lowercase, by rw [List.map_cons, heq]; rfl⟩
  | cons first path ih =>
    obtain ⟨n, child, child', hn, hchild, hupdate, rfl⟩ := exists_of_updateAt h
    obtain ⟨hchild', hvalue, hframe⟩ := ih ((hs.of_get? hn).inner hchild) hupdate
    have hget := hs.get?_modify_replaceIn hn hchild hchild'
    obtain ⟨hsection, hvalue?⟩ := section?_replaceIn (s := child') hchild
    refine ⟨hs.modify_replaceIn hn hchild hchild', ?_, fun q hq => ?_⟩
    · rw [List.cons_append, valueAt_cons (by simp), section?, hget, Option.bind_some, hsection]
      exact hvalue
    · cases q with
      | nil => rfl
      | cons k rest =>
        by_cases hk : Text.lowercase k = Text.lowercase first
        · -- the way leads into the block, and the rest of it past the entry
          rw [List.cons_append, List.map_cons, List.map_cons, hk, List.cons_prefix_cons] at hq
          rw [valueAt_congr (get?_congr hk) rest, valueAt_congr (get?_congr hk) rest]
          by_cases hnil : rest = []
          · subst hnil
            rw [valueAt, valueAt, value?, value?, hget, hn]
            exact hvalue?
          · rw [valueAt_cons hnil, valueAt_cons hnil, section?, section?, hget, hn,
              Option.bind_some, Option.bind_some, hsection, hchild]
            exact hframe rest fun hstart => hq ⟨rfl, hstart⟩
        · exact valueAt_congr (hs.get?_modify_replaceIn_ne hn hchild hchild' hk) rest

/-- An operation can be run where a section is. -/
theorem exists_updateAt {α : Type} (f : Section → α × Section) {path : List String}
    (h : s.descend path = some t) : ∃ a s', updateAt f path s = some (a, s') := by
  induction path generalizing s with
  | nil => exact ⟨_, _, rfl⟩
  | cons first path ih =>
    rw [descend] at h
    cases hchild : s.section? first with
    | none => rw [hchild] at h; cases h
    | some child =>
      rw [hchild] at h
      obtain ⟨a, child', hupdate⟩ := ih h
      exact ⟨a, s.modify first child'.replaceIn, by rw [updateAt, hchild]; simp only [hupdate]⟩

end Section

/-! ## Values of trees that differ in numbers and indexes only -/

theorem Node.name?_bare (n : Node) : n.bare.name? = n.name? := by
  cases n with
  | leaf h content => cases content <;> rfl
  | block => rfl

theorem Node.value?_bare (n : Node) : n.bare.value? = n.value? := by
  cases n with
  | leaf h content => cases content <;> rfl
  | block => rfl

namespace Section

variable {s t : Section} {level level' : Nat}

theorem Tidy.bare_get? (hs : s.Tidy level) (key : String) :
    (s.get? key).map Node.bare
      = (bareOf s.nodes).reverse.find? fun n => n.name? == some (Text.lowercase key) := by
  have hget : s.get? key = s.nodes.reverse.find? fun n => n.name? == some (Text.lowercase key) := by
    rw [get?, position, hs.index]
    exact getElem?_lastPlace? _ _
  rw [hget, bareOf_eq_map, ← List.map_reverse, List.find?_map]
  simp only [Function.comp_def, Node.name?_bare]

theorem valueAt_eq_of_bare (hs : s.Tidy level) (ht : t.Tidy level')
    (hbare : bareOf s.nodes = bareOf t.nodes) (path : List String) :
    s.valueAt path = t.valueAt path := by
  induction path generalizing s t level level' with
  | nil => rfl
  | cons key path ih =>
    -- a key leads to the same node on both sides, but for what `bare` takes away
    have hget : (s.get? key).map Node.bare = (t.get? key).map Node.bare := by
      rw [hs.bare_get?, ht.bare_get?, hbare]
    by_cases hpath : path = []
    · subst hpath
      have hvalue : ∀ r : Section, r.value? key = ((r.get? key).map Node.bare).bind Node.value? := by
        intro r
        rw [value?, Option.bind_map]
        simp only [Function.comp_def, Node.value?_bare]
      rw [valueAt, valueAt, hvalue, hvalue, hget]
    · rw [valueAt_cons hpath, valueAt_cons hpath, section?, section?]
      cases hn : s.get? key with
      | none =>
        rw [hn, Option.map_none, eq_comm, Option.map_eq_none_iff] at hget
        rw [hget]
      | some n =>
        rw [hn, Option.map_some, eq_comm, Option.map_eq_some_iff] at hget
        obtain ⟨m, hm, heq⟩ := hget
        have hntidy := hs.of_get? hn
        have hmtidy := ht.of_get? hm
        rw [hm, Option.bind_some, Option.bind_some]
        cases n with
        | leaf h content =>
          cases m with
          | leaf => rfl
          | block => rw [Node.bare, Node.bare] at heq; cases heq
        | block h index childLevel nodes =>
          cases m with
          | leaf => rw [Node.bare, Node.bare] at heq; cases heq
          | block h' index' childLevel' nodes' =>
            rw [Node.bare, Node.bare, Node.block.injEq] at heq
            exact ih (hntidy.inner rfl) (hmtidy.inner rfl) heq.2.2.2.symm

end Section

/-! ## The nodes of an edited tree -/

theorem mem_walkOf {nodes : List Node} {m : Node} : m ∈ walkOf nodes ↔ ∃ n ∈ nodes, m ∈ n.walk := by
  induction nodes with
  | nil => simp [walkOf]
  | cons n rest ih => rw [walkOf, List.mem_append, ih, List.exists_mem_cons_iff]

theorem Node.self_mem_walk (n : Node) : n ∈ n.walk := by
  cases n with
  | leaf => exact List.mem_singleton_self _
  | block => exact .head _

namespace Orderly

variable {level : Nat} {nodes : List Node} {old new : Node}

/-- The nodes of a block are orderly one level deeper. -/
theorem inner (ho : Orderly level nodes) {h : Header} {index : Index} {childLevel : Nat}
    {below : List Node} (hmem : .block h index childLevel below ∈ nodes) :
    Orderly (level + 1) below := by
  induction ho with
  | nil => cases hmem
  | leaf _ _ ih =>
    rcases List.mem_cons.1 hmem with heq | hmem
    · cases heq
    · exact ih hmem
  | block _ hnodes _ _ _ ih =>
    rcases List.mem_cons.1 hmem with heq | hmem
    · cases heq
      exact hnodes
    · exact ih hmem

/-- A node with content may take the place of another one, but a block only that of a block. -/
theorem set (ho : Orderly level nodes) {i : Nat} (hi : nodes[i]? = some old)
    (hnew : Orderly level [new]) (hvoid : new.isVoid = false)
    (hblock : new.isSection = true → old.isSection = true) : Orderly level (nodes.set i new) := by
  induction ho generalizing i with
  | nil => cases hi
  | leaf hlevel hrest ih =>
    cases i with
    | zero =>
      cases hi
      cases hnew with
      | leaf hlevel' _ => exact .leaf hlevel' hrest
      | block => cases hblock rfl
    | succ i => exact .leaf hlevel (ih hi hnew)
  | @block _ _ _ _ _ rest hlevel hnodes hnext hrest _ ih =>
    cases i with
    | zero =>
      cases hi
      cases hnew with
      | leaf hlevel' _ => exact .leaf hlevel' hrest
      | block hlevel' hnodes' _ _ => exact .block hlevel' hnodes' hnext hrest
    | succ i =>
      refine .block hlevel hnodes (fun n hn => ?_) (ih hi hnew)
      cases rest with
      | nil => cases hn
      | cons first rest =>
        cases i with
        | zero => cases hn; exact hvoid
        | succ i => exact hnext n hn

/-- A node with content may come behind all others. -/
theorem concat (ho : Orderly level nodes) (hnew : Orderly level [new]) (hvoid : new.isVoid = false) :
    Orderly level (nodes ++ [new]) := by
  induction ho with
  | nil => exact hnew
  | leaf hlevel _ ih => exact .leaf hlevel (ih hnew)
  | @block _ _ _ _ _ rest hlevel hnodes hnext _ _ ih =>
    refine .block hlevel hnodes (fun n hn => ?_) (ih hnew)
    cases rest with
    | nil => cases hn; exact hvoid
    | cons first rest => exact hnext n hn

end Orderly

/-- `Stems key value nodes n`: where `n` comes from in a tree in which an entry was set. -/
inductive Stems (key value : String) (nodes : List Node) : Node → Prop
  | kept {n : Node} (hn : n ∈ walkOf nodes) : Stems key value nodes n
  | block {h : Header} {index index' : Index} {childLevel childLevel' : Nat} {inner inner' : List Node}
      (hn : .block h index childLevel inner ∈ walkOf nodes) :
      Stems key value nodes (.block h index' childLevel' inner')
  | changed {h : Header} {old : String} (hn : .leaf h (.entry old) ∈ walkOf nodes) :
      Stems key value nodes (.leaf h (.entry value))
  | new (level : Nat) : Stems key value nodes (.leaf { key := some key, level } (.entry value))

theorem Stems.mono {key value : String} {nodes nodes' : List Node} {n : Node}
    (h : Stems key value nodes n) (hsub : ∀ m ∈ walkOf nodes, m ∈ walkOf nodes') :
    Stems key value nodes' n := by
  cases h with
  | kept hn => exact .kept (hsub _ hn)
  | block hn => exact .block (hsub _ hn)
  | changed hn => exact .changed (hsub _ hn)
  | new level => exact .new level

namespace Section

variable {s s' : Section} {n m : Node} {level : Nat} {key value : String}

/-- On a walk after a node was put, there are the old nodes and those of the new one. -/
theorem mem_walkOf_put (h : m ∈ walkOf (s.put key n)) : m ∈ walkOf s.nodes ∨ m ∈ n.walk := by
  obtain ⟨k, hk, hm⟩ := mem_walkOf.1 h
  rw [put] at hk
  cases hplace : s.position key with
  | none =>
    rw [hplace] at hk
    rcases List.mem_append.1 hk with hk | hk
    · exact .inl (mem_walkOf.2 ⟨k, hk, hm⟩)
    · exact .inr (List.mem_singleton.1 hk ▸ hm)
  | some i =>
    rw [hplace] at hk
    rcases List.mem_or_eq_of_mem_set hk with hk | rfl
    · exact .inl (mem_walkOf.2 ⟨k, hk, hm⟩)
    · exact .inr hm

theorem Tidy.orderly_put (hs : s.Tidy level) (ho : Orderly level s.nodes)
    (hnew : Orderly level [n]) (hvoid : n.isVoid = false)
    (hblock : n.isSection = true → ∃ old, s.get? key = some old ∧ old.isSection = true) :
    Orderly level (s.put key n) := by
  rw [put]
  cases hplace : s.position key with
  | none => exact ho.concat hnew hvoid
  | some i =>
    obtain ⟨old, hi, _⟩ := hs.exists_of_position hplace
    refine ho.set hi hnew hvoid fun hn => ?_
    obtain ⟨old', hget, hold⟩ := hblock hn
    rw [get?, hplace, Option.bind_some, hi] at hget
    cases hget
    exact hold

/-- **An edited tree is orderly, and its nodes are the old ones and the entry that was set.** -/
theorem stems_updateAt_set {path : List String} {u : Unit} (hs : s.Tidy level)
    (ho : Orderly level s.nodes)
    (h : updateAt (fun t => ((), t.set key value)) path s = some (u, s')) :
    Orderly level s'.nodes ∧ ∀ m ∈ walkOf s'.nodes, Stems key value s.nodes m := by
  induction path generalizing s s' level with
  | nil =>
    cases h
    -- the entry that has the key gets the value, or a new one stands in its place or at the end
    obtain ⟨n, hnodes, hn⟩ := hs.nodes_set key value
    obtain ⟨h, rfl, hlevel, hstems⟩ : ∃ h, n = .leaf h (.entry value) ∧ h.level = level ∧
        Stems key value s.nodes (.leaf h (.entry value)) := by
      rcases hn with ⟨h, old, hold, rfl⟩ | rfl
      · exact ⟨h, rfl, (hs.of_get? hold).level_eq,
          .changed (mem_walkOf.2 ⟨_, mem_of_get? hold, Node.self_mem_walk _⟩)⟩
      · exact ⟨_, rfl, rfl, .new level⟩
    rw [hnodes]
    refine ⟨hs.orderly_put ho (.leaf hlevel .nil) rfl nofun, fun m hm => ?_⟩
    rcases mem_walkOf_put hm with hm | hm
    · exact .kept hm
    · rw [List.mem_singleton.1 hm]
      exact hstems
  | cons first path ih =>
    obtain ⟨n, child, child', hn, hchild, hupdate, rfl⟩ := exists_of_updateAt h
    have hmem := mem_of_get? hn
    have htidy := hs.of_get? hn
    have hnodes := nodes_modify hn child'.replaceIn
    cases n with
    | leaf => cases hchild
    | block header index childLevel below =>
      cases hchild
      obtain ⟨hchild', hstems⟩ := ih (htidy.inner rfl) (ho.inner hmem) hupdate
      rw [hnodes]
      -- on the way down a section is replaced by itself with other nodes inside
      refine ⟨hs.orderly_put ho (.block htidy.level_eq hchild' nofun .nil) rfl
        fun _ => ⟨_, hn, rfl⟩, fun m hm => ?_⟩
      rcases mem_walkOf_put hm with hm | hm
      · exact .kept hm
      · rcases List.mem_cons.1 hm with rfl | hm
        · exact .block (mem_walkOf.2 ⟨_, hmem, Node.self_mem_walk _⟩)
        · exact (hstems m hm).mono fun k hk => mem_walkOf.2 ⟨_, hmem, .tail _ hk⟩

end Section

end ScriptStore.Config
