import ScriptStore.Proofs.Config.Places

/-!
# Taking over values, and when the keys differ

When a section takes over the values of another, it is told whether the two differ in their keys. The
answer is put together on the way through the trees: each node of one section is looked up in the
other, two sections of one name are compared in their turn (`Compared`), and at the end of each
comparison the keys of the other side are looked up too.

A key leads to the last entry or section of that name and to nothing else. So a line that is neither
cannot be found, not even by the section it stands in, and of two sections with one name only the last
is seen from the other side. In trees without such lines and without two nodes of one name the answer is
about the set of keys.
-/

namespace ScriptStore.Config

namespace Node

variable {n m : Node}

/-- Whether one node can stand for another: an entry for an entry and a section for a section. -/
def StandsFor (m n : Node) : Prop :=
  (n.isEntry = true → m.isEntry = true) ∧ (n.isSection = true → m.isSection = true)

theorem standsFor_leaf {h : Header} {content : Leaf} :
    m.StandsFor (.leaf h content) ↔ ((leaf h content).isEntry = true → m.isEntry = true) := by
  simp [StandsFor, isSection]

/-- A section can stand for a section, and nothing else can. -/
theorem standsFor_block {h : Header} {index : Index} {level : Nat} {nodes : List Node} :
    m.StandsFor (.block h index level nodes) ↔ ∃ t, m.section? = some t := by
  cases m with
  | leaf => simp [StandsFor, isSection, section?]
  | block => simp [StandsFor, isEntry, isSection, section?]

/-- Of two nodes with names, one can stand for the other if both are sections or neither is. -/
theorem standsFor_iff (hn : n.isNamed = true) (hm : m.isNamed = true) :
    m.StandsFor n ↔ m.isSection = n.isSection := by
  have hkind : ∀ k : Node, k.isNamed = true → k.isEntry = !k.isSection := by
    intro k hk
    cases k with
    | leaf h content =>
      cases content with
      | entry => rfl
      | _ => cases hk
    | block => rfl
  rw [StandsFor, hkind n hn, hkind m hm]
  cases n.isSection <;> cases m.isSection <;> simp

end Node

namespace Section

variable {s t : Section} {n m : Node}

/-- What a comparison asks of two sections: each finds the keys of the other, and what the first finds
can stand for what it has itself. -/
structure KeysMatch (s t : Section) : Prop where
  mine : ∀ n ∈ s.content, ∀ key ∈ n.key, ∃ m, t.get? key = some m ∧ m.StandsFor n
  theirs : ∀ n ∈ t.content, ∀ key ∈ n.key, ∃ m, s.get? key = some m

/-- The pairs of sections that are compared when a section takes over the values of another. -/
inductive Compared : Section → Section → Section → Section → Prop
  | self (a b : Section) : Compared a b a b
  | inner {a b a' b' s t : Section} {n : Node} {key : String} (hn : n ∈ a.nodes)
      (hkey : n.key = some key) (ha : n.section? = some a') (hb : b.section? key = some b')
      (h : Compared a' b' s t) : Compared a b s t

/-! ## The answer, section by section -/

/-- Without excluded keys, the answer about a list of nodes is that about any of them. -/
theorem adoptNodes_snd (other : Section) (nodes : List Node) :
    (adoptNodes other [] nodes).2 = nodes.any fun n => (adoptNode other n).2 := by
  induction nodes with
  | nil => rw [adoptNodes, List.any_nil]
  | cons n rest ih =>
    have hkept : (!n.isVoid && n.key.any fun key =>
        ([] : List String).any (Text.sameIgnoringAsciiCase · key)) = false := by
      cases n.key <;> simp
    rw [adoptNodes, hkept, List.any_cons, ← ih]
    rfl

/-- Taking over values hides no key and makes none. -/
theorem isNone_get?_map (s : Section) (f : Node → Node) (key : String) :
    (get? { s with nodes := s.nodes.map f } key).isNone = (s.get? key).isNone := by
  have hplace : position { s with nodes := s.nodes.map f } key = s.position key := rfl
  rw [get?, get?, hplace]
  cases s.position key with
  | none => rfl
  | some i => rw [Option.bind_some, Option.bind_some, List.getElem?_map, Option.isNone_map]

theorem hasExtraKey_map (other s : Section) (f : Node → Node) :
    hasExtraKey other { s with nodes := s.nodes.map f } = hasExtraKey other s := by
  simp only [hasExtraKey, isNone_get?_map]

theorem hasExtraKey_eq_false_iff {other mine : Section} :
    hasExtraKey other mine = false ↔
      ∀ n ∈ other.content, ∀ key ∈ n.key, ∃ m, mine.get? key = some m := by
  simp only [hasExtraKey, List.any_eq_false, List.mem_filterMap, Bool.not_eq_true,
    Option.isNone_eq_false_iff, Option.isSome_iff_exists]
  constructor
  · intro h n hn key hkey
    exact h key ⟨n, hn, hkey⟩
  · rintro h key ⟨n, hn, hkey⟩
    exact h n hn key hkey

/-- The answer about two sections is that about each node of the first, and about the keys of the
second. -/
theorem setValues_snd (s other : Section) :
    (s.setValues other []).2 = ((s.nodes.any fun n => (adoptNode other n).2) || hasExtraKey other s) := by
  rw [setValues, ← adoptNodes_snd]
  dsimp only
  rw [adoptNodes_fst, hasExtraKey_map]

/-- A leaf differs if its key finds nothing, or if it is an entry and its key finds a section. -/
theorem adoptNode_leaf_snd (other : Section) (h : Header) (content : Leaf) :
    (adoptNode other (.leaf h content)).2 = false ↔ (content ≠ .void → ∀ key ∈ h.key,
      ∃ m, other.get? key = some m ∧ m.StandsFor (.leaf h content)) := by
  simp only [Node.standsFor_leaf]
  cases hkey : h.key with
  | none => cases content <;> simp [adoptNode, hkey]
  | some key =>
    cases content with
    | void => simp [adoptNode]
    | entry v =>
      cases hm : other.get? key with
      | none => simp [adoptNode, hkey, hm]
      | some m =>
        cases m with
        | leaf h' content' => cases content' <;> simp [adoptNode, hkey, hm, Node.isEntry]
        | block => simp [adoptNode, hkey, hm, Node.isEntry]
    | _ => cases hm : other.get? key <;> simp [adoptNode, hkey, hm, Node.isEntry]

/-- A block differs if its key does not find a section, or if the two sections differ. -/
theorem adoptNode_block_snd (other : Section) (h : Header) (index : Index) (level : Nat)
    (nodes : List Node) :
    (adoptNode other (.block h index level nodes)).2 = false ↔ ∀ key ∈ h.key, ∃ theirs,
      other.section? key = some theirs ∧ (setValues ⟨nodes, index, level⟩ theirs []).2 = false := by
  cases hkey : h.key with
  | none => simp [adoptNode, hkey]
  | some key =>
    cases hm : other.get? key with
    | none => simp [adoptNode, section?, hkey, hm]
    | some m =>
      cases ht : m.section? with
      | none => simp [adoptNode, section?, hkey, hm, ht]
      | some theirs => simp [adoptNode, section?, setValues, hkey, hm, ht]

/-- A node does not differ if something can stand for it on the other side and, where both are
sections, these do not differ. -/
theorem adoptNode_snd_eq_false_iff {other : Section} :
    (adoptNode other n).2 = false ↔
      (n.isVoid = false → ∀ key ∈ n.key, ∃ m, other.get? key = some m ∧ m.StandsFor n) ∧
      ∀ key ∈ n.key, ∀ s t, n.section? = some s → other.section? key = some t →
        (s.setValues t []).2 = false := by
  cases n with
  | leaf h content =>
    have hvoid : (Node.leaf h content).isVoid = false ↔ content ≠ .void := by
      cases content <;> simp [Node.isVoid]
    rw [adoptNode_leaf_snd, hvoid]
    simp [Node.section?, Node.key, Node.header]
  | block h index level nodes =>
    rw [adoptNode_block_snd]
    simp only [Node.standsFor_block, section?, Option.bind_eq_some_iff]
    constructor
    · intro hall
      refine ⟨fun _ key hkey => ?_, fun key hkey s t hs ht => ?_⟩
      · obtain ⟨theirs, ⟨m, hm, ht⟩, _⟩ := hall key hkey
        exact ⟨m, hm, theirs, ht⟩
      · obtain ⟨m, hm, ht⟩ := ht
        obtain ⟨theirs, ⟨m', hm', ht'⟩, hsame⟩ := hall key hkey
        rw [hm] at hm'
        cases hm'
        rw [ht] at ht'
        cases ht'
        cases hs
        exact hsame
    · rintro ⟨hfound, hinner⟩ key hkey
      obtain ⟨m, hm, theirs, ht⟩ := hfound rfl key hkey
      exact ⟨theirs, ⟨m, hm, ht⟩, hinner key hkey _ theirs rfl ⟨m, hm, ht⟩⟩

/-- Two sections do not differ if their keys match and no sections of one name in them differ. -/
theorem setValues_snd_eq_false_iff :
    (s.setValues t []).2 = false ↔ s.KeysMatch t ∧ ∀ n ∈ s.nodes, ∀ key ∈ n.key, ∀ s' t',
      n.section? = some s' → t.section? key = some t' → (s'.setValues t' []).2 = false := by
  rw [setValues_snd, Bool.or_eq_false_iff, List.any_eq_false, hasExtraKey_eq_false_iff]
  simp only [Bool.not_eq_true, adoptNode_snd_eq_false_iff]
  constructor
  · rintro ⟨hmine, htheirs⟩
    refine ⟨⟨fun n hn => ?_, htheirs⟩, fun n hn => (hmine n hn).2⟩
    obtain ⟨hmem, hvoid⟩ := List.mem_filter.1 hn
    exact (hmine n hmem).1 (Bool.not_eq_true' _ ▸ hvoid)
  · rintro ⟨⟨hmine, htheirs⟩, hinner⟩
    refine ⟨fun n hn => ⟨fun hvoid => ?_, hinner n hn⟩, htheirs⟩
    exact hmine n (List.mem_filter.2 ⟨hn, hvoid ▸ rfl⟩)

/-- **Two sections do not differ if the keys of all sections match that are compared.** -/
theorem setValues_snd_eq_false_iff_compared {a b : Section} :
    (a.setValues b []).2 = false ↔ ∀ s t, Compared a b s t → s.KeysMatch t := by
  constructor
  · intro hsame s t hst
    induction hst with
    | self a b => exact (setValues_snd_eq_false_iff.1 hsame).1
    | inner hn hkey ha hb _ ih => exact ih ((setValues_snd_eq_false_iff.1 hsame).2 _ hn _ hkey _ _ ha hb)
  · intro hall
    -- by induction on the nodes of the first section
    have hnode : ∀ n : Node, ∀ s t, n.section? = some s → (∀ s' t', Compared s t s' t' → s'.KeysMatch t') →
        (s.setValues t []).2 = false := by
      intro n
      induction n using Node.blockInduction with
      | leaf =>
        intro s t hs
        cases hs
      | block h index level nodes ih =>
        intro s t hs hmatch
        cases hs
        refine setValues_snd_eq_false_iff.2 ⟨hmatch _ _ (.self _ _), fun n hn key hkey s' t' hs' ht' => ?_⟩
        exact ih n hn s' t' hs' fun s'' t'' h => hmatch _ _ (.inner hn hkey hs' ht' h)
    exact hnode (.block { key := none } a.index a.childLevel a.nodes) a b rfl hall

end Section

/-! ## Sets of keys -/

/-- Whether names lead from a node to a section, or to an entry. -/
def Node.HasKey (toSection : Bool) : List String → Node → Prop
  | [], n => n.isSection = toSection
  | name :: rest, n => ∃ m ∈ n.inner, m.name? = some name ∧ m.HasKey toSection rest

namespace Section

variable {s t : Section} {n m : Node} {level : Nat}

/-- Whether names lead to a section in `s`, or to an entry. Names are keys in small letters. -/
def HasKey (s : Section) (toSection : Bool) (name : String) (rest : List String) : Prop :=
  ∃ n ∈ s.nodes, n.name? = some name ∧ n.HasKey toSection rest

/-- A tree whose nodes are all found by their keys: there are entries and sections only, and no two in
one section have the same name. -/
structure Clean (s : Section) : Prop where
  named : ∀ depth t, s.Contains depth t → ∀ n ∈ t.content, n.key.isSome = true → n.isNamed = true
  distinct : ∀ depth t, s.Contains depth t → (t.nodes.filterMap Node.name?).Nodup

theorem Clean.inner (hs : s.Clean) (hn : n ∈ s.nodes) (ht : n.section? = some t) : t.Clean :=
  ⟨fun depth u hu => hs.named (depth + 1) u (.inner hn ht hu),
    fun depth u hu => hs.distinct (depth + 1) u (.inner hn ht hu)⟩

theorem clean_of_inner (hnamed : ∀ n ∈ s.content, n.key.isSome = true → n.isNamed = true)
    (hdistinct : (s.nodes.filterMap Node.name?).Nodup)
    (hinner : ∀ n ∈ s.nodes, ∀ t, n.section? = some t → t.Clean) : s.Clean := by
  constructor
  · intro depth t ht
    cases ht with
    | self => exact hnamed
    | inner hn hchild ht => exact (hinner _ hn _ hchild).named _ _ ht
  · intro depth t ht
    cases ht with
    | self => exact hdistinct
    | inner hn hchild ht => exact (hinner _ hn _ hchild).distinct _ _ ht

/-- In a clean section a node is told by its name. -/
theorem Clean.eq_of_name? (hs : s.Clean) (hn : n ∈ s.nodes) (hm : m ∈ s.nodes) {name : String}
    (hname : n.name? = some name) (hname' : m.name? = some name) : n = m := by
  have hpairs := List.pairwise_filterMap.1 (hs.distinct 0 s (.self s))
  obtain ⟨i, hi, rfl⟩ := List.mem_iff_getElem.1 hn
  obtain ⟨j, hj, rfl⟩ := List.mem_iff_getElem.1 hm
  rcases Nat.lt_trichotomy i j with hlt | rfl | hlt
  · exact absurd rfl (List.pairwise_iff_getElem.1 hpairs i j hi hj hlt name hname name hname')
  · rfl
  · exact absurd rfl (List.pairwise_iff_getElem.1 hpairs j i hj hi hlt name hname' name hname)

/-- What has a name has a key, and is no void line. -/
theorem exists_key_of_name? {name : String} (hname : n.name? = some name) :
    n.isNamed = true ∧ n.isVoid = false ∧ ∃ key, n.key = some key ∧ Text.lowercase key = name := by
  unfold Node.name? at hname
  split at hname
  · next hnamed =>
      refine ⟨hnamed, ?_, Option.map_eq_some_iff.1 hname⟩
      cases n with
      | leaf h content =>
        cases content with
        | void => cases hnamed
        | _ => rfl
      | block => rfl
  · cases hname

/-- In a clean section a key leads to the one node of that name. -/
theorem Clean.get?_iff (hs : s.Clean) (htidy : s.Tidy level) {key : String} :
    s.get? key = some n ↔ n ∈ s.nodes ∧ n.name? = some (Text.lowercase key) := by
  refine ⟨fun h => ⟨mem_of_get? h, htidy.name?_of_get? h⟩, fun ⟨hn, hname⟩ => ?_⟩
  cases hfound : s.get? key with
  | none =>
    have hplace : lastPlace? (Text.lowercase key) (s.nodes.map Node.name?) = s.position key :=
      (htidy.index _).symm
    have hlast := getElem?_lastPlace? (Text.lowercase key) s.nodes
    rw [hplace, ← get?, hfound, eq_comm, List.find?_eq_none] at hlast
    exact absurd (beq_iff_eq.2 hname) (hlast n (List.mem_reverse.2 hn))
  | some m =>
    rw [hs.eq_of_name? (mem_of_get? hfound) hn (htidy.name?_of_get? hfound) hname]

theorem Clean.name?_eq (hs : s.Clean) (hn : n ∈ s.content) {key : String} (hkey : n.key = some key) :
    n.name? = some (Text.lowercase key) := by
  have hnamed := hs.named 0 s (.self s) n hn (hkey ▸ rfl)
  rw [Node.name?, if_pos hnamed, hkey, Option.map_some]

/-- The keys of two clean sections match if these have entries and sections of the same names. -/
theorem Clean.keysMatch_iff (hs : s.Clean) (ht : t.Clean) {other : Nat} (hstidy : s.Tidy level)
    (httidy : t.Tidy other) :
    s.KeysMatch t ↔ ∀ toSection name, s.HasKey toSection name [] ↔ t.HasKey toSection name [] := by
  constructor
  · rintro ⟨hmine, htheirs⟩ toSection name
    constructor
    · rintro ⟨n, hn, hname, hkind⟩
      obtain ⟨hnamed, hvoid, key, hkey, rfl⟩ := exists_key_of_name? hname
      obtain ⟨m, hm, hstands⟩ := hmine n (List.mem_filter.2 ⟨hn, hvoid ▸ rfl⟩) key hkey
      have hname' := httidy.name?_of_get? hm
      have hsame := (Node.standsFor_iff hnamed (exists_key_of_name? hname').1).1 hstands
      exact ⟨m, mem_of_get? hm, hname', hsame.trans hkind⟩
    · -- what finds the key on this side is held against what it finds on the other
      rintro ⟨m, hm, hname, hkind⟩
      obtain ⟨hnamed, hvoid, key, hkey, rfl⟩ := exists_key_of_name? hname
      obtain ⟨n, hn⟩ := htheirs m (List.mem_filter.2 ⟨hm, hvoid ▸ rfl⟩) key hkey
      have hname' := hstidy.name?_of_get? hn
      obtain ⟨hnamed', hvoid', key', hkey', hlower⟩ := exists_key_of_name? hname'
      obtain ⟨m', hm', hstands⟩ := hmine n (List.mem_filter.2 ⟨mem_of_get? hn, hvoid' ▸ rfl⟩) key' hkey'
      have hname'' := httidy.name?_of_get? hm'
      rw [hlower] at hname''
      cases ht.eq_of_name? (mem_of_get? hm') hm hname'' hname
      have hsame := (Node.standsFor_iff hnamed' hnamed).1 hstands
      exact ⟨n, mem_of_get? hn, hname', hsame.symm.trans hkind⟩
  · intro hsame
    refine ⟨fun n hn key hkey => ?_, fun m hm key hkey => ?_⟩
    · have hname := hs.name?_eq hn hkey
      obtain ⟨m, hm, hname', hkind⟩ :=
        (hsame n.isSection _).1 ⟨n, (List.mem_filter.1 hn).1, hname, rfl⟩
      refine ⟨m, (ht.get?_iff httidy).2 ⟨hm, hname'⟩, ?_⟩
      exact (Node.standsFor_iff (exists_key_of_name? hname).1 (exists_key_of_name? hname').1).2 hkind
    · have hname := ht.name?_eq hm hkey
      obtain ⟨n, hn, hname', _⟩ := (hsame m.isSection _).2 ⟨m, (List.mem_filter.1 hm).1, hname, rfl⟩
      exact ⟨n, (hs.get?_iff hstidy).2 ⟨hn, hname'⟩⟩

/-- The keys in a section that stands in another, one name shorter. -/
theorem Clean.hasKey_inner (hs : s.Clean) (hn : n ∈ s.nodes) {name : String} (hname : n.name? = some name)
    (ht : n.section? = some t) (toSection : Bool) (next : String) (rest : List String) :
    t.HasKey toSection next rest ↔ s.HasKey toSection name (next :: rest) := by
  cases n with
  | leaf => cases ht
  | block h index childLevel nodes =>
    cases ht
    constructor
    · exact fun hkey => ⟨_, hn, hname, hkey⟩
    · rintro ⟨m, hm, hname', hkey⟩
      rw [hs.eq_of_name? hm hn hname' hname] at hkey
      exact hkey

theorem exists_section? (h : n.isSection = true) : ∃ t, n.section? = some t := by
  cases n with
  | leaf => cases h
  | block => exact ⟨_, rfl⟩

theorem name?_of_section? (ht : n.section? = some t) {key : String} (hkey : n.key = some key) :
    n.name? = some (Text.lowercase key) := by
  cases n with
  | leaf => cases ht
  | block => exact congrArg (Option.map Text.lowercase) hkey

/-- Names lead on from a section only. -/
theorem HasKey.to_section {toSection : Bool} {name next : String} {rest : List String}
    (h : s.HasKey toSection name (next :: rest)) : s.HasKey true name [] := by
  obtain ⟨n, hn, hname, m, hm, _⟩ := h
  refine ⟨n, hn, hname, ?_⟩
  cases n with
  | leaf => cases hm
  | block => rfl

/-- In clean trees, matching keys in all sections that are compared are the same keys on both sides. -/
theorem Clean.compared_iff {a b : Section} (ha : a.Clean) (hb : b.Clean) {other : Nat}
    (hatidy : a.Tidy level) (hbtidy : b.Tidy other) :
    (∀ s t, Compared a b s t → s.KeysMatch t) ↔
      ∀ toSection name rest, a.HasKey toSection name rest ↔ b.HasKey toSection name rest := by
  constructor
  · intro hall toSection name rest
    induction rest generalizing a b name level other with
    | nil => exact (ha.keysMatch_iff hb hatidy hbtidy).1 (hall a b (.self a b)) toSection name
    | cons next rest ih =>
      have hsame := (ha.keysMatch_iff hb hatidy hbtidy).1 (hall a b (.self a b)) true name
      by_cases hsection : a.HasKey true name []
      · -- both have a section of that name, and the rest of the names leads on in these
        obtain ⟨n, hn, hname, hblock⟩ := hsection
        obtain ⟨m, hm, hname', hblock'⟩ := hsame.1 ⟨n, hn, hname, hblock⟩
        obtain ⟨a', ha'⟩ := exists_section? hblock
        obtain ⟨b', hb'⟩ := exists_section? hblock'
        obtain ⟨_, _, key, hkey, rfl⟩ := exists_key_of_name? hname
        have hget : b.section? key = some b' := by
          rw [section?, (hb.get?_iff hbtidy).2 ⟨hm, hname'⟩]
          exact hb'
        rw [← ha.hasKey_inner hn hname ha', ← hb.hasKey_inner hm hname' hb']
        exact ih (ha.inner hn ha') (hb.inner hm hb') ((hatidy.nodes n hn).inner ha')
          ((hbtidy.nodes m hm).inner hb') (fun s t h => hall s t (.inner hn hkey ha' hget h)) next
      · exact iff_of_false (fun h => hsection h.to_section)
          (fun h => hsection (hsame.2 h.to_section))
  · intro hsame s t hst
    induction hst generalizing level other with
    | self a b => exact (ha.keysMatch_iff hb hatidy hbtidy).2 fun toSection name => hsame toSection name []
    | inner hn hkey ha' hb' _ ih =>
      obtain ⟨m, hm, hinner⟩ := Option.bind_eq_some_iff.1 hb'
      have hmem := mem_of_get? hm
      have hname' := hbtidy.name?_of_get? hm
      have hname := name?_of_section? ha' hkey
      refine ih (ha.inner hn ha') (hb.inner hmem hinner) ((hatidy.nodes _ hn).inner ha')
        ((hbtidy.nodes m hmem).inner hinner) fun toSection next rest => ?_
      rw [ha.hasKey_inner hn hname ha', hb.hasKey_inner hmem hname' hinner]
      exact hsame toSection _ (next :: rest)

/-- **When taking over values tells no difference.** The answer is that the keys match in every pair of
sections that are compared. If each key on both sides leads to the one line that has it, that says that
both have the same keys, in all depths and of the same kinds; so a copy never differs. -/
theorem setValues_tells_no_difference_iff (a b : Section) :
    ((a.setValues b []).2 = false ↔ ∀ s t, Compared a b s t → s.KeysMatch t) ∧
    (∀ level other, a.Tidy level → b.Tidy other → a.Clean → b.Clean →
      ((a.setValues b []).2 = false ↔
        ∀ toSection name rest, a.HasKey toSection name rest ↔ b.HasKey toSection name rest)) ∧
    (∀ level, a.Tidy level → a.Clean → (a.setValues a []).2 = false) := by
  refine ⟨setValues_snd_eq_false_iff_compared, fun level other hatidy hbtidy ha hb => ?_,
    fun level htidy hclean => ?_⟩
  · rw [setValues_snd_eq_false_iff_compared, ha.compared_iff hb hatidy hbtidy]
  · rw [setValues_snd_eq_false_iff_compared, hclean.compared_iff hclean htidy htidy]
    exact fun _ _ _ => Iff.rfl

/-- A section with one section in it, which has one entry. -/
def nested (name key : String) : Section :=
  .ofNodes [.ofSection name "" none (.ofNodes [.entry key "1"])]

theorem tidy_nested (name key : String) : (nested name key).Tidy 0 := by
  have hinner : (ofNodes [.entry key "1"]).Tidy 0 :=
    tidy_ofNodes (List.forall_mem_singleton.2 (Node.loose_leaf _ _))
  exact tidy_ofNodes (List.forall_mem_singleton.2 (Node.tidy_ofSection hinner name "" none).loose)

theorem clean_nested (name key : String) : (nested name key).Clean := by
  refine clean_of_inner (List.forall_mem_singleton.2 fun _ => rfl) (List.nodup_singleton _)
    (List.forall_mem_singleton.2 fun t ht => ?_)
  cases ht
  refine clean_of_inner (List.forall_mem_singleton.2 fun _ => rfl) (List.nodup_singleton _)
    (List.forall_mem_singleton.2 fun t ht => ?_)
  cases ht

/-- Keys that are equal but for case are the same keys, in the inner section too. -/
theorem setValues_tells_no_difference_iff_nested :
    ((nested "K" "X").setValues (nested "k" "x") []).2 = false ∧
      ∀ toSection name rest,
        (nested "K" "X").HasKey toSection name rest ↔ (nested "k" "x").HasKey toSection name rest := by
  have hflag : ((nested "K" "X").setValues (nested "k" "x") []).2 = false := by cbv
  exact ⟨hflag, ((setValues_tells_no_difference_iff _ _).2.1 0 0 (tidy_nested _ _) (tidy_nested _ _)
    (clean_nested _ _) (clean_nested _ _)).1 hflag⟩

/-- Two sections of one name, where the first has the entry `x` and the second the entry `y`. -/
def twice : Section :=
  .ofNodes [.ofSection "k" "" none (.ofNodes [.entry "x" "1"]),
    .ofSection "k" "" none (.ofNodes [.entry "y" "1"])]

/-- **A copy can differ, and other keys may go unnoticed.** A line that is no entry is not found in its
own copy. And of two sections of one name only the second is looked at, so that `k.x` is missed. -/
theorem setValues_copy_differs :
    (setValues (.ofNodes [.simple "a"]) (.ofNodes [.simple "a"]) []).2 = true ∧
    ((nested "k" "y").setValues twice []).2 = false ∧
    twice.HasKey false "k" ["x"] ∧ ¬(nested "k" "y").HasKey false "k" ["x"] := by
  refine ⟨by cbv, by cbv, ?_, ?_⟩
  · exact ⟨_, .head _, by cbv, _, .head _, by cbv, rfl⟩
  · rintro ⟨n, hn, _, m, hm, hname, _⟩
    cases List.mem_singleton.1 hn
    cases List.mem_singleton.1 hm
    have hy : Node.name? (.leaf { key := some "y", level := 1 } (.entry "1")) = some "y" := by cbv
    exact absurd (hy.symm.trans hname) (by decide)

end Section

end ScriptStore.Config
