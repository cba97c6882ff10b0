import ScriptStore.Proofs.Variables.Tree

/-!
# The entries of the tree

The elements of every list stand in the strict order of their segments, and no list is without
both a value and elements; setting and deleting keep both. In such a tree the entries are the paths
that hold a value, each once, the path of a list before those that go on after it.
-/

namespace ScriptStore.Variables

/-! ## Properties of all lists in a tree -/

mutual

/-- Whether every list in a variable satisfies `P`. -/
def Variable.EachList (P : Option Value → Children → Prop) : Variable → Prop
  | .value _ => True
  | .list own cs => P own cs ∧ Children.EachList P cs

/-- Whether every list in the elements of a list satisfies `P`. -/
def Children.EachList (P : Option Value → Children → Prop) : List (String × Variable) → Prop
  | [] => True
  | (_, v) :: rest => v.EachList P ∧ Children.EachList P rest

end

section

variable {P Q : Option Value → Children → Prop}

mutual

theorem Variable.EachList.mono (hPQ : ∀ own cs, P own cs → Q own cs) :
    ∀ {v : Variable}, v.EachList P → v.EachList Q
  | .value _, _ => trivial
  | .list own cs, h => ⟨hPQ own cs h.1, Children.EachList.mono hPQ h.2⟩

theorem Children.EachList.mono (hPQ : ∀ own cs, P own cs → Q own cs) :
    ∀ {cs : List (String × Variable)}, Children.EachList P cs → Children.EachList Q cs
  | [], _ => trivial
  | _ :: _, h => ⟨h.1.mono hPQ, Children.EachList.mono hPQ h.2⟩

end

theorem Children.eachList_iff {cs : Children} :
    EachList P cs ↔ ∀ c ∈ cs, c.2.EachList P := by
  induction cs with
  | nil => simp [EachList]
  | cons c rest ih => simp [EachList, ih]

end

namespace Children

/-- Whether the elements stand in the order of their segments. -/
def Sorted (cs : Children) : Prop := cs.Pairwise fun a b => compareSegments a.1 b.1 = .lt

/-- Whether the elements of all lists are in order, and all lists below are of use. -/
structure Tidy (cs : Children) : Prop where
  sorted : Sorted cs
  below : EachList (fun own inner => Sorted inner ∧ (own.isSome ∨ inner ≠ [])) cs

theorem mem_of_find? {cs : Children} {s : String} {v : Variable} (h : find? cs s = some v) :
    (s, v) ∈ cs := by
  induction cs with
  | nil => simp at h
  | cons c rest ih =>
    rw [find?_cons] at h
    split at h
    · next hs =>
      cases h
      rw [hs]
      exact .head _
    · exact .tail _ (ih h)

theorem Sorted.find?_eq_some_iff {cs : Children} (h : Sorted cs) {s : String} {v : Variable} :
    find? cs s = some v ↔ (s, v) ∈ cs := by
  refine ⟨mem_of_find?, fun hmem => ?_⟩
  induction cs with
  | nil => simp at hmem
  | cons c rest ih =>
    obtain ⟨hc, hrest⟩ := List.pairwise_cons.1 h
    rw [find?_cons]
    rcases List.mem_cons.1 hmem with rfl | hmem
    · simp
    · have hne : s ≠ c.1 := by
        rintro rfl
        exact absurd (hc _ hmem) (by simp [Std.ReflCmp.compare_self])
      rw [if_neg hne, ih hrest hmem]

theorem mem_put {s : String} {v : Variable} {cs : Children} {c : String × Variable}
    (h : c ∈ put s v cs) : c = (s, v) ∨ c ∈ cs := by
  induction cs with
  | nil => simpa [put] using h
  | cons d rest ih =>
    rw [put] at h
    split at h
    · exact (List.mem_cons.1 h).imp_right (.tail _)
    · split at h
      · exact List.mem_cons.1 h
      · rcases List.mem_cons.1 h with rfl | h
        · exact .inr (.head _)
        · exact (ih h).imp_right (.tail _)

theorem Sorted.put {cs : Children} (h : Sorted cs) (s : String) (v : Variable) :
    Sorted (put s v cs) := by
  induction cs with
  | nil => exact List.pairwise_singleton _ _
  | cons c rest ih =>
    obtain ⟨hc, hrest⟩ := List.pairwise_cons.1 h
    rw [Children.put]
    split
    · next hs => exact List.pairwise_cons.2 ⟨fun d hd => hs ▸ hc d hd, hrest⟩
    · next hs =>
      split
      · next hlt =>
        refine List.pairwise_cons.2 ⟨fun d hd => ?_, h⟩
        rcases List.mem_cons.1 hd with rfl | hd
        · exact hlt
        · exact Std.TransCmp.lt_trans hlt (hc d hd)
      · next hlt =>
        -- neither equal nor before: the new element comes somewhere behind
        have hgt : compareSegments c.1 s = .lt := by
          apply Std.OrientedCmp.lt_of_gt
          cases hcmp : compareSegments s c.1 with
          | lt => exact absurd hcmp hlt
          | eq => exact absurd (Std.LawfulEqCmp.eq_of_compare hcmp).symm hs
          | gt => rfl
        refine List.pairwise_cons.2 ⟨fun d hd => ?_, ih hrest⟩
        rcases mem_put hd with rfl | hd
        · exact hgt
        · exact hc d hd

theorem Sorted.erase {cs : Children} (h : Sorted cs) (s : String) : Sorted (erase s cs) :=
  List.Pairwise.filter _ h

namespace Tidy

theorem nil : Tidy [] := ⟨List.Pairwise.nil, trivial⟩

theorem put {cs : Children} (h : Tidy cs) (s : String) {v : Variable}
    (hv : v.EachList fun own inner => Sorted inner ∧ (own.isSome ∨ inner ≠ [])) :
    Tidy (put s v cs) := by
  refine ⟨h.sorted.put s v, eachList_iff.2 fun c hc => ?_⟩
  rcases mem_put hc with rfl | hc
  · exact hv
  · exact eachList_iff.1 h.below c hc

theorem erase {cs : Children} (h : Tidy cs) (s : String) : Tidy (erase s cs) :=
  ⟨h.sorted.erase s, eachList_iff.2 fun c hc =>
    eachList_iff.1 h.below c (List.mem_filter.1 hc).1⟩

theorem putList {cs inner : Children} (h : Tidy cs) (s : String) (own : Option Value)
    (hinner : Tidy inner) : Tidy (putList s own inner cs) := by
  rw [Children.putList]
  split
  · exact h.erase s
  · next huse =>
    refine h.put s ⟨⟨hinner.sorted, ?_⟩, hinner.below⟩
    cases own <;> simp_all

theorem innerOf {cs : Children} (h : Tidy cs) (s : String) : Tidy (innerOf cs s) := by
  rw [Children.innerOf]
  cases hfind : find? cs s with
  | none => exact nil
  | some child =>
    have hchild := eachList_iff.1 h.below _ (mem_of_find? hfind)
    cases child with
    | value x => exact nil
    | list own inner => exact ⟨hchild.1.1, hchild.2⟩

theorem set {cs : Children} (h : Tidy cs) (path : List String) (v : Option Value) :
    Tidy (set path v cs) := by
  induction path generalizing cs with
  | nil => exact h
  | cons s path ih =>
    cases path with
    | nil =>
      rcases set_one s v cs with heq | ⟨_, x, _, heq⟩
      · exact heq ▸ h.putList s v (h.innerOf s)
      · exact heq ▸ h.put s trivial
    | cons t path =>
      rcases set_cons_cons s t path v cs with heq | ⟨_, _, heq⟩
      · exact heq ▸ h.putList s _ (ih (h.innerOf s))
      · exact heq.symm ▸ h

theorem deleteList {cs : Children} (h : Tidy cs) (path : List String) (front : String) :
    Tidy (deleteList path front cs).2 := by
  induction path generalizing cs front with
  | nil => exact nil
  | cons s path ih =>
    rcases (deleteList_cons s path front cs).2 with heq | ⟨_, heq⟩ | ⟨_, x, _, heq⟩
    · exact heq ▸ h.putList s _ (ih (h.innerOf s) _)
    · exact heq.symm ▸ h
    · exact heq ▸ h.put s trivial

theorem ofBelow {cs : Children} (h : Tidy cs) (path : List String) :
    Tidy (Children.below path cs) := by
  induction path generalizing cs with
  | nil => exact h
  | cons s path ih => exact ih (h.innerOf s)

end Tidy

end Children

mutual

/-- If every list is of use, there is a value somewhere. -/
theorem Variable.exists_value : ∀ {v : Variable},
    v.EachList (fun own cs => own.isSome ∨ cs ≠ []) → ∃ path x, v.valueAt? path = some x
  | .value x, _ => ⟨[], x, rfl⟩
  | .list (some x) cs, _ => ⟨[], x, rfl⟩
  | .list none cs, h => by
      obtain ⟨s, c, hc, path, x, hx⟩ := Children.exists_value cs (h.1.resolve_left (by simp)) h.2
      exact ⟨s :: path, x, by rw [Variable.valueAt?_list_cons, hc, Option.bind_some, hx]⟩

theorem Children.exists_value : ∀ (cs : List (String × Variable)), cs ≠ [] →
    Children.EachList (fun own inner => own.isSome ∨ inner ≠ []) cs →
    ∃ s c, Children.find? cs s = some c ∧ ∃ path x, c.valueAt? path = some x
  | [], hne, _ => absurd rfl hne
  | (s, c) :: rest, _, h => by
      obtain ⟨path, x, hx⟩ := Variable.exists_value h.1
      exact ⟨s, c, by rw [Children.find?_cons, if_pos rfl], path, x, hx⟩

end

/-! ## Entries by their paths -/

mutual

/-- The values in a variable with the paths that lead to them. -/
def Variable.located : Variable → List (List String × Value)
  | .value v => [([], v)]
  | .list own cs => own.toList.map ([], ·) ++ Children.located cs

/-- The values in the elements of a list with the paths that lead to them. -/
def Children.located : List (String × Variable) → List (List String × Value)
  | [] => []
  | (segment, v) :: rest =>
    v.located.map (fun e => (segment :: e.1, e.2)) ++ Children.located rest

end

mutual

theorem Variable.entries_eq (name : String) :
    ∀ v : Variable, v.entries name = v.located.map fun e => (e.1.foldl childName name, e.2)
  | .value v => rfl
  | .list own cs => by
      rw [Variable.entries, Variable.located, Children.entries_eq name cs, List.map_append,
        List.map_map]
      rfl

/-- The entries are the paths, put together to names. -/
theorem Children.entries_eq (front : String) :
    ∀ cs : List (String × Variable), Children.entries front cs
      = (Children.located cs).map fun e => (e.1.foldl childName front, e.2)
  | [] => rfl
  | (s, v) :: rest => by
      rw [Children.entries, Children.located, Variable.entries_eq _ v,
        Children.entries_eq front rest, List.map_append, List.map_map]
      rfl

end

namespace Children

theorem mem_located {cs : Children} {path : List String} {x : Value} :
    (path, x) ∈ located cs ↔ ∃ c ∈ cs, ∃ rest, (rest, x) ∈ c.2.located ∧ path = c.1 :: rest := by
  induction cs with
  | nil => simp [located]
  | cons c cs ih =>
    obtain ⟨s, v⟩ := c
    rw [located, List.mem_append, ih]
    constructor
    · rintro (h | ⟨c, hc, h⟩)
      · obtain ⟨⟨rest, y⟩, hrest, heq⟩ := List.mem_map.1 h
        cases heq
        exact ⟨(s, v), .head _, rest, hrest, rfl⟩
      · exact ⟨c, .tail _ hc, h⟩
    · rintro ⟨c, hc, rest, hrest, rfl⟩
      rcases List.mem_cons.1 hc with rfl | hc
      · exact .inl (List.mem_map.2 ⟨(rest, x), hrest, rfl⟩)
      · exact .inr ⟨c, hc, rest, hrest, rfl⟩

end Children

/-- Whether the elements of every list in a variable are in order. -/
def Variable.InOrder (v : Variable) : Prop := v.EachList fun _ cs => Children.Sorted cs

/-- Whether the elements of every list below the elements of a list are in order. -/
def Children.InOrder (cs : Children) : Prop := EachList (fun _ inner => Sorted inner) cs

mutual

/-- **A variable lists exactly the values that paths lead to.** -/
theorem Variable.mem_located_iff : ∀ (v : Variable), v.InOrder → ∀ (path : List String) (x : Value),
    (path, x) ∈ v.located ↔ v.valueAt? path = some x
  | .value y, _, path, x => by
      cases path <;> simp [Variable.located, Variable.own?, eq_comm]
  | .list own cs, h, [], x => by
      simp [Variable.located, Children.mem_located, Variable.own?]
  | .list own cs, h, s :: rest, x => by
      rw [Variable.located, List.mem_append, Children.mem_located, Variable.valueAt?_list_cons,
        Option.bind_eq_some_iff]
      constructor
      · rintro (hown | ⟨c, hc, p, hp, heq⟩)
        · simp at hown
        · cases heq
          exact ⟨c.2, h.1.find?_eq_some_iff.2 hc,
            (Children.mem_located_each cs h.2 c hc rest x).1 hp⟩
      · rintro ⟨child, hfind, hx⟩
        have hc := Children.mem_of_find? hfind
        exact .inr ⟨(s, child), hc, rest,
          (Children.mem_located_each cs h.2 _ hc rest x).2 hx, rfl⟩

theorem Children.mem_located_each : ∀ (cs : List (String × Variable)), Children.InOrder cs →
    ∀ c ∈ cs, ∀ (path : List String) (x : Value),
      (path, x) ∈ c.2.located ↔ c.2.valueAt? path = some x
  | (_, v) :: _, h, _, .head _ => Variable.mem_located_iff v h.1
  | _ :: rest, h, c, .tail _ hc => Children.mem_located_each rest h.2 c hc

end

/-- The order of a listing: by paths, where a path comes before those that go on after it. -/
def Ascending (l : List (List String × Value)) : Prop :=
  l.Pairwise fun a b => a.1.compareLex compareSegments b.1 = .lt

mutual

theorem Variable.ascending_located : ∀ (v : Variable), v.InOrder → Ascending v.located
  | .value x, _ => List.pairwise_singleton _ _
  | .list own cs, h => by
      refine List.pairwise_append.2
        ⟨?_, Children.ascending_located cs h.1 h.2, fun a ha b hb => ?_⟩
      · cases own <;> simp
      · -- the own value of a list has the path that all others go on after
        obtain ⟨x, _, rfl⟩ := List.mem_map.1 ha
        obtain ⟨c, _, rest, _, hpath⟩ := Children.mem_located.1 hb
        rw [hpath]
        rfl

theorem Children.ascending_located : ∀ (cs : List (String × Variable)), Children.Sorted cs →
    Children.InOrder cs → Ascending (Children.located cs)
  | [], _, _ => List.Pairwise.nil
  | (s, v) :: rest, hsorted, h => by
      obtain ⟨hs, hrest⟩ := List.pairwise_cons.1 hsorted
      have hself : compareSegments s s = .eq := Std.ReflCmp.compare_self
      refine List.pairwise_append.2
        ⟨List.pairwise_map.2 ((Variable.ascending_located v h.1).imp fun {a b} hab => ?_),
          Children.ascending_located rest hrest h.2, fun a ha b hb => ?_⟩
      · rw [List.compareLex_cons_cons, hself, Ordering.eq_then, hab]
      · obtain ⟨e, _, rfl⟩ := List.mem_map.1 ha
        obtain ⟨c, hc, p, _, hpath⟩ := Children.mem_located.1 hb
        rw [hpath, List.compareLex_cons_cons, hs c hc, Ordering.lt_then]

end

namespace Children.Tidy

theorem inOrder {cs : Children} (h : Tidy cs) : InOrder cs := h.below.mono fun _ _ => And.left

theorem mem_located {cs : Children} (h : Tidy cs) {path : List String} {x : Value} :
    (path, x) ∈ located cs ↔ (Variable.list none cs).valueAt? path = some x := by
  rw [← Variable.mem_located_iff (.list none cs) ⟨h.sorted, h.inOrder⟩]
  simp [Variable.located]

theorem ascending {cs : Children} (h : Tidy cs) : Ascending (located cs) :=
  ascending_located cs h.sorted h.inOrder

end Children.Tidy

end ScriptStore.Variables
