import ScriptStore.Proofs.Variables.Refinement

/-!
# Trees that hold the same are the same

A tree into which values were only put has no list without elements (`Full`). In such a tree every
segment leads to a value, so that two of them that hold the same values are equal, and maps of
variables with the same values answer alike, for single variables as for lists.
-/

namespace ScriptStore.Variables

/-- Whether the elements of every list in a variable are in order, and every list has some. -/
def Variable.Full (v : Variable) : Prop := v.EachList fun _ cs => Children.Sorted cs ∧ cs ≠ []

namespace Children

/-- Whether the elements are in order, and all of them are full. -/
structure Full (cs : Children) : Prop where
  sorted : Sorted cs
  below : EachList (fun _ inner => Sorted inner ∧ inner ≠ []) cs

theorem Full.nil : Full [] := ⟨List.Pairwise.nil, trivial⟩

theorem Full.child {cs : Children} (h : Full cs) {s : String} {v : Variable}
    (hv : find? cs s = some v) : v.Full :=
  eachList_iff.1 h.below _ (mem_of_find? hv)

theorem Full.put {cs : Children} (h : Full cs) (s : String) {v : Variable} (hv : v.Full) :
    Full (put s v cs) := by
  refine ⟨h.sorted.put s v, eachList_iff.2 fun c hc => ?_⟩
  rcases mem_put hc with rfl | hc
  · exact hv
  · exact eachList_iff.1 h.below c hc

theorem set_ne_nil {path : List String} (hpath : path ≠ []) (v : Value) (cs : Children) :
    set path (some v) cs ≠ [] := by
  intro hnil
  have hset := valueAt?_set none hpath (some v) cs path
  rw [hnil, Variable.valueAt?_empty, if_pos rfl] at hset
  cases hset

theorem Full.putList {cs inner : Children} (h : Full cs) (s : String) (own : Option Value)
    (hinner : Full inner) (hne : inner ≠ []) : Full (putList s own inner cs) := by
  have huse : (own.isNone && inner.isEmpty) = false := by
    rw [List.isEmpty_eq_false_iff.2 hne, Bool.and_false]
  rw [Children.putList, huse, if_neg Bool.false_ne_true]
  exact h.put s ⟨⟨hinner.sorted, hne⟩, hinner.below⟩

/-- Putting a value somewhere leaves no list without elements. -/
theorem Full.set {cs : Children} (h : Full cs) {path : List String} (hpath : path ≠ []) (v : Value) :
    Full (set path (some v) cs) := by
  induction path generalizing cs with
  | nil => exact absurd rfl hpath
  | cons s path ih =>
    -- a list that is there already has elements, and keeps them
    have hinner : ∀ {own : Option Value} {inner : Children},
        find? cs s = some (.list own inner) → Full inner ∧ inner ≠ [] := fun hfind =>
      ⟨⟨(h.child hfind).1.1, (h.child hfind).2⟩, (h.child hfind).1.2⟩
    cases path with
    | nil =>
      cases hfind : find? cs s with
      | none =>
        simp only [Children.set, hfind]
        exact h.put s trivial
      | some child =>
        cases child with
        | value x =>
          simp only [Children.set, hfind]
          exact h.put s trivial
        | list own inner =>
          simp only [Children.set, hfind]
          exact h.putList s _ (hinner hfind).1 (hinner hfind).2
    | cons t path =>
      have hne : t :: path ≠ [] := List.cons_ne_nil t path
      rcases set_cons_cons s t path (some v) cs with heq | ⟨_, hnone, _⟩
      · rw [heq]
        refine h.putList s _ (ih ?_ hne) (set_ne_nil hne v _)
        rw [innerOf]
        cases hfind : find? cs s with
        | none => exact .nil
        | some child =>
          cases child with
          | value x => exact .nil
          | list own inner => exact (hinner hfind).1
      · cases hnone

end Children

/-! ## Equality -/

/-- A full variable holds a value. -/
theorem Variable.Full.holds {v : Variable} (h : v.Full) : ∃ path x, v.valueAt? path = some x :=
  Variable.exists_value (h.mono fun _ _ hcs => .inr hcs.2)

theorem Children.holds_of_full (cs : Children) (hne : cs ≠ [])
    (h : EachList (fun _ inner => Sorted inner ∧ inner ≠ []) cs) :
    ∃ s c, find? cs s = some c ∧ ∃ path x, c.valueAt? path = some x :=
  exists_value cs hne (h.mono fun _ _ hcs => .inr hcs.2)

/-- Elements in order are determined by what their segments lead to. -/
theorem Children.Sorted.ext {cs ds : Children} (hcs : Sorted cs) (hds : Sorted ds)
    (h : ∀ s, find? cs s = find? ds s) : cs = ds := by
  have hmem : ∀ c, c ∈ cs ↔ c ∈ ds := by
    intro c
    rw [← hcs.find?_eq_some_iff, h, hds.find?_eq_some_iff]
  have hnodup : ∀ {cs : Children}, Sorted cs → cs.Nodup := fun hsorted =>
    hsorted.imp fun {c d} hlt heq => by
      have hself : compareSegments d.1 d.1 = .eq := Std.ReflCmp.compare_self
      rw [heq, hself] at hlt
      cases hlt
  refine List.Perm.eq_of_pairwise (fun c d _ _ hcd hdc => ?_) hcs hds
    ((List.perm_ext_iff_of_nodup (hnodup hcs) (hnodup hds)).2 hmem)
  rw [Std.OrientedCmp.gt_of_lt hcd] at hdc
  cases hdc

/-- Where one of two trees that hold the same has a full element, the other has one too. -/
theorem Children.find?_isSome_of_holds {cs ds : Children} {own own' : Option Value}
    (h : ∀ path, (Variable.list own cs).valueAt? path = (Variable.list own' ds).valueAt? path)
    {s : String} {c : Variable} (hc : find? cs s = some c) (hfull : c.Full) :
    ∃ d, find? ds s = some d ∧ ∀ path, c.valueAt? path = d.valueAt? path := by
  obtain ⟨path, x, hx⟩ := hfull.holds
  have hpath := h (s :: path)
  rw [Variable.valueAt?_list_cons, hc, Option.bind_some, hx, Variable.valueAt?_list_cons] at hpath
  obtain ⟨d, hd, _⟩ := Option.bind_eq_some_iff.1 hpath.symm
  refine ⟨d, hd, fun p => ?_⟩
  have hp := h (s :: p)
  rwa [Variable.valueAt?_list_cons, hc, Variable.valueAt?_list_cons, hd] at hp

/-- Trees are equal if elements of theirs that hold the same are. -/
theorem Children.ext_of_each {cs ds : Children} (hcs : Full cs) (hds : Full ds)
    (h : ∀ path, (Variable.list none cs).valueAt? path = (Variable.list none ds).valueAt? path)
    (heach : ∀ c ∈ cs, ∀ d : Variable, d.Full → (∀ path, c.2.valueAt? path = d.valueAt? path) →
      c.2 = d) : cs = ds := by
  refine hcs.sorted.ext hds.sorted fun s => ?_
  cases hc : find? cs s with
  | some c =>
    obtain ⟨d, hd, hsame⟩ := find?_isSome_of_holds h hc (hcs.child hc)
    have heq : c = d := heach (s, c) (mem_of_find? hc) d (hds.child hd) hsame
    rw [hd, heq]
  | none =>
    cases hd : find? ds s with
    | none => rfl
    | some d =>
      obtain ⟨c, hc', _⟩ := find?_isSome_of_holds (fun path => (h path).symm) hd (hds.child hd)
      rw [hc] at hc'
      cases hc'

mutual

theorem Variable.Full.ext : ∀ {v : Variable}, v.Full → ∀ (w : Variable), w.Full →
    (∀ path, v.valueAt? path = w.valueAt? path) → v = w
  | .value x, _, .value y, _, h => congrArg Variable.value (Option.some.inj (h []))
  | .value x, _, .list own ds, hw, h => by
      obtain ⟨s, d, hd, path, y, hy⟩ := Children.holds_of_full ds hw.1.2 hw.2
      have hpath := h (s :: path)
      rw [Variable.valueAt?_list_cons, hd, Option.bind_some, hy] at hpath
      cases hpath
  | .list own cs, hv, .value y, _, h => by
      obtain ⟨s, c, hc, path, x, hx⟩ := Children.holds_of_full cs hv.1.2 hv.2
      have hpath := h (s :: path)
      rw [Variable.valueAt?_list_cons, hc, Option.bind_some, hx] at hpath
      cases hpath
  | .list own cs, hv, .list own' ds, hw, h => by
      have hown : own = own' := h []
      have hcs : cs = ds := by
        refine Children.ext_of_each ⟨hv.1.1, hv.2⟩ ⟨hw.1.1, hw.2⟩ (fun path => ?_)
          (Children.ext_each cs hv.2)
        rw [Children.valueAt?_own own none cs, Children.valueAt?_own own' none ds, h]
      rw [hown, hcs]

theorem Children.ext_each : ∀ (cs : List (String × Variable)),
    Children.EachList (fun _ inner => Children.Sorted inner ∧ inner ≠ []) cs →
    ∀ c ∈ cs, ∀ d : Variable, d.Full → (∀ path, c.2.valueAt? path = d.valueAt? path) → c.2 = d
  | (_, _) :: _, h, _, .head _ => Variable.Full.ext h.1
  | _ :: rest, h, c, .tail _ hc => Children.ext_each rest h.2 c hc

end

/-- **Full trees that hold the same are equal.** -/
theorem Children.Full.ext {cs ds : Children} (hcs : Full cs) (hds : Full ds)
    (h : ∀ path, (Variable.list none cs).valueAt? path = (Variable.list none ds).valueAt? path) :
    cs = ds :=
  ext_of_each hcs hds h (ext_each cs hcs.below)

end ScriptStore.Variables

namespace ScriptStore.VariableMap

open Variables

/-- The map when variables have been set one after the other. -/
def setAll (m : VariableMap) (l : List (String × Value)) : VariableMap :=
  l.foldl (fun m e => (m.set e.1 (some e.2)).value) m

/-- Setting a list to a value does nothing. -/
theorem value_set_some (m : VariableMap) (name : String) (v : Value) :
    (m.set name (some v)).value = if isList name then m else m.setSingle name (some v) := by
  unfold set
  split <;> rfl

/-- What a map holds after variables were set is what they say, if no two have the same name. -/
theorem Reads.setAll {m : VariableMap} {f : String → Option Value} (h : Reads m f)
    {l : List (String × Value)} (hkeys : (l.map (·.1)).Nodup) :
    Reads (m.setAll l) fun n => if isList n then f n else (Dict.lookup n l).or (f n) := by
  induction l generalizing m f with
  | nil => simpa [VariableMap.setAll, Dict.lookup] using h
  | cons e l ih =>
    obtain ⟨name, v⟩ := e
    obtain ⟨hname, hkeys⟩ := List.nodup_cons.1 hkeys
    rw [VariableMap.setAll, List.foldl_cons, ← VariableMap.setAll, value_set_some]
    split
    · next hlist =>
      convert ih h hkeys using 2 with n
      by_cases hn : n = name
      · rw [hn, if_pos hlist, if_pos hlist]
      · rw [Dict.lookup, if_neg (Ne.symm hn)]
    · next hlist =>
      convert ih (h.setSingle name (some v)) hkeys using 2 with n
      by_cases hn : n = name
      · subst hn
        rw [Dict.lookup, if_pos rfl, Dict.lookup_eq_none hname, if_neg hlist, if_neg hlist,
          if_pos rfl]
        rfl
      · rw [Dict.lookup, if_neg (Ne.symm hn), if_neg hn]

theorem full_setAll {m : VariableMap} (h : Children.Full m.tree) (l : List (String × Value)) :
    Children.Full (m.setAll l).tree := by
  induction l generalizing m with
  | nil => exact h
  | cons e l ih =>
    rw [setAll, List.foldl_cons, ← setAll]
    refine ih ?_
    rw [value_set_some]
    split
    · exact h
    · exact h.set (segments_ne_nil e.1) e.2

/-- **Full maps with the same values answer alike.** -/
theorem Reads.get?_eq {m m' : VariableMap} {f : String → Option Value} (h : Reads m f)
    (h' : Reads m' f) (hfull : Children.Full m.tree) (hfull' : Children.Full m'.tree)
    (name : String) : m'.get? name = m.get? name := by
  have htree : m'.tree = m.tree := by
    refine hfull'.ext hfull fun path => ?_
    by_cases hpath : ∃ n, path = segments n
    · obtain ⟨n, rfl⟩ := hpath
      rw [h'.tree, h.tree]
    · have hnone : ∀ {m : VariableMap}, Reads m f →
          (Variable.list none m.tree).valueAt? path = none := fun hm =>
        Option.eq_none_iff_forall_ne_some.2 fun x hx => hpath (hm.named path x hx)
      rw [hnone h', hnone h]
  rw [VariableMap.get?, VariableMap.get?, htree, h'.flat, h.flat]

end ScriptStore.VariableMap
