import ScriptStore.Proofs.Dict
import ScriptStore.Proofs.Variables.Listing
import ScriptStore.Variables.Map

/-!
# A map of variables is a plain map

Over any history of changes to names whose first segment is not empty, the tree and the flat
dictionary of a map of variables stay two views of one plain map from names to values. The invariant
`Agrees` relates both to that map; each change carries it from one plain map to the next. The part of
it that has no need of such names is `Reads`.
-/

namespace ScriptStore.VariableMap

open Variables

/-! ## Changes -/

inductive Change where
  | set (name : String) (v : Option Value)
  | removeList (name : String)
  | clear

/-- The map after a change. -/
def change (m : VariableMap) : Change → VariableMap
  | .set name v => (m.set name v).value
  | .removeList name => (m.removeList name).2
  | .clear => {}

/-- The map after a history of changes. -/
def ofChanges (changes : List Change) : VariableMap := changes.foldl change {}

/-- Whether the names in a change are fit for it: their first segment is not empty, and only lists
are removed as such. -/
def Change.Proper : Change → Prop
  | .set name _ => (segments name).head? ≠ some ""
  | .removeList name => isList name ∧ (segments name).head? ≠ some ""
  | .clear => True

instance : DecidablePred Change.Proper
  | .set name _ => inferInstanceAs (Decidable ((segments name).head? ≠ some ""))
  | .removeList name => inferInstanceAs (Decidable (isList name ∧ (segments name).head? ≠ some ""))
  | .clear => inferInstanceAs (Decidable True)

/-- A plain map without the elements of a list. -/
def without (list : String) (f : String → Option Value) (n : String) : Option Value :=
  if Extends (listPath list) (segments n) then none else f n

/-- What a change means for a plain map from names to values. -/
def Change.effect (f : String → Option Value) : Change → String → Option Value
  | .set name v =>
    match isList name, v with
    | false, v => fun n => if n = name then v else f n
    | true, none => without name f
    | true, some _ => f
  | .removeList name => without name f
  | .clear => fun _ => none

/-- What a history of changes leaves of the empty plain map. -/
def effect (changes : List Change) : String → Option Value :=
  changes.foldl Change.effect fun _ => none

theorem Change.effect_set {name : String} (h : isList name = false) (v : Option Value)
    (f : String → Option Value) (n : String) :
    Change.effect f (.set name v) n = if n = name then v else f n := by
  -- by its definition, for the equations of `effect`, one for each kind of name, are slow to prove
  unfold Change.effect
  simp only [h]

/-! ## The invariant -/

/-- The tree and the dictionary hold what a plain map `f` does. -/
structure Reads (m : VariableMap) (f : String → Option Value) : Prop where
  flat : ∀ n, m.value? n = f n
  tree : ∀ n, (Variable.list none m.tree).valueAt? (segments n) = f n
  /-- Only the paths of names hold values. -/
  named : ∀ path x, (Variable.list none m.tree).valueAt? path = some x → ∃ n, path = segments n
  keys : m.flat.keys.Nodup
  tidy : Children.Tidy m.tree

/-- They do, and the names of all variables can be made from their segments again. -/
structure Agrees (m : VariableMap) (f : String → Option Value) : Prop extends Reads m f where
  proper : ∀ n x, f n = some x → (segments n).head? ≠ some ""

theorem Reads.empty : Reads {} fun _ => none where
  flat _ := rfl
  tree n := Variable.valueAt?_empty _
  named path x h := by simp at h
  keys := List.nodup_nil
  tidy := .nil

theorem Reads.setSingle {m : VariableMap} {f : String → Option Value} (h : Reads m f)
    (name : String) (v : Option Value) :
    Reads (m.setSingle name v) fun n => if n = name then v else f n where
  flat n := by
    simp only [VariableMap.setSingle, VariableMap.value?]
    cases v with
    | none =>
      simp only [Dict.get?_erase, eq_comm]
      rw [← h.flat]
      rfl
    | some x =>
      simp only [Dict.get?_insert, eq_comm]
      rw [← h.flat]
      rfl
  tree n := by
    simp only [VariableMap.setSingle]
    rw [Children.valueAt?_set none (segments_ne_nil name), h.tree]
    simp only [show segments n = segments name ↔ n = name from ⟨segments_inj, congrArg segments⟩]
  named path x hx := by
    simp only [VariableMap.setSingle] at hx
    rw [Children.valueAt?_set none (segments_ne_nil name)] at hx
    split at hx
    · next hp => exact ⟨name, hp⟩
    · exact h.named path x hx
  keys := by
    cases v with
    | none => exact Dict.nodup_keys_erase h.keys name
    | some x => exact Dict.nodup_keys_insert h.keys name x
  tidy := h.tidy.set (segments name) v

theorem Agrees.empty : Agrees {} fun _ => none := ⟨.empty, nofun⟩

theorem Agrees.setSingle {m : VariableMap} {f : String → Option Value} (h : Agrees m f)
    {name : String} (hname : (segments name).head? ≠ some "") (v : Option Value) :
    Agrees (m.setSingle name v) fun n => if n = name then v else f n := by
  refine ⟨h.toReads.setSingle name v, fun n x hx => ?_⟩
  split at hx
  · next hn => exact hn ▸ hname
  · exact h.proper n x hx

/-! ## Listing -/

/-- The path of a listed value is that of the name it is listed under. -/
theorem Agrees.segments_name {m : VariableMap} {f : String → Option Value} (h : Agrees m f)
    {path : List String} {x : Value} (hx : (Variable.list none m.tree).valueAt? path = some x) :
    segments (path.foldl childName "") = path ∧ f (path.foldl childName "") = some x := by
  obtain ⟨n, rfl⟩ := h.named path x hx
  rw [h.tree] at hx
  rw [foldl_childName_segments (h.proper n x hx), hx]
  exact ⟨rfl, rfl⟩

theorem Agrees.foldl_childName {m : VariableMap} {f : String → Option Value} (h : Agrees m f)
    {n : String} {x : Value} (hn : f n = some x) : (segments n).foldl childName "" = n :=
  foldl_childName_segments (h.proper n x hn)

theorem Agrees.mem_entries {m : VariableMap} {f : String → Option Value} (h : Agrees m f)
    {n : String} {x : Value} : (n, x) ∈ m.entries ↔ f n = some x := by
  rw [entries, Children.entries_eq, List.mem_map]
  constructor
  · rintro ⟨⟨path, y⟩, hmem, heq⟩
    cases heq
    exact (h.segments_name (h.tidy.mem_located.1 hmem)).2
  · intro hn
    exact ⟨(segments n, x), h.tidy.mem_located.2 (by rw [h.tree, hn]), by rw [h.foldl_childName hn]⟩

theorem Agrees.ascending_entries {m : VariableMap} {f : String → Option Value} (h : Agrees m f) :
    m.entries.Pairwise fun a b =>
      (segments a.1).compareLex compareSegments (segments b.1) = .lt := by
  rw [entries, Children.entries_eq, List.pairwise_map]
  refine h.tidy.ascending.imp_of_mem fun {a b} ha hb hab => ?_
  rw [(h.segments_name (h.tidy.mem_located.1 ha)).1, (h.segments_name (h.tidy.mem_located.1 hb)).1]
  exact hab

theorem nodup_of_ascending {l : List (String × Value)} (h : l.Pairwise fun a b =>
      (segments a.1).compareLex compareSegments (segments b.1) = .lt) :
    (l.map (·.1)).Nodup := by
  refine List.pairwise_map.2 (h.imp fun {a b} hab heq => ?_)
  rw [heq] at hab
  exact compareLex_self_ne_lt _ hab

/-! ## Deleting a list -/

theorem removeList_of_ne (m : VariableMap) {list : String} (h : list ≠ "::*") :
    m.removeList list =
      ((Children.deleteList (listPath list) "" m.tree).1,
        { tree := (Children.deleteList (listPath list) "" m.tree).2,
          flat := (Children.deleteList (listPath list) "" m.tree).1.foldl Dict.erase m.flat }) := by
  unfold removeList listPath
  dsimp only
  split
  · next hfront => rw [hfront]; rfl
  · next hfront => exact absurd (listFront?_eq_some.1 hfront) h
  · next front _ hfront => rw [hfront]; rfl

theorem removeList_eq (m : VariableMap) {list : String} (h : (segments list).head? ≠ some "") :
    m.removeList list =
      ((Children.deleteList (listPath list) "" m.tree).1,
        { tree := (Children.deleteList (listPath list) "" m.tree).2,
          flat := (Children.deleteList (listPath list) "" m.tree).1.foldl Dict.erase m.flat }) := by
  refine m.removeList_of_ne ?_
  rintro rfl
  exact absurd (by decide) h

theorem removed_eq (path : List String) (cs : Children) :
    (Children.deleteList path "" cs).1
      = (Children.located (Children.below path cs)).map fun e =>
          (path ++ e.1).foldl childName "" := by
  rw [Children.deleteList_names, Children.entries_eq, List.map_map]
  simp [Function.comp_def, List.foldl_append]

theorem mem_located_below {cs : Children} (h : Children.Tidy cs) {path rest : List String}
    {x : Value} : (rest, x) ∈ Children.located (Children.below path cs) ↔
      rest ≠ [] ∧ (Variable.list none cs).valueAt? (path ++ rest) = some x := by
  rw [(h.ofBelow path).mem_located]
  by_cases hrest : rest = []
  · simp [hrest, Variable.own?]
  · rw [Children.valueAt?_below none path cs hrest, and_iff_right hrest]

/-- Removing a list gives the names of the values whose paths go on after that of the list. -/
theorem Agrees.mem_removed {m : VariableMap} {f : String → Option Value} (h : Agrees m f)
    (path : List String) {n : String} :
    n ∈ (Children.deleteList path "" m.tree).1 ↔ f n ≠ none ∧ Extends path (segments n) := by
  rw [removed_eq, List.mem_map]
  constructor
  · rintro ⟨⟨rest, x⟩, hmem, rfl⟩
    obtain ⟨hrest, hx⟩ := (mem_located_below h.tidy).1 hmem
    obtain ⟨hsegments, hf⟩ := h.segments_name hx
    exact ⟨by rw [hf]; exact Option.some_ne_none x, extends_iff.2 ⟨rest, hrest, hsegments⟩⟩
  · rintro ⟨hf, hext⟩
    obtain ⟨x, hx⟩ := Option.ne_none_iff_exists'.1 hf
    obtain ⟨rest, hrest, hsegments⟩ := extends_iff.1 hext
    refine ⟨(rest, x), (mem_located_below h.tidy).2 ⟨hrest, ?_⟩, ?_⟩
    · rw [← hsegments, h.tree, hx]
    · rw [← hsegments, h.foldl_childName hx]

theorem Agrees.nodup_removed {m : VariableMap} {f : String → Option Value} (h : Agrees m f)
    (path : List String) : (Children.deleteList path "" m.tree).1.Nodup := by
  rw [removed_eq]
  refine List.pairwise_map.2 ((h.tidy.ofBelow path).ascending.imp_of_mem fun {a b} ha hb hab heq => ?_)
  have hsegments := congrArg segments heq
  rw [(h.segments_name ((mem_located_below h.tidy).1 ha).2).1,
    (h.segments_name ((mem_located_below h.tidy).1 hb).2).1] at hsegments
  rw [List.append_cancel_left hsegments] at hab
  exact compareLex_self_ne_lt _ hab

/-- Deleting the list at a path, in the tree and then by names in the dictionary. -/
theorem Agrees.deleteList {m : VariableMap} {f : String → Option Value} (h : Agrees m f)
    (path : List String) :
    Agrees
      { tree := (Children.deleteList path "" m.tree).2,
        flat := (Children.deleteList path "" m.tree).1.foldl Dict.erase m.flat }
      fun n => if Extends path (segments n) then none else f n := by
  refine ⟨⟨fun n => ?_, fun n => ?_, fun path' x hx => ?_, ?_, ?_⟩, fun n x hx => ?_⟩
  · rw [value?, Dict.get?_foldl_erase]
    have hflat : m.flat.get? n = f n := h.flat n
    by_cases hn : f n = none
    · simp [hflat, hn]
    · simp [h.mem_removed, hflat, hn]
  · rw [Children.valueAt?_deleteList, h.tree]
  · rw [Children.valueAt?_deleteList, Option.ite_none_left_eq_some] at hx
    exact h.named path' x hx.2
  · exact Dict.nodup_keys_foldl_erase _ h.keys
  · exact h.tidy.deleteList _ _
  · rw [Option.ite_none_left_eq_some] at hx
    exact h.proper n x hx.2

theorem Agrees.removeList {m : VariableMap} {f : String → Option Value} (h : Agrees m f)
    {list : String} (hlist : (segments list).head? ≠ some "") :
    Agrees (m.removeList list).2 (without list f) := by
  rw [removeList_eq m hlist]
  exact h.deleteList (listPath list)

/-! ## Histories -/

theorem Agrees.set {m : VariableMap} {f : String → Option Value} (h : Agrees m f) {name : String}
    (hname : (segments name).head? ≠ some "") (v : Option Value) :
    Agrees (m.set name v).value ((Change.set name v).effect f) := by
  unfold VariableMap.set Change.effect
  dsimp only
  cases isList name with
  | false => exact h.setSingle hname v
  | true =>
    cases v with
    | none => exact h.removeList hname
    | some x => exact h

/-- Whether a change is told by plain names alone: a name that is set has a first segment that is not
empty, and the list `::*`, which would be all variables, is not removed. -/
def Change.Rooted : Change → Prop
  | .set name _ => (segments name).head? ≠ some ""
  | .removeList name => name ≠ "::*"
  | .clear => True

theorem Change.Proper.rooted {c : Change} (h : c.Proper) : c.Rooted := by
  cases c with
  | set name v => exact h
  | removeList list =>
    rintro rfl
    exact absurd (by decide) h.2
  | clear => trivial

theorem Agrees.change {m : VariableMap} {f : String → Option Value} (h : Agrees m f) {c : Change}
    (hc : c.Rooted) : Agrees (m.change c) (c.effect f) := by
  cases c with
  | set name v => exact h.set hc v
  | removeList list =>
    simp only [VariableMap.change]
    rw [m.removeList_of_ne hc]
    exact h.deleteList (listPath list)
  | clear => exact .empty

theorem Agrees.changes_rooted {m : VariableMap} {f : String → Option Value} (h : Agrees m f)
    {changes : List Change} (hchanges : ∀ c ∈ changes, c.Rooted) :
    Agrees (changes.foldl VariableMap.change m) (changes.foldl Change.effect f) := by
  induction changes generalizing m f with
  | nil => exact h
  | cons c changes ih =>
    exact ih (h.change (hchanges c (.head _))) fun d hd => hchanges d (.tail _ hd)

theorem Agrees.changes {m : VariableMap} {f : String → Option Value} (h : Agrees m f)
    {changes : List Change} (hchanges : ∀ c ∈ changes, c.Proper) :
    Agrees (changes.foldl VariableMap.change m) (changes.foldl Change.effect f) :=
  h.changes_rooted fun c hc => (hchanges c hc).rooted

theorem nodup_of_keys {l : List (String × Value)} (h : (l.map (·.1)).Nodup) : l.Nodup :=
  (List.pairwise_map.1 h).imp fun hne heq => hne (congrArg _ heq)

theorem Agrees.length_entries {m : VariableMap} {f : String → Option Value} (h : Agrees m f) :
    m.size = m.entries.length := by
  have hnodup := nodup_of_ascending h.ascending_entries
  have hperm : m.flat.entries.Perm m.entries := by
    refine (List.perm_ext_iff_of_nodup (nodup_of_keys h.keys) (nodup_of_keys hnodup)).2
      fun ⟨n, x⟩ => ?_
    rw [Dict.mem_entries_iff h.keys, h.mem_entries, ← h.flat]
    rfl
  exact hperm.length_eq

/-- **A map of variables is a plain map.** After any history of changes the dictionary and the tree
hold what the plain map does, and removing a list gives the names that it stands for; the entries
are the variables, each once and in the order of the segments, a list's own value before its
elements; and no list without a value and without elements is left. -/
theorem ofChanges_refines {changes : List Change} (hchanges : ∀ c ∈ changes, c.Proper) :
    (∀ n, (ofChanges changes).value? n = effect changes n ∧
      (Variable.list none (ofChanges changes).tree).valueAt? (segments n) = effect changes n) ∧
    (∀ list, isList list → (segments list).head? ≠ some "" →
      ((ofChanges changes).removeList list).1.Nodup ∧
      ∀ n, n ∈ ((ofChanges changes).removeList list).1 ↔
        effect changes n ≠ none ∧ Extends (listPath list) (segments n)) ∧
    ((ofChanges changes).entries.map (·.1)).Nodup ∧
    (∀ n x, (n, x) ∈ (ofChanges changes).entries ↔ (ofChanges changes).value? n = some x) ∧
    ((ofChanges changes).entries.Pairwise fun a b =>
      (segments a.1).compareLex compareSegments (segments b.1) = .lt) ∧
    (ofChanges changes).size = (ofChanges changes).entries.length ∧
    Children.EachList (fun own cs => own.isSome ∨ cs ≠ []) (ofChanges changes).tree := by
  have h : Agrees (ofChanges changes) (effect changes) := Agrees.empty.changes hchanges
  refine ⟨fun n => ⟨h.flat n, h.tree n⟩, fun list _ hlist => ?_,
    nodup_of_ascending h.ascending_entries, fun n x => ?_, h.ascending_entries, h.length_entries,
    h.tidy.below.mono fun _ _ => And.right⟩
  · rw [removeList_eq _ hlist]
    exact ⟨h.nodup_removed _, fun n => h.mem_removed _⟩
  · rw [h.mem_entries, h.flat]

theorem ofChanges_refines_nested :
    (∀ c ∈ [Change.set "home" (some (.boolean true)), .set "home::10" (some (.boolean false)),
      .set "home::9" none], c.Proper) ∧ isList "home::*" ∧ (segments "home::*").head? ≠ some "" ∧
    "home::10" ∈ ((ofChanges [.set "home" (some (.boolean true)),
      .set "home::10" (some (.boolean false)), .set "home::9" none]).removeList "home::*").1 :=
  ⟨by decide, by decide, by decide,
    (((ofChanges_refines (by decide)).2.1 "home::*" (by decide) (by decide)).2 "home::10").2
      ⟨Option.isSome_iff_ne_none.1 (by decide), by decide⟩⟩

end ScriptStore.VariableMap
