import ScriptStore.Proofs.Variables.SegmentOrder
import ScriptStore.Proofs.Variables.Segments

/-!
# What the tree of variables holds

A tree holds a value at some of the paths that lead into it. Setting changes what is held at one
path, and deleting a list what is held at the paths that go on after that of the list, whatever the
shape of the tree. The shape matters for listing: as long as the elements of every list are in
order, the entries of a tree are the paths at which it holds a value, each once and in order.
-/

namespace ScriptStore.Variables

/-! ## Walking down a path -/

/-- The value at a path below a variable. -/
def Variable.valueAt? (v : Variable) : List String → Option Value
  | [] => v.own?
  | segment :: path =>
    v.children?.bind fun cs => (Children.find? cs segment).bind fun child => child.valueAt? path

/-- Whether `path` goes on after `front`. -/
def Extends (front path : List String) : Prop := front <+: path ∧ front.length < path.length

instance (front path : List String) : Decidable (Extends front path) :=
  inferInstanceAs (Decidable (_ ∧ _))

@[simp]
theorem extends_nil_cons (s : String) (path : List String) : Extends [] (s :: path) := by
  simp [Extends]

@[simp]
theorem not_extends_nil (front : List String) : ¬Extends front [] := by
  simp [Extends]

@[simp]
theorem extends_cons_cons {s t : String} {front path : List String} :
    Extends (s :: front) (t :: path) ↔ s = t ∧ Extends front path := by
  simp [Extends, List.cons_prefix_cons, and_assoc]

theorem extends_iff {front path : List String} :
    Extends front path ↔ ∃ rest, rest ≠ [] ∧ path = front ++ rest := by
  constructor
  · rintro ⟨⟨rest, rfl⟩, hlt⟩
    exact ⟨rest, by rintro rfl; simp at hlt, rfl⟩
  · rintro ⟨rest, hne, rfl⟩
    exact ⟨List.prefix_append front rest, by simpa [List.length_pos_iff] using hne⟩

namespace Variable

@[simp]
theorem valueAt?_nil (v : Variable) : v.valueAt? [] = v.own? := rfl

@[simp]
theorem valueAt?_value_cons (x : Value) (s : String) (path : List String) :
    (Variable.value x).valueAt? (s :: path) = none := rfl

theorem valueAt?_list_cons (own : Option Value) (cs : Children) (s : String) (path : List String) :
    (Variable.list own cs).valueAt? (s :: path)
      = (Children.find? cs s).bind fun child => child.valueAt? path := rfl

@[simp]
theorem valueAt?_empty (path : List String) : (Variable.list none []).valueAt? path = none := by
  cases path <;> rfl

end Variable

namespace Children

@[simp]
theorem find?_nil (t : String) : find? [] t = none := rfl

theorem find?_cons (c : String × Variable) (cs : Children) (t : String) :
    find? (c :: cs) t = if t = c.1 then some c.2 else find? cs t := by
  obtain ⟨s, v⟩ := c
  by_cases h : t = s
  · simp [find?, h]
  · simp [find?, List.lookup_cons, h, beq_false_of_ne h]

theorem find?_put (s t : String) (v : Variable) (cs : Children) :
    find? (put s v cs) t = if t = s then some v else find? cs t := by
  induction cs with
  | nil => rw [put, find?_cons]
  | cons c rest ih =>
    rw [put]
    split
    · next hc => by_cases ht : t = s <;> simp [find?_cons, hc, ht]
    · next hc =>
      split
      · rw [find?_cons]
      · rw [find?_cons, ih, find?_cons]
        by_cases ht : t = s
        · subst ht
          simp [Ne.symm hc]
        · simp [ht]

theorem find?_erase (s t : String) (cs : Children) :
    find? (erase s cs) t = if t = s then none else find? cs t := by
  induction cs with
  | nil => simp [erase]
  | cons c rest ih =>
    by_cases hc : c.1 = s
    · rw [erase, List.filter_cons_of_neg (by simpa using hc), ← erase, ih, find?_cons]
      by_cases ht : t = s <;> simp [ht, hc]
    · rw [erase, List.filter_cons_of_pos (by simpa using hc), ← erase, find?_cons, ih, find?_cons]
      by_cases ht : t = s
      · subst ht
        simp [Ne.symm hc]
      · simp [ht]

/-! Replacing the element of a segment is seen on the paths through that segment only. A list that
is of no use holds nothing, so it makes no difference that it is left out. -/

theorem valueAt?_put (own : Option Value) (s t : String) (v : Variable) (cs : Children)
    (path : List String) :
    (Variable.list own (put s v cs)).valueAt? (t :: path)
      = if t = s then v.valueAt? path else (Variable.list own cs).valueAt? (t :: path) := by
  rw [Variable.valueAt?_list_cons, find?_put]
  split <;> rfl

theorem valueAt?_erase (own : Option Value) (s t : String) (cs : Children) (path : List String) :
    (Variable.list own (erase s cs)).valueAt? (t :: path)
      = if t = s then none else (Variable.list own cs).valueAt? (t :: path) := by
  rw [Variable.valueAt?_list_cons, find?_erase]
  split <;> rfl

theorem valueAt?_putList (own o : Option Value) (s t : String) (inner cs : Children)
    (path : List String) :
    (Variable.list own (putList s o inner cs)).valueAt? (t :: path)
      = if t = s then (Variable.list o inner).valueAt? path
        else (Variable.list own cs).valueAt? (t :: path) := by
  rw [putList]
  split
  · next h =>
    simp only [Bool.and_eq_true, Option.isNone_iff_eq_none, List.isEmpty_iff] at h
    rw [valueAt?_erase, h.1, h.2, Variable.valueAt?_empty]
  · rw [valueAt?_put]

/-! ## Setting -/

/-- The value of an element itself. -/
def ownOf (cs : Children) (s : String) : Option Value := (find? cs s).bind Variable.own?

/-- The elements below an element; a single value has none. -/
def innerOf (cs : Children) (s : String) : Children := ((find? cs s).bind Variable.children?).getD []

theorem valueAt?_cons (own : Option Value) (cs : Children) (s : String) (path : List String) :
    (Variable.list own cs).valueAt? (s :: path)
      = (Variable.list (ownOf cs s) (innerOf cs s)).valueAt? path := by
  rw [Variable.valueAt?_list_cons, ownOf, innerOf]
  cases find? cs s with
  | none => simp
  | some child =>
    cases child with
    | value x => cases path <;> rfl
    | list o inner => rfl

/-- A path that leads below an element makes the element a list, unless there is only something to
delete where no list is. -/
theorem set_cons_cons (s t : String) (path : List String) (v : Option Value) (cs : Children) :
    set (s :: t :: path) v cs = putList s (ownOf cs s) (set (t :: path) v (innerOf cs s)) cs ∨
      innerOf cs s = [] ∧ v = none ∧ set (s :: t :: path) v cs = cs := by
  simp only [ownOf, innerOf]
  cases hfind : find? cs s with
  | none => cases v <;> simp [set, hfind]
  | some child =>
    cases child with
    | value x => cases v <;> simp [set, hfind, Variable.own?, Variable.children?]
    | list o inner => simp [set, hfind, Variable.own?, Variable.children?]

/-- A path to an element leaves what is below the element. -/
theorem set_one (s : String) (v : Option Value) (cs : Children) :
    set [s] v cs = putList s v (innerOf cs s) cs ∨
      innerOf cs s = [] ∧ ∃ x, v = some x ∧ set [s] v cs = put s (.value x) cs := by
  simp only [innerOf]
  cases hfind : find? cs s with
  | none => cases v <;> simp [set, hfind, putList]
  | some child =>
    cases child with
    | value x => cases v <;> simp [set, hfind, Variable.children?, putList]
    | list o inner => simp [set, hfind, Variable.children?]

/-- What a list holds below itself does not depend on its own value. -/
theorem valueAt?_own (own v : Option Value) (cs : Children) (path : List String) :
    (Variable.list v cs).valueAt? path
      = if path = [] then v else (Variable.list own cs).valueAt? path := by
  cases path <;> rfl

theorem valueAt?_set_ne (own : Option Value) {s t : String} (ht : t ≠ s) (path : List String)
    (v : Option Value) (cs : Children) (p : List String) :
    (Variable.list own (set (s :: path) v cs)).valueAt? (t :: p)
      = (Variable.list own cs).valueAt? (t :: p) := by
  cases path with
  | nil =>
    rcases set_one s v cs with h | ⟨_, x, _, h⟩
    · rw [h, valueAt?_putList, if_neg ht]
    · rw [h, valueAt?_put, if_neg ht]
  | cons u path =>
    rcases set_cons_cons s u path v cs with h | ⟨_, _, h⟩
    · rw [h, valueAt?_putList, if_neg ht]
    · rw [h]

/-- **Setting changes one path.** -/
theorem valueAt?_set (own : Option Value) {path : List String} (hpath : path ≠ [])
    (v : Option Value) (cs : Children) (p : List String) :
    (Variable.list own (set path v cs)).valueAt? p
      = if p = path then v else (Variable.list own cs).valueAt? p := by
  induction path generalizing own cs p with
  | nil => exact absurd rfl hpath
  | cons s path ih =>
    cases p with
    | nil => simp [Variable.own?]
    | cons t p =>
      by_cases ht : t = s
      · subst ht
        rw [valueAt?_cons own cs]
        simp only [List.cons.injEq, true_and]
        cases path with
        | nil =>
          rcases set_one t v cs with h | ⟨hinner, x, rfl, h⟩
          · rw [h, valueAt?_putList, if_pos rfl, valueAt?_own (ownOf cs t)]
          · rw [h, valueAt?_put, if_pos rfl, hinner]
            cases p <;> rfl
        | cons u path =>
          rcases set_cons_cons t u path v cs with h | ⟨hinner, rfl, h⟩
          · rw [h, valueAt?_putList, if_pos rfl, ih _ (List.cons_ne_nil u path)]
          · rw [h, valueAt?_cons, hinner]
            cases p <;> simp [Variable.valueAt?_list_cons]
      · rw [valueAt?_set_ne own ht, if_neg (by simp [ht])]

/-! ## Deleting a list -/

@[simp]
theorem deleteList_nil (path : List String) (front : String) :
    deleteList path front [] = ([], []) := by
  cases path <;> rfl

/-- The list at a path is the list at the rest of the path below the first element. Where it goes,
an own value stays behind as a single value. -/
theorem deleteList_cons (s : String) (path : List String) (front : String) (cs : Children) :
    (deleteList (s :: path) front cs).1 = (deleteList path (childName front s) (innerOf cs s)).1 ∧
    ((deleteList (s :: path) front cs).2
        = putList s (ownOf cs s) (deleteList path (childName front s) (innerOf cs s)).2 cs ∨
      innerOf cs s = [] ∧ (deleteList (s :: path) front cs).2 = cs ∨
      path = [] ∧ ∃ x, ownOf cs s = some x ∧
        (deleteList (s :: path) front cs).2 = put s (.value x) cs) := by
  simp only [ownOf, innerOf]
  cases hfind : find? cs s with
  | none => simp [deleteList, hfind]
  | some child =>
    cases child with
    | value x => simp [deleteList, hfind, Variable.children?]
    | list o inner =>
      cases path <;> cases o <;> simp [deleteList, hfind, Variable.own?, Variable.children?]

/-- **Deleting a list empties the paths that go on after its own.** -/
theorem valueAt?_deleteList (own : Option Value) (path : List String) (front : String)
    (cs : Children) (p : List String) :
    (Variable.list own (deleteList path front cs).2).valueAt? p
      = if Extends path p then none else (Variable.list own cs).valueAt? p := by
  induction path generalizing own front cs p with
  | nil => cases p <;> simp [deleteList, Variable.own?, Variable.valueAt?_list_cons]
  | cons s path ih =>
    cases p with
    | nil => simp [Variable.own?]
    | cons t p =>
      obtain ⟨_, h⟩ := deleteList_cons s path front cs
      by_cases ht : t = s
      · subst ht
        rw [valueAt?_cons own cs]
        simp only [extends_cons_cons, true_and]
        rcases h with h | ⟨hinner, h⟩ | ⟨rfl, x, hown, h⟩
        · rw [h, valueAt?_putList, if_pos rfl, ih]
        · rw [h, valueAt?_cons, hinner]
          cases p <;> simp [Variable.valueAt?_list_cons]
        · rw [h, valueAt?_put, if_pos rfl, hown]
          cases p <;> simp [Variable.own?]
      · rw [if_neg (by simp [Ne.symm ht])]
        rcases h with h | ⟨_, h⟩ | ⟨_, x, _, h⟩
        · rw [h, valueAt?_putList, if_neg ht]
        · rw [h]
        · rw [h, valueAt?_put, if_neg ht]

/-- The elements of the list at a path. -/
def below : List String → Children → Children
  | [], cs => cs
  | s :: path, cs => below path (innerOf cs s)

theorem valueAt?_below (own : Option Value) (path : List String) (cs : Children) {p : List String}
    (hp : p ≠ []) :
    (Variable.list own (below path cs)).valueAt? p
      = (Variable.list own cs).valueAt? (path ++ p) := by
  induction path generalizing cs with
  | nil => rfl
  | cons s path ih =>
    rw [below, ih, List.cons_append, valueAt?_cons own cs, valueAt?_own own (ownOf cs s),
      if_neg (by simp [hp])]

/-- The names of the deleted values are those of the list's elements. -/
theorem deleteList_names (path : List String) (front : String) (cs : Children) :
    (deleteList path front cs).1
      = (entries (path.foldl childName front) (below path cs)).map (·.1) := by
  induction path generalizing front cs with
  | nil => rfl
  | cons s path ih => rw [(deleteList_cons s path front cs).1, ih]; rfl

end Children

end ScriptStore.Variables
