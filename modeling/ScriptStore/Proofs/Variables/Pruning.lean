import Mathlib.Data.List.Induction
import ScriptStore.Proofs.Variables.Extensional
import ScriptStore.Proofs.Variables.Lists

/-!
# Lists without elements

A list that has neither elements nor a value of its own does not stay in the tree. One that has lost
its elements and has a value stays, and it is read as a list, although nothing is below it: only when
the list itself is deleted does its value become a single variable. So whether a name is read as a list
does not depend on the variables alone but on how they came about. It is so if there are elements, or
if there were some and since then the name has had a value all the time and its list was not deleted
(`Lingers`).

The step lemma is `hasList_change`, which says what a change makes of the list of a name; the history is
taken apart from its end.
-/

namespace ScriptStore.Variables.Children

/-! ## Lists in a tree -/

@[simp]
theorem hasList_cons_nil (s : String) (path : List String) : hasList (s :: path) [] = false := rfl

/-- Whether a path leads to a list depends on its first element. -/
theorem hasList_congr {s : String} {cs ds : Children} (h : find? cs s = find? ds s)
    (path : List String) : hasList (s :: path) cs = hasList (s :: path) ds := by
  rw [hasList, hasList, h]

theorem hasList_of_find? {s : String} {cs inner : Children} {own : Option Value}
    (h : find? cs s = some (.list own inner)) (path : List String) :
    hasList (s :: path) cs = hasList path inner := by
  rw [hasList, h]

/-- An element that is no list is a single value, if there is one. -/
theorem find?_of_not_list {s : String} {cs : Children}
    (h : ∀ own inner, find? cs s ≠ some (.list own inner)) :
    find? cs s = none ∨ ∃ x, find? cs s = some (.value x) := by
  cases hfind : find? cs s with
  | none => exact .inl rfl
  | some child =>
    cases child with
    | value x => exact .inr ⟨x, rfl⟩
    | list own inner => exact absurd hfind (h own inner)

theorem not_hasList_of_find? {s : String} {cs : Children}
    (h : ∀ own inner, find? cs s ≠ some (.list own inner)) (path : List String) :
    hasList (s :: path) cs = false := by
  rcases find?_of_not_list h with hfind | ⟨x, hfind⟩ <;> rw [hasList, hfind]

/-- Elements stand in a list. -/
theorem hasList_of_valueAt? {own : Option Value} {path rest : List String} {cs : Children} {x : Value}
    (hrest : rest ≠ []) (h : (Variable.list own cs).valueAt? (path ++ rest) = some x) :
    hasList path cs = true := by
  by_contra hlist
  rw [← valueAt?_below own path cs hrest, below_of_not_hasList (Bool.eq_false_iff.2 hlist),
    valueAt?_own none, if_neg hrest, Variable.valueAt?_empty] at h
  cases h

/-- A list in a tidy tree has a value, or something below it has. -/
theorem Tidy.exists_value {cs : Children} (h : Tidy cs) (own : Option Value) {path : List String}
    (hpath : path ≠ []) (hlist : hasList path cs = true) :
    ∃ rest x, (Variable.list own cs).valueAt? (path ++ rest) = some x := by
  induction path generalizing cs own with
  | nil => exact absurd rfl hpath
  | cons s path ih =>
    cases hfind : find? cs s with
    | none => simp [hasList, hfind] at hlist
    | some child =>
      cases child with
      | value x => simp [hasList, hfind] at hlist
      | list own' inner =>
        have hchild := eachList_iff.1 h.below _ (mem_of_find? hfind)
        rw [hasList_of_find? hfind] at hlist
        simp only [List.cons_append, Variable.valueAt?_list_cons, hfind, Option.bind_some]
        by_cases hnil : path = []
        · subst hnil
          exact Variable.exists_value (hchild.mono fun _ _ => And.right)
        · exact ih ⟨hchild.1.1, hchild.2⟩ own' hnil hlist

theorem find?_putList (s t : String) (own : Option Value) (inner cs : Children) :
    find? (putList s own inner cs) t
      = if t = s then (if own.isNone && inner.isEmpty then none else some (.list own inner))
        else find? cs t := by
  rw [putList]
  split
  · rw [find?_erase]
  · rw [find?_put]

/-- What is of use is not left out. -/
theorem find?_putList_of_valueAt? {o own : Option Value} {s : String} {inner cs : Children}
    {path : List String}
    (h : (Variable.list o (putList s own inner cs)).valueAt? (s :: path) ≠ none) :
    find? (putList s own inner cs) s = some (.list own inner) ∧
      (Variable.list own inner).valueAt? path ≠ none := by
  rw [valueAt?_putList, if_pos rfl] at h
  refine ⟨?_, h⟩
  rw [find?_putList, if_pos rfl, if_neg]
  intro huseless
  simp only [Bool.and_eq_true, Option.isNone_iff_eq_none, List.isEmpty_iff] at huseless
  rw [huseless.1, huseless.2, Variable.valueAt?_empty] at h
  exact h rfl

theorem find?_set_ne {s t : String} (h : t ≠ s) (path : List String) (v : Option Value)
    (cs : Children) : find? (set (s :: path) v cs) t = find? cs t := by
  cases path with
  | nil =>
    rcases set_one s v cs with heq | ⟨_, x, _, heq⟩
    · rw [heq, find?_putList, if_neg h]
    · rw [heq, find?_put, if_neg h]
  | cons u path =>
    rcases set_cons_cons s u path v cs with heq | ⟨_, _, heq⟩
    · rw [heq, find?_putList, if_neg h]
    · rw [heq]

/-! An element that is no list may be absent or a single value. Setting makes it a single value, or a
list if something below it is set. -/

section

variable {s : String} {cs : Children} (h : ∀ own inner, find? cs s ≠ some (.list own inner))

include h

theorem find?_set_one (v : Option Value) : find? (set [s] v cs) s = v.map .value := by
  rcases find?_of_not_list h with hfind | ⟨x, hfind⟩
  · cases v <;> simp [set, hfind, find?_put, find?_erase]
  · cases v <;> simp [set, hfind, find?_put, find?_erase]

theorem set_none_below (t : String) (path : List String) : set (s :: t :: path) none cs = cs := by
  rcases find?_of_not_list h with hfind | ⟨x, hfind⟩ <;> simp [set, hfind]

theorem find?_set_below (t : String) (path : List String) (x : Value) :
    ∃ own, find? (set (s :: t :: path) (some x) cs) s
      = some (.list own (set (t :: path) (some x) [])) := by
  have hput : ∀ own, find? (putList s own (set (t :: path) (some x) []) cs) s
      = some (.list own (set (t :: path) (some x) [])) := by
    intro own
    have hne := set_ne_nil (List.cons_ne_nil t path) x []
    rw [find?_putList, if_pos rfl, List.isEmpty_eq_false_iff.2 hne, Bool.and_false,
      if_neg Bool.false_ne_true]
  rcases find?_of_not_list h with hfind | ⟨y, hfind⟩
  · exact ⟨none, by simp only [set, hfind]; exact hput none⟩
  · -- a single value becomes the own value of the list
    exact ⟨some y, by simp only [set, hfind]; exact hput (some y)⟩

end

/-- Setting makes lists only where the path leads through. -/
theorem hasList_set_nil {path p : List String} (hpath : path ≠ []) (h : ¬Extends path p) (x : Value) :
    hasList path (set p (some x) []) = false := by
  induction path generalizing p with
  | nil => exact absurd rfl hpath
  | cons s path ih =>
    cases p with
    | nil => rfl
    | cons t p =>
      by_cases hst : s = t
      · subst hst
        cases p with
        | nil => simp [hasList, set, find?_put]
        | cons u p =>
          have hnone : ∀ own inner, find? [] s ≠ some (.list own inner) := by simp
          obtain ⟨own, hfind⟩ := find?_set_below hnone u p x
          rw [hasList_of_find? hfind]
          refine ih ?_ (by simpa using h)
          rintro rfl
          simp at h
      · rw [hasList_congr (find?_set_ne hst p (some x) []) path, hasList_cons_nil]

/-- **Setting makes lists only where the path leads through, and keeps those that are of use.** -/
theorem hasList_set {own : Option Value} {path p rest : List String} {v : Option Value} {cs : Children}
    (huse : (Variable.list own (set p v cs)).valueAt? (path ++ rest) ≠ none)
    (h : ¬(Extends path p ∧ v ≠ none)) : hasList path (set p v cs) = hasList path cs := by
  induction path generalizing own p cs with
  | nil => rfl
  | cons s path ih =>
    cases p with
    | nil => rfl
    | cons t p =>
      by_cases hst : s = t
      · subst hst
        rw [List.cons_append] at huse
        by_cases hlist : ∃ o inner, find? cs s = some (.list o inner)
        · obtain ⟨o, inner, hfind⟩ := hlist
          rw [hasList_of_find? hfind]
          cases p with
          | nil =>
            simp only [set, hfind] at huse ⊢
            rw [hasList_of_find? (find?_putList_of_valueAt? huse).1]
          | cons u p =>
            simp only [set, hfind] at huse ⊢
            obtain ⟨hkept, huse⟩ := find?_putList_of_valueAt? huse
            rw [hasList_of_find? hkept]
            exact ih huse (by simpa using h)
        · -- where there was no list, there is none now
          simp only [not_exists] at hlist
          rw [not_hasList_of_find? hlist]
          cases p with
          | nil =>
            refine not_hasList_of_find? (fun o inner => ?_) path
            rw [find?_set_one hlist]
            simp
          | cons u p =>
            cases v with
            | none => rw [set_none_below hlist, not_hasList_of_find? hlist]
            | some x =>
              obtain ⟨o, hmade⟩ := find?_set_below hlist u p x
              rw [hasList_of_find? hmade]
              have hnot : ¬Extends (s :: path) (s :: u :: p) := fun hext => h ⟨hext, by simp⟩
              refine hasList_set_nil ?_ (by simpa using hnot) x
              rintro rfl
              simp at hnot
      · exact hasList_congr (find?_set_ne hst p v cs) path

/-! ## Deleting a list -/

theorem find?_deleteList_ne {s t : String} (h : t ≠ s) (path : List String) (front : String)
    (cs : Children) : find? (deleteList (s :: path) front cs).2 t = find? cs t := by
  rcases (deleteList_cons s path front cs).2 with heq | ⟨_, heq⟩ | ⟨_, x, _, heq⟩
  · rw [heq, find?_putList, if_neg h]
  · rw [heq]
  · rw [heq, find?_put, if_neg h]

theorem deleteList_of_not_list {s : String} {cs : Children}
    (h : ∀ own inner, find? cs s ≠ some (.list own inner)) (path : List String) (front : String) :
    (deleteList (s :: path) front cs).2 = cs := by
  rcases find?_of_not_list h with hfind | ⟨x, hfind⟩ <;> simp [deleteList, hfind]

/-- Of the list at the first element, the element is left as a list, unless it is the one to delete and
has a value. -/
theorem deleteList_of_list {s : String} {cs inner : Children} {own : Option Value}
    (h : find? cs s = some (.list own inner)) (path : List String) (front : String) :
    (deleteList (s :: path) front cs).2
        = putList s own (deleteList path (childName front s) inner).2 cs ∨
      path = [] ∧ ∃ x, (deleteList (s :: path) front cs).2 = put s (.value x) cs := by
  cases path with
  | cons t path => exact .inl (by simp [deleteList, h])
  | nil =>
    cases own with
    | none => exact .inl (by simp [deleteList, h])
    | some x => exact .inr ⟨rfl, x, by simp [deleteList, h]⟩

/-- **Deleting a list keeps all other lists that are of use.** -/
theorem hasList_deleteList {own : Option Value} {path p rest : List String} {front : String}
    {cs : Children}
    (huse : (Variable.list own (deleteList p front cs).2).valueAt? (path ++ rest) ≠ none)
    (h : p ≠ path) : hasList path (deleteList p front cs).2 = hasList path cs := by
  induction path generalizing own p front cs with
  | nil => rfl
  | cons s path ih =>
    rw [List.cons_append] at huse
    cases p with
    | nil => exact absurd rfl huse
    | cons t p =>
      by_cases hst : s = t
      · subst hst
        by_cases hlist : ∃ o inner, find? cs s = some (.list o inner)
        · obtain ⟨o, inner, hfind⟩ := hlist
          rw [hasList_of_find? hfind]
          rcases deleteList_of_list hfind p front with heq | ⟨rfl, x, heq⟩
          · rw [heq] at huse ⊢
            obtain ⟨hkept, huse⟩ := find?_putList_of_valueAt? huse
            rw [hasList_of_find? hkept]
            exact ih huse (by simpa using h)
          · -- nothing is left below the value that stays
            rw [heq, valueAt?_put, if_pos rfl] at huse
            obtain ⟨u, path, rfl⟩ := List.exists_cons_of_ne_nil (show path ≠ [] by
              rintro rfl
              exact h rfl)
            exact absurd rfl huse
        · simp only [not_exists] at hlist
          rw [deleteList_of_not_list hlist]
      · exact hasList_congr (find?_deleteList_ne hst p front cs) path

/-- A list that is deleted is no list any more. -/
theorem hasList_deleteList_self {path : List String} (hpath : path ≠ []) (front : String)
    (cs : Children) : hasList path (deleteList path front cs).2 = false := by
  induction path generalizing front cs with
  | nil => exact absurd rfl hpath
  | cons s path ih =>
    by_cases hlist : ∃ o inner, find? cs s = some (.list o inner)
    · obtain ⟨o, inner, hfind⟩ := hlist
      by_cases hnil : path = []
      · subst hnil
        refine not_hasList_of_find? (fun o' inner' => ?_) []
        cases o with
        | none => simp [deleteList, hfind, find?_putList]
        | some x => simp [deleteList, hfind, find?_put]
      · rcases deleteList_of_list hfind path front with heq | ⟨rfl, -⟩
        · rw [heq]
          by_cases hkept : (o.isNone && (deleteList path (childName front s) inner).2.isEmpty) = true
          · refine not_hasList_of_find? (fun o' inner' => ?_) path
            rw [find?_putList, if_pos rfl, if_pos hkept]
            simp
          · have hfound : find? (putList s o (deleteList path (childName front s) inner).2 cs) s
                = some (.list o (deleteList path (childName front s) inner).2) := by
              rw [find?_putList, if_pos rfl, if_neg hkept]
            rw [hasList_of_find? hfound]
            exact ih hnil _ _
        · exact absurd rfl hnil
    · simp only [not_exists] at hlist
      rw [deleteList_of_not_list hlist, not_hasList_of_find? hlist]

end ScriptStore.Variables.Children

namespace ScriptStore.VariableMap

open Variables

/-! ## Lists and the history of a map -/

/-- Whether there are variables below a name. -/
def HasElements (f : String → Option Value) (p : String) : Prop :=
  ∃ n, f n ≠ none ∧ Extends (segments p) (segments n)

/-- Whether a change deletes the list of a name. -/
def Change.Removes (c : Change) (p : String) : Prop :=
  c = .removeList (p ++ "::*") ∨ c = .set (p ++ "::*") none

/-- Whether a list may have lost its elements and be left: at some time there were some, and after every
change since then the name has had a value, and none of these changes has deleted the list. -/
def Lingers (changes : List Change) (p : String) : Prop :=
  ∃ earlier later, changes = earlier ++ later ∧ HasElements (effect earlier) p ∧
    ∀ front c, front ++ [c] <+: later → effect (earlier ++ front ++ [c]) p ≠ none ∧ ¬c.Removes p

section

variable {m : VariableMap} {f : String → Option Value}

theorem Agrees.hasList_of_elements (h : Agrees m f) {p : String} (hp : HasElements f p) :
    Children.hasList (segments p) m.tree = true := by
  obtain ⟨n, hn, hext⟩ := hp
  obtain ⟨x, hx⟩ := Option.ne_none_iff_exists'.1 hn
  obtain ⟨rest, hrest, hsegments⟩ := extends_iff.1 hext
  have hvalue := h.tree n
  rw [hx, hsegments] at hvalue
  exact Children.hasList_of_valueAt? hrest hvalue

/-- A list has elements, or a value of its own. -/
theorem Agrees.elements_or_value (h : Agrees m f) {p : String}
    (hlist : Children.hasList (segments p) m.tree = true) : HasElements f p ∨ f p ≠ none := by
  obtain ⟨rest, x, hx⟩ := h.tidy.exists_value none (segments_ne_nil p) hlist
  obtain ⟨n, hn⟩ := h.named _ x hx
  have hvalue : f n = some x := by rw [← h.tree, ← hn, hx]
  by_cases hrest : rest = []
  · rw [hrest, List.append_nil] at hn
    right
    rw [segments_inj hn, hvalue]
    exact Option.some_ne_none x
  · left
    exact ⟨n, by rw [hvalue]; exact Option.some_ne_none x, extends_iff.2 ⟨rest, hrest, hn.symm⟩⟩

theorem listPath_eq_segments_iff {list p : String} : listPath list = segments p ↔ list = p ++ "::*" := by
  constructor
  · intro h
    rw [listPath] at h
    cases hfront : listFront? list with
    | none =>
      rw [hfront] at h
      exact absurd h.symm (segments_ne_nil p)
    | some front =>
      rw [hfront] at h
      rw [listFront?_eq_some.1 hfront, segments_inj (show segments front = segments p from h)]
  · rintro rfl
    exact listPath_append p

/-- What becomes of a list that is of use when some list is deleted. -/
theorem hasList_removeList {list p : String} (hlist : list ≠ "::*")
    (huse : (Variable.list none (m.removeList list).2.tree).valueAt? (segments p) ≠ none) :
    Children.hasList (segments p) (m.removeList list).2.tree = true ↔
      Children.hasList (segments p) m.tree = true ∧ list ≠ p ++ "::*" := by
  rw [m.removeList_of_ne hlist] at huse ⊢
  by_cases hp : list = p ++ "::*"
  · rw [listPath_eq_segments_iff.2 hp, Children.hasList_deleteList_self (segments_ne_nil p)]
    simp [hp]
  · rw [← List.append_nil (segments p)] at huse
    rw [Children.hasList_deleteList huse fun heq => hp (listPath_eq_segments_iff.1 heq)]
    simp [hp]

/-- What becomes of a list when a change leaves a value for its name, and nothing below it. -/
theorem Agrees.hasList_of_value (h : Agrees m f) {c : Change} (hc : c.Rooted) {p : String}
    (hvalue : c.effect f p ≠ none) (hnone : ¬HasElements (c.effect f) p) :
    Children.hasList (segments p) (m.change c).tree = true ↔
      Children.hasList (segments p) m.tree = true ∧ ¬c.Removes p := by
  have huse : (Variable.list none (m.change c).tree).valueAt? (segments p) ≠ none := by
    rw [(h.change hc).tree]
    exact hvalue
  cases c with
  | clear => exact absurd rfl hvalue
  | removeList list =>
    have hremoves : (Change.removeList list).Removes p ↔ list = p ++ "::*" := by
      simp [Change.Removes]
    rw [hremoves]
    exact hasList_removeList hc huse
  | set name v =>
    simp only [VariableMap.change, VariableMap.set] at huse ⊢
    by_cases hlist : isList name = true
    · rw [if_pos hlist] at huse ⊢
      cases v with
      | none =>
        have hremoves : (Change.set name none).Removes p ↔ name = p ++ "::*" := by
          simp [Change.Removes]
        have hne : name ≠ "::*" := by
          rintro rfl
          exact absurd (by decide) hc
        rw [hremoves]
        exact hasList_removeList hne huse
      | some x =>
        have hremoves : ¬(Change.set name (some x)).Removes p := by
          simp [Change.Removes]
        exact (and_iff_left hremoves).symm
    · rw [if_neg hlist] at huse ⊢
      have hremoves : ¬(Change.set name v).Removes p := by
        rintro (hset | hset)
        · cases hset
        · cases hset
          exact hlist (isList_append p)
      -- a variable that is set below `p` would be an element
      have hgrows : ¬(Extends (segments p) (segments name) ∧ v ≠ none) := by
        rintro ⟨hext, hv⟩
        refine hnone ⟨name, ?_, hext⟩
        rw [Change.effect_set (Bool.eq_false_iff.2 hlist), if_pos rfl]
        exact hv
      rw [← List.append_nil (segments p)] at huse
      rw [and_iff_left hremoves]
      exact iff_of_eq (congrArg (· = true) (Children.hasList_set huse hgrows))

/-- **What a change makes of the list of a name.** -/
theorem Agrees.hasList_change (h : Agrees m f) {c : Change} (hc : c.Rooted) (p : String) :
    Children.hasList (segments p) (m.change c).tree = true ↔
      HasElements (c.effect f) p ∨
        Children.hasList (segments p) m.tree = true ∧ c.effect f p ≠ none ∧ ¬c.Removes p := by
  have hnext := h.change hc
  by_cases helements : HasElements (c.effect f) p
  · exact iff_of_true (hnext.hasList_of_elements helements) (.inl helements)
  · constructor
    · intro hlist
      have hvalue := (hnext.elements_or_value hlist).resolve_left helements
      obtain ⟨hbefore, hremoves⟩ := (h.hasList_of_value hc hvalue helements).1 hlist
      exact .inr ⟨hbefore, hvalue, hremoves⟩
    · rintro (hsome | ⟨hbefore, hvalue, hremoves⟩)
      · exact absurd hsome helements
      · exact (h.hasList_of_value hc hvalue helements).2 ⟨hbefore, hremoves⟩

theorem effect_concat (changes : List Change) (c : Change) :
    effect (changes ++ [c]) = c.effect (effect changes) := by
  rw [effect, List.foldl_append]
  rfl

theorem ofChanges_concat (changes : List Change) (c : Change) :
    ofChanges (changes ++ [c]) = (ofChanges changes).change c := by
  rw [ofChanges, List.foldl_append]
  rfl

/-- One more change after which the name has a value and its list was not deleted. -/
theorem lingers_concat {changes : List Change} {c : Change} {p : String}
    (h : HasElements (effect changes) p ∨ Lingers changes p)
    (hvalue : effect (changes ++ [c]) p ≠ none) (hremoves : ¬c.Removes p) :
    Lingers (changes ++ [c]) p := by
  rcases h with helements | ⟨earlier, later, rfl, helements, hsince⟩
  · refine ⟨changes, [c], rfl, helements, fun front d hfront => ?_⟩
    obtain ⟨rfl, rfl⟩ : front = [] ∧ d = c := by
      have hlen := hfront.length_le
      simp only [List.length_append, List.length_singleton] at hlen
      obtain rfl : front = [] := List.length_eq_zero_iff.1 (by omega)
      exact ⟨rfl, by simpa using hfront⟩
    rw [List.append_nil]
    exact ⟨hvalue, hremoves⟩
  · refine ⟨earlier, later ++ [c], List.append_assoc .., helements, fun front d hfront => ?_⟩
    rcases List.prefix_concat_iff.1 hfront with heq | hfront
    · obtain ⟨rfl, hd⟩ := List.append_inj' heq rfl
      cases hd
      exact ⟨hvalue, hremoves⟩
    · exact hsince front d hfront

/-- What lingers did so before the last change, or had elements. -/
theorem lingers_of_concat {changes : List Change} {c : Change} {p : String}
    (h : Lingers (changes ++ [c]) p) :
    HasElements (effect (changes ++ [c])) p ∨
      Lingers changes p ∧ effect (changes ++ [c]) p ≠ none ∧ ¬c.Removes p := by
  obtain ⟨earlier, later, hchanges, helements, hsince⟩ := h
  rcases List.eq_nil_or_concat later with rfl | ⟨later, d, rfl⟩
  · rw [List.append_nil] at hchanges
    exact .inl (hchanges ▸ helements)
  · rw [List.concat_eq_append] at hchanges hsince
    rw [← List.append_assoc] at hchanges
    obtain ⟨rfl, hd⟩ := List.append_inj' hchanges rfl
    cases hd
    refine .inr ⟨⟨earlier, later, rfl, helements, fun front d hfront => ?_⟩, ?_⟩
    · exact hsince front d (hfront.trans (List.prefix_append ..))
    · exact hsince later c List.prefix_rfl

/-- **Whether a name has a list**, told from the history. -/
theorem hasList_ofChanges {changes : List Change} (h : ∀ c ∈ changes, c.Rooted) (p : String) :
    Children.hasList (segments p) (ofChanges changes).tree = true ↔
      HasElements (effect changes) p ∨ Lingers changes p := by
  -- from the end, for what a change does depends on the map before it
  induction changes using List.reverseRecOn with
  | nil =>
    obtain ⟨s, path, hpath⟩ := List.exists_cons_of_ne_nil (segments_ne_nil p)
    have hnone : ¬HasElements (effect []) p := fun ⟨n, hn, _⟩ => hn rfl
    refine iff_of_false (by rw [hpath]; exact Bool.false_ne_true) ?_
    rintro (helements | ⟨earlier, later, hnil, helements, -⟩)
    · exact hnone helements
    · rw [(List.append_eq_nil_iff.1 hnil.symm).1] at helements
      exact hnone helements
  | append_singleton changes c ih =>
    obtain ⟨hchanges, hc⟩ := List.forall_mem_append.1 h
    have hagrees : Agrees (ofChanges changes) (effect changes) := Agrees.empty.changes_rooted hchanges
    rw [ofChanges_concat, hagrees.hasList_change (hc c (List.mem_singleton_self c)), ih hchanges,
      ← effect_concat]
    constructor
    · rintro (helements | ⟨hbefore, hvalue, hremoves⟩)
      · exact .inl helements
      · exact .inr (lingers_concat hbefore hvalue hremoves)
    · rintro (helements | hlingers)
      · exact .inl helements
      · rcases lingers_of_concat hlingers with helements | ⟨hbefore, hvalue, hremoves⟩
        · exact .inl helements
        · exact .inr ⟨.inr hbefore, hvalue, hremoves⟩

/-! ## Reading lists -/

/-- Whether the name of a list is answered with a list. -/
def ReadsList (m : VariableMap) (p : String) : Prop :=
  ∃ own cs, m.get? (p ++ "::*") = some (.list own cs)

theorem readsList_iff_of_path {p : String} {path rest : List String}
    (h : segments (p ++ "::*") = path ++ "*" :: rest) (hpath : "*" ∉ path) :
    m.ReadsList p ↔ Children.hasList path m.tree = true := by
  rw [ReadsList, get?, if_pos (isList_append p), h, Variable.descend_append hpath]
  cases Children.hasList path m.tree with
  | true => exact iff_of_true ⟨_, _, if_pos rfl⟩ rfl
  | false => simp

theorem readsList_iff {p : String} (h : "*" ∉ segments p) (hcolon : (segments p).getLast? ≠ some "*:") :
    m.ReadsList p ↔ Continued p ∧ Children.hasList (segments p) m.tree = true := by
  by_cases hp : Continued p
  · rw [readsList_iff_of_path hp.segments_list h, and_iff_right hp]
  · -- the colon at the end of `p` becomes part of the last segment, which is no `*` then
    obtain ⟨front, s, hs, hlist⟩ := segments_list_of_not_continued hp
    have hstar : "*" ∉ segments (p ++ "::*") := by
      rw [hlist, List.mem_append, List.mem_cons, List.mem_singleton]
      rintro (hfront | rfl | hlast)
      · exact h (by rw [hs]; exact List.mem_append_left _ hfront)
      · exact hcolon (by rw [hs, List.getLast?_concat]; rfl)
      · exact absurd hlast (by decide)
    refine iff_of_false ?_ fun hcontinued => hp hcontinued.1
    rw [ReadsList, get?, if_pos (isList_append p), Variable.descend_eq_none hstar]
    simp

theorem HasElements.continued {p : String} (h : HasElements f p) : Continued p := by
  obtain ⟨n, -, hext⟩ := h
  exact continued_of_extends hext

theorem readsList_ofChanges {changes : List Change} (h : ∀ c ∈ changes, c.Rooted) {p : String}
    (hp : "*" ∉ segments p) (hcolon : (segments p).getLast? ≠ some "*:") :
    (ofChanges changes).ReadsList p ↔ HasElements (effect changes) p ∨ Lingers changes p := by
  rw [readsList_iff hp hcolon, hasList_ofChanges h, and_iff_right_iff_imp]
  rintro (helements | ⟨earlier, later, -, helements, -⟩)
  · exact helements.continued
  · exact helements.continued

/-- A last segment `*:` is read as the `*` of the list before it. -/
theorem segments_list_of_star_colon {p : String} {path : List String} (h : segments p = path ++ ["*:"]) :
    segments (p ++ "::*") = path ++ ["*", ":*"] := by
  have hp : ¬Continued p := fun hp => hp path "*:" h (by decide)
  obtain ⟨front, s, hs, hlist⟩ := segments_list_of_not_continued hp
  obtain ⟨rfl, hlast⟩ := List.append_inj' (hs.symm.trans h) rfl
  have hcolon : s ++ ":" = "*" ++ ":" := (List.cons.inj hlast).1
  rw [hlist, String.append_left_inj ":" |>.1 hcolon]

/-- **When a list is read.** After every history, the list of a name is read if there are variables below
it, and also if there were some, the name has had a value ever since, and its list was not deleted. A
name with `*:` for its last segment is the exception: for its list the one before it is read, and that
of all variables if there is none before it. -/
theorem readsList_iff_elements_or_lingers {changes : List Change} (h : ∀ c ∈ changes, c.Rooted)
    {p : String} (hp : "*" ∉ segments p) :
    ((segments p).getLast? ≠ some "*:" →
      ((ofChanges changes).ReadsList p ↔ HasElements (effect changes) p ∨ Lingers changes p)) ∧
    (∀ q, segments p = segments q ++ ["*:"] →
      ((ofChanges changes).ReadsList p ↔ HasElements (effect changes) q ∨ Lingers changes q)) ∧
    (p = "*:" → (ofChanges changes).ReadsList p) := by
  refine ⟨readsList_ofChanges h hp, fun q hq => ?_, ?_⟩
  · have hstar : "*" ∉ segments q := fun hmem => hp (by rw [hq]; exact List.mem_append_left _ hmem)
    rw [readsList_iff_of_path (segments_list_of_star_colon hq) hstar, hasList_ofChanges h]
  · rintro rfl
    have hroot : segments ("*:" ++ "::*") = [] ++ "*" :: [":*"] := by decide
    exact (readsList_iff_of_path hroot List.not_mem_nil).2 rfl

end

/-- The list at `home` is still read after its only element was deleted, for `home` has a value. -/
theorem readsList_iff_elements_or_lingers_home :
    let history : List Change :=
      [.set "home" (some (.boolean true)), .set "home::9::x" (some (.boolean false)),
        .set "home::9::x" none]
    (∀ c ∈ history, c.Rooted) ∧ "*" ∉ segments "home" ∧ (ofChanges history).ReadsList "home" := by
  intro history
  have hrooted : ∀ c ∈ history, c.Rooted := by
    simp only [history, List.forall_mem_cons, List.not_mem_nil, false_imp_iff, implies_true, and_true,
      Change.Rooted]
    decide
  have hstar : "*" ∉ segments "home" := by decide
  have helements : HasElements (effect (history.take 2)) "home" :=
    ⟨"home::9::x", Option.some_ne_none _, by decide⟩
  have hlingers : Lingers (history.take 2 ++ [.set "home::9::x" none]) "home" :=
    lingers_concat (.inl helements) (Option.some_ne_none _) (by simp [Change.Removes])
  exact ⟨hrooted, hstar,
    ((readsList_iff_elements_or_lingers hrooted hstar).1 (by decide)).2 (.inr hlingers)⟩

/-- Two histories that lead to the same variables, with no variable below `a`; the list of `a` is read
after one of them. -/
theorem readsList_depends_on_history :
    let short : List Change := [.set "a" (some (.boolean true))]
    let long : List Change := short ++ [.set "a::b" (some (.boolean false)), .set "a::b" none]
    effect long = effect short ∧ ¬HasElements (effect long) "a" ∧
      (ofChanges long).get? "a::*" = some (.list (some (.boolean true)) []) ∧
      (ofChanges short).get? "a::*" = none := by
  intro short long
  have hshort : ∀ n, effect short n = if n = "a" then some (.boolean true) else none := by
    intro n
    show Change.effect (fun _ => none) (.set "a" _) n = _
    rw [Change.effect_set (by decide)]
  have hsame : effect long = effect short := by
    funext n
    show Change.effect (Change.effect (effect short) (.set "a::b" _)) (.set "a::b" none) n = _
    rw [Change.effect_set (by decide), Change.effect_set (by decide), hshort]
    by_cases hn : n = "a::b"
    · rw [if_pos hn, hn]
      rfl
    · rw [if_neg hn, if_neg hn]
  refine ⟨hsame, ?_, rfl, rfl⟩
  rw [hsame]
  rintro ⟨n, hn, hext⟩
  rw [hshort, ne_eq, ite_eq_right_iff, Classical.not_imp] at hn
  rw [hn.1] at hext
  exact absurd hext (by decide)

end ScriptStore.VariableMap
