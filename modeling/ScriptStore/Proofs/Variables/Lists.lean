import ScriptStore.Proofs.Variables.FullNames

/-!
# Reading and deleting lists

A list name is read segment by segment, up to the first `*`. To delete, it is cut before its last `::*`,
and nothing before that means all variables. These are two ways to understand a name, and the names of
what is deleted are put together anew. So what is read and what is deleted may differ: if a `*` stands
further to the front, if the name starts with a separator, and if the names of the variables do
(`ReadsAsDeleted`).

Of any map of variables it can be told which of its variables a list name shows and which it deletes
(`Shown`, `Deleted`), whatever was done to the map before.
-/

namespace ScriptStore.Variables

/-! ## Following a path to a list -/

namespace Children

/-- Whether a path leads to a list. -/
def hasList : List String → Children → Bool
  | [], _ => true
  | s :: path, cs =>
    match find? cs s with
    | some (.list _ inner) => hasList path inner
    | _ => false

@[simp]
theorem below_nil (path : List String) : below path [] = [] := by
  induction path with
  | nil => rfl
  | cons s path ih => exact ih

/-- Where there is no list, there are no elements. -/
theorem below_of_not_hasList {path : List String} {cs : Children} (h : hasList path cs = false) :
    below path cs = [] := by
  induction path generalizing cs with
  | nil => cases h
  | cons s path ih =>
    rw [hasList] at h
    rw [below, innerOf]
    cases hfind : find? cs s with
    | none => exact below_nil path
    | some child =>
      rw [hfind] at h
      cases child with
      | value x => exact below_nil path
      | list own inner => exact ih h

end Children

namespace Variable

/-- **The first `*` stands for the list that the segments before it lead to.** -/
theorem descend_append {path : List String} (h : "*" ∉ path) (own : Option Value) (cs : Children)
    (rest : List String) :
    (Variable.list own cs).descend (path ++ "*" :: rest)
      = if Children.hasList path cs then
          some (.list ((Variable.list own cs).valueAt? path) (Children.below path cs))
        else none := by
  induction path generalizing own cs with
  | nil => rfl
  | cons s path ih =>
    obtain ⟨hs, hpath⟩ := not_or.1 (mt List.mem_cons.2 h)
    rw [List.cons_append, descend, if_neg (Ne.symm hs), valueAt?_list_cons, Children.hasList,
      Children.below, Children.innerOf]
    cases hfind : Children.find? cs s with
    | none => rfl
    | some child =>
      cases child with
      | list own' inner => exact ih hpath own' inner
      | value x => cases path <;> rfl

/-- Without a `*` a path leads to no list. -/
theorem descend_eq_none {path : List String} (h : "*" ∉ path) (v : Variable) :
    v.descend path = none := by
  induction path generalizing v with
  | nil => rfl
  | cons s path ih =>
    obtain ⟨hs, hpath⟩ := not_or.1 (mt List.mem_cons.2 h)
    cases v with
    | value x => rfl
    | list own cs =>
      rw [descend, if_neg (Ne.symm hs)]
      cases Children.find? cs s with
      | none => rfl
      | some child => exact ih hpath child

end Variable

/-! ## The two ways to understand a list name -/

/-- The segments before the first `*`. -/
def readPath (list : String) : List String := (segments list).takeWhile fun s => s ≠ "*"

/-- The segments of what stands before the last `::*`; nothing before it means all variables. -/
def removalPath (list : String) : List String := if list = "::*" then [] else listPath list

/-- Whether reading a list name shows a variable, if there is one of that name. -/
def Shown (list n : String) : Prop := "*" ∈ segments list ∧ Extends (readPath list) (segments n)

/-- Whether a variable is deleted with the list of a name, if there is one. -/
def Deleted (list n : String) : Prop := Extends (removalPath list) (segments n)

theorem not_mem_readPath (list : String) : "*" ∉ readPath list := by
  intro h
  have hne := List.mem_takeWhile_imp h
  simp at hne

theorem exists_rest {list : String} (h : "*" ∈ segments list) :
    ∃ rest, segments list = readPath list ++ "*" :: rest := by
  have hcut := List.takeWhile_append_dropWhile (p := fun s => s ≠ "*") (l := segments list)
  cases hdrop : (segments list).dropWhile fun s => s ≠ "*" with
  | nil =>
    have hall := List.dropWhile_eq_nil_iff.1 hdrop "*" h
    simp at hall
  | cons s rest =>
    have hs := List.head?_dropWhile_not (fun s => s ≠ "*") (segments list)
    rw [hdrop] at hs
    have hs : s = "*" := by simpa using hs
    rw [hdrop, hs] at hcut
    exact ⟨rest, hcut.symm⟩

/-- A list name is `*`, or something with `::*` behind it. -/
theorem isList_cases {list : String} (h : isList list = true) :
    list = "*" ∨ ∃ front, list = front ++ "::*" := by
  rw [isList, Bool.or_eq_true, Option.isSome_iff_exists] at h
  rcases h with ⟨front, hfront⟩ | h
  · exact .inr ⟨front, listFront?_eq_some.1 hfront⟩
  · exact .inl (by simpa using h)

theorem isList_append (front : String) : isList (front ++ "::*") = true := by
  rw [isList, listFront?_eq_some.2 rfl]
  rfl

theorem Led.append {front : String} (h : Led front) (rest : String) : Led (front ++ rest) := by
  obtain ⟨more, hmore⟩ := h
  exact ⟨more ++ rest.toList, by rw [String.toList_append, ← hmore, List.append_assoc]⟩

/-- A first segment that is empty is followed by a separator, if the name is not empty. -/
theorem led_of_head? {name : String} (h : (segments name).head? = some "") (hname : name ≠ "") :
    Led name := by
  obtain ⟨s, more, hs⟩ := List.exists_cons_of_ne_nil (segments_ne_nil name)
  rw [hs, List.head?_cons, Option.some.injEq] at h
  subst h
  cases more with
  | nil =>
    have hempty := toList_eq_of_segments hs
    exact absurd (String.toList_inj.1 hempty) hname
  | cons t more => exact led_iff_segments.2 ⟨t, more, hs⟩

/-- Below a list name that starts with a separator only names that do are shown. -/
theorem Shown.led {list n : String} (h : Shown list n) (hlist : Led list) : Led n := by
  obtain ⟨s, more, hsegments⟩ := led_iff_segments.1 hlist
  obtain ⟨rest, hrest, hn⟩ := extends_iff.1 h.2
  have hread : ∃ path, readPath list = "" :: path := by
    refine ⟨(s :: more).takeWhile fun s => s ≠ "*", ?_⟩
    rw [readPath, hsegments, List.takeWhile_cons, if_pos (by decide)]
  obtain ⟨path, hpath⟩ := hread
  obtain ⟨t, rest', hrest'⟩ := List.exists_cons_of_ne_nil
    (show path ++ rest ≠ [] from fun hnil => hrest (List.append_eq_nil_iff.1 hnil).2)
  exact led_iff_segments.2 ⟨t, rest', by rw [hn, hpath, List.cons_append, hrest']⟩

/-- A list name that does not start with a separator deletes no name that does, `*` apart. -/
theorem Deleted.not_led {front n : String} (h : Deleted (front ++ "::*") n)
    (hfront : ¬Led (front ++ "::*")) : ¬Led n := by
  have hne : front ++ "::*" ≠ "::*" := by
    intro heq
    rw [heq] at hfront
    exact hfront (by decide)
  rw [Deleted, removalPath, if_neg hne, listPath_append] at h
  intro hn
  obtain ⟨s, more, hsegments⟩ := led_iff_segments.1 hn
  obtain ⟨t, path, hpath⟩ := List.exists_cons_of_ne_nil (segments_ne_nil front)
  rw [hpath, hsegments, extends_cons_cons] at h
  have hhead : (segments front).head? = some "" := by rw [hpath, h.1]; rfl
  refine hfront ((led_of_head? hhead ?_).append _)
  rintro rfl
  exact hne rfl

end ScriptStore.Variables

namespace ScriptStore.VariableMap

open Variables

/-! ## What is read and what is deleted -/

/-- The full names of the values in the elements of a list that is found at a path. -/
def elementNames (path : List String) : Variable → List String
  | .value _ => []
  | .list _ cs => (Children.located cs).map fun e => nameOf (path ++ e.1)

/-- The full names of the values in the elements of the list that a list name reads; none if it reads
nothing. -/
def namesRead (m : VariableMap) (list : String) : List String :=
  ((m.get? list).map (elementNames (readPath list))).getD []

/-- Whether the tree has a value for a name. -/
def Holds (m : VariableMap) (n : String) : Prop :=
  (Variable.list none m.tree).valueAt? (segments n) ≠ none

/-- Whether deleting a list deletes what reading it shows, gives the names of that, and leaves all other
variables. -/
structure ReadsAsDeleted (m : VariableMap) (list : String) : Prop where
  names : (m.removeList list).1 = m.namesRead list
  flat : ∀ n, (m.removeList list).2.value? n = if n ∈ m.namesRead list then none else m.value? n
  tree : ∀ n, (Variable.list none (m.removeList list).2.tree).valueAt? (segments n)
    = if n ∈ m.namesRead list then none else (Variable.list none m.tree).valueAt? (segments n)

section

variable {m : VariableMap} {list : String}

theorem removeList_removalPath (m : VariableMap) (list : String) :
    m.removeList list =
      ((Children.deleteList (removalPath list) "" m.tree).1,
        { tree := (Children.deleteList (removalPath list) "" m.tree).2,
          flat := (Children.deleteList (removalPath list) "" m.tree).1.foldl Dict.erase m.flat }) := by
  by_cases h : list = "::*"
  · subst h
    rfl
  · rw [m.removeList_of_ne h, removalPath, if_neg h]

theorem namesRead_eq (m : VariableMap) (h : isList list = true) :
    m.namesRead list
      = if "*" ∈ segments list then (Children.variablesBelow (readPath list) m.tree).map (·.1)
        else [] := by
  rw [namesRead, get?, if_pos h]
  by_cases hstar : "*" ∈ segments list
  · obtain ⟨rest, hrest⟩ := exists_rest hstar
    rw [if_pos hstar, hrest, Variable.descend_append (not_mem_readPath list), Children.variablesBelow]
    cases hhas : Children.hasList (readPath list) m.tree with
    | true =>
      rw [if_pos rfl, Option.map_some, Option.getD_some, List.map_map]
      rfl
    | false =>
      rw [if_neg Bool.false_ne_true, Children.below_of_not_hasList hhas]
      rfl
  · rw [if_neg hstar, Variable.descend_eq_none hstar]
    rfl

/-- The names of the variables below a path. -/
theorem mem_names_variablesBelow (hm : Children.Grown m.tree) {path : List String} {n : String} :
    (∃ x, (n, x) ∈ Children.variablesBelow path m.tree) ↔ m.Holds n ∧ Extends path (segments n) := by
  simp only [hm.mem_variablesBelow, Holds, exists_and_left, Option.ne_none_iff_exists', and_comm]

theorem mem_namesRead (hm : Children.Grown m.tree) (h : isList list = true) {n : String} :
    n ∈ m.namesRead list ↔ m.Holds n ∧ Shown list n := by
  rw [namesRead_eq m h, Shown]
  by_cases hstar : "*" ∈ segments list
  · rw [if_pos hstar, and_iff_right hstar, ← mem_names_variablesBelow hm]
    simp
  · simp [hstar]

theorem mem_removeList (hm : Children.Grown m.tree) {name : String} :
    name ∈ (m.removeList list).1 ↔ ∃ n, m.Holds n ∧ Deleted list n ∧ bare n = name := by
  rw [removeList_removalPath, hm.deleteList_names, List.mem_map]
  simp only [← and_assoc, Deleted, ← mem_names_variablesBelow hm, Prod.exists, exists_and_right]

/-- Lists of names in order are determined by what is in them. -/
theorem eq_of_ascending {l l' : List String}
    (h : l.Pairwise fun a b => (segments a).compareLex compareSegments (segments b) = .lt)
    (h' : l'.Pairwise fun a b => (segments a).compareLex compareSegments (segments b) = .lt)
    (hmem : ∀ n, n ∈ l ↔ n ∈ l') : l = l' := by
  have hnodup : ∀ {l : List String}, (l.Pairwise fun a b =>
      (segments a).compareLex compareSegments (segments b) = .lt) → l.Nodup := by
    intro l hl
    refine List.Pairwise.imp (fun {a b} hab heq => ?_) hl
    rw [heq] at hab
    exact compareLex_self_ne_lt _ hab
  refine List.Perm.eq_of_pairwise (fun a b _ _ hab hba => ?_) h h'
    ((List.perm_ext_iff_of_nodup (hnodup h) (hnodup h')).2 hmem)
  rw [Std.OrientedCmp.gt_of_lt hab] at hba
  cases hba

/-- If reading and deleting agree, they mean the same variables, and none of those that are deleted has
a name that starts with a separator. -/
theorem ReadsAsDeleted.same (hsame : m.ReadsAsDeleted list) (hm : Children.Grown m.tree)
    (h : isList list = true) {n : String} (hn : m.Holds n) :
    (Shown list n ↔ Deleted list n) ∧ (Deleted list n → ¬Led n) := by
  have hnames : ∀ n, (∃ n', m.Holds n' ∧ Deleted list n' ∧ bare n' = n) ↔
      m.Holds n ∧ Shown list n := by
    intro n
    rw [← mem_removeList hm, hsame.names, mem_namesRead hm h]
  have hplain : ∀ n, m.Holds n → Shown list n → ¬Led n := by
    intro n hn hshown
    obtain ⟨n', -, -, rfl⟩ := (hnames n).2 ⟨hn, hshown⟩
    exact not_led_bare n'
  by_cases hled : Led list
  · -- all that is shown starts with a separator, and nothing that is deleted: so there is neither
    have hnot : ∀ n, m.Holds n → ¬Shown list n := fun n hn hshown =>
      hplain n hn hshown (hshown.led hled)
    have hkept : ¬Deleted list n := by
      intro hdeleted
      obtain ⟨hbare, hshown⟩ := (hnames (bare n)).1 ⟨n, hn, hdeleted, rfl⟩
      exact hnot _ hbare hshown
    exact ⟨iff_of_false (hnot n hn) hkept, fun hdeleted => absurd hdeleted hkept⟩
  · rcases isList_cases h with rfl | ⟨front, rfl⟩
    · -- all variables are meant both times
      obtain ⟨s, path, hpath⟩ := List.exists_cons_of_ne_nil (segments_ne_nil n)
      have hshown : Shown "*" n := ⟨by decide, by rw [hpath]; exact extends_nil_cons s path⟩
      have hdeleted : Deleted "*" n := by rw [Deleted, hpath]; exact extends_nil_cons s path
      exact ⟨iff_of_true hshown hdeleted, fun _ => hplain n hn hshown⟩
    · -- the deleted names are given as they are
      have hgiven : ∀ n, Deleted (front ++ "::*") n → bare n = n := fun n hdeleted =>
        bare_eq_self_iff.2 (hdeleted.not_led hled)
      refine ⟨⟨fun hshown => ?_, fun hdeleted => ?_⟩, fun hdeleted => hdeleted.not_led hled⟩
      · obtain ⟨n', -, hdeleted, hn'⟩ := (hnames n).2 ⟨hn, hshown⟩
        rw [hgiven n' hdeleted] at hn'
        exact hn' ▸ hdeleted
      · exact ((hnames n).1 ⟨n, hn, hdeleted, hgiven n hdeleted⟩).2

theorem ascending_namesRead (hm : Children.Grown m.tree) (h : isList list = true) :
    (m.namesRead list).Pairwise fun a b =>
      (segments a).compareLex compareSegments (segments b) = .lt := by
  rw [namesRead_eq m h]
  split
  · exact List.pairwise_map.2 (hm.ascending_variablesBelow _)
  · exact List.Pairwise.nil

/-- Names that are given as they are stand in the order of their segments. -/
theorem ascending_removeList (hm : Children.Grown m.tree)
    (hplain : ∀ n, m.Holds n → Deleted list n → ¬Led n) :
    (m.removeList list).1.Pairwise fun a b =>
      (segments a).compareLex compareSegments (segments b) = .lt := by
  have hgiven : ∀ e ∈ Children.variablesBelow (removalPath list) m.tree, bare e.1 = e.1 := by
    intro e he
    obtain ⟨hn, hdeleted⟩ := (mem_names_variablesBelow hm).1 ⟨e.2, he⟩
    exact bare_eq_self_iff.2 (hplain e.1 hn hdeleted)
  rw [removeList_removalPath, hm.deleteList_names, List.map_congr_left hgiven]
  exact List.pairwise_map.2 (hm.ascending_variablesBelow _)

/-- **Reading and deleting agree exactly if they mean the same variables, and none of those that are
deleted has a name that starts with a separator.** -/
theorem readsAsDeleted_iff_same (hm : Children.Grown m.tree) (h : isList list = true) :
    m.ReadsAsDeleted list ↔
      ∀ n, m.Holds n → (Shown list n ↔ Deleted list n) ∧ (Deleted list n → ¬Led n) := by
  refine ⟨fun hagrees n hn => hagrees.same hm h hn, fun hsame => ?_⟩
  have hmem : ∀ n, n ∈ (m.removeList list).1 ↔ n ∈ m.namesRead list := by
    intro n
    rw [mem_removeList hm, mem_namesRead hm h]
    constructor
    · rintro ⟨n, hn, hdeleted, rfl⟩
      rw [bare_eq_self_iff.2 ((hsame n hn).2 hdeleted)]
      exact ⟨hn, (hsame n hn).1.2 hdeleted⟩
    · rintro ⟨hn, hshown⟩
      have hdeleted := (hsame n hn).1.1 hshown
      exact ⟨n, hn, hdeleted, bare_eq_self_iff.2 ((hsame n hn).2 hdeleted)⟩
  have hremoved := ascending_removeList hm fun n hn => (hsame n hn).2
  refine ⟨eq_of_ascending hremoved (ascending_namesRead hm h) hmem, fun n => ?_, fun n => ?_⟩
  · simp only [← hmem]
    rw [removeList_removalPath, value?, Dict.get?_foldl_erase]
    rfl
  · rw [removeList_removalPath, Children.valueAt?_deleteList]
    by_cases hn : m.Holds n
    · have hiff : n ∈ m.namesRead list ↔ Extends (removalPath list) (segments n) := by
        rw [mem_namesRead hm h, (hsame n hn).1, and_iff_right hn]
        rfl
      simp only [hiff]
    · rw [Holds, not_not] at hn
      rw [hn, ite_self, ite_self]

/-! ## List names that are always understood alike -/

/-- If the last segment of a list name is `*`, the others are those of what stands before it. -/
theorem segments_front {front : String} {path : List String}
    (h : segments (front ++ "::*") = path ++ ["*"]) : segments front = path := by
  have hname := nameOf_segments (front ++ "::*")
  rw [h] at hname
  by_cases hpath : path = []
  · -- `*` alone is too short to end with `::*`
    subst hpath
    have hlen := congrArg (fun s : String => s.toList.length) hname
    have hstar : (nameOf ([] ++ ["*"])).toList.length = 1 := by decide
    simp only [String.toList_append, List.length_append] at hlen
    rw [hstar] at hlen
    have : "::*".toList.length = 3 := rfl
    omega
  · rw [nameOf_concat hpath, String.append_assoc, show "::" ++ "*" = "::*" from rfl] at hname
    have hfront : nameOf path = front := by
      have htext := congrArg String.toList hname
      rw [String.toList_append, String.toList_append] at htext
      exact String.toList_inj.1 (List.append_cancel_right htext)
    have hrow : segments (front ++ "::*") = [] ++ path ++ ["*"] := h
    rw [← hfront]
    exact segments_nameOf hrow hpath

theorem removalPath_append {front : String} (h : ¬Led (front ++ "::*")) :
    removalPath (front ++ "::*") = segments front := by
  have hne : front ++ "::*" ≠ "::*" := by
    intro heq
    rw [heq] at h
    exact h (by decide)
  rw [removalPath, if_neg hne, listPath_append]

/-- A list name without a `*` for a segment shows nothing and deletes nothing. -/
theorem same_of_not_mem (h : isList list = true) (hstar : "*" ∉ segments list) (n : String) :
    ¬Shown list n ∧ ¬Deleted list n := by
  refine ⟨fun hshown => hstar hshown.1, fun hdeleted => ?_⟩
  rcases isList_cases h with rfl | ⟨front, rfl⟩
  · exact hstar (by decide)
  · have hne : front ++ "::*" ≠ "::*" := by
      intro heq
      rw [heq] at hstar
      exact hstar (by decide)
    rw [Deleted, removalPath, if_neg hne, listPath_append] at hdeleted
    rw [(continued_of_extends hdeleted).segments_list] at hstar
    exact hstar (by simp)

/-- A list name with a `*` at its end only means the same variables, read or deleted. -/
theorem shown_iff_deleted {front : String} (hled : ¬Led (front ++ "::*"))
    (hlast : "*" ∉ (segments (front ++ "::*")).dropLast) (n : String) :
    Shown (front ++ "::*") n ↔ Deleted (front ++ "::*") n := by
  by_cases hstar : "*" ∈ segments (front ++ "::*")
  · obtain ⟨rest, hrest⟩ := exists_rest hstar
    have hnil : rest = [] := by
      by_contra hne
      rw [hrest, List.dropLast_append_of_ne_nil (List.cons_ne_nil _ _),
        List.dropLast_cons_of_ne_nil hne] at hlast
      exact hlast (by simp)
    rw [hnil] at hrest
    rw [Shown, Deleted, removalPath_append hled, segments_front hrest, and_iff_right hstar]
  · have hneither := same_of_not_mem (isList_append front) hstar n
    exact iff_of_false hneither.1 hneither.2

theorem isList_eq_false {name : String} {c : Char} (h : name.toList.getLast? = some c) (hc : c ≠ '*') :
    isList name = false := by
  rw [Bool.eq_false_iff]
  intro hlist
  rcases isList_cases hlist with rfl | ⟨front, rfl⟩
  · exact hc (Option.some.inj h).symm
  · rw [String.toList_append, List.getLast?_append] at h
    exact hc (Option.some.inj h).symm

/-- Where a list name reads there may be a variable. -/
theorem exists_shown (hstar : "*" ∈ segments list) :
    ∃ n, isList n = false ∧ segments n = readPath list ++ ["x"] ∧ Shown list n := by
  obtain ⟨rest, hrest⟩ := exists_rest hstar
  obtain ⟨n, hn, hsegments⟩ : ∃ n, isList n = false ∧ segments n = readPath list ++ ["x"] := by
    by_cases hpath : readPath list = []
    · exact ⟨"x", by decide, by rw [hpath]; decide⟩
    · have hrow : segments list = [] ++ readPath list ++ "*" :: rest := hrest
      have hname : segments (nameOf (readPath list)) = readPath list := segments_nameOf hrow hpath
      rw [← hname] at hrow
      have hcontinued := continued_of_segments hrow (List.cons_ne_nil "*" rest)
      refine ⟨nameOf (readPath list) ++ "::" ++ "x", ?_, ?_⟩
      · refine isList_eq_false (c := 'x') ?_ (by decide)
        rw [String.toList_append, List.getLast?_append]
        rfl
      · rw [hcontinued.segments_append, hname]
        rfl
  refine ⟨n, hn, hsegments, hstar, ?_⟩
  rw [hsegments]
  exact extends_iff.2 ⟨["x"], by simp, rfl⟩

theorem holds_of_set {name : String} (h : isList name = false) (v : Value) :
    (ofChanges [.set name (some v)]).Holds name := by
  have htree : (ofChanges [.set name (some v)]).tree = Children.set (segments name) (some v) [] := by
    simp only [ofChanges, List.foldl_cons, List.foldl_nil, change, VariableMap.set, h,
      if_neg Bool.false_ne_true]
    rfl
  rw [Holds, htree, Children.valueAt?_set none (segments_ne_nil name), if_pos rfl]
  exact Option.some_ne_none v

/-- **The list names that are always understood alike** are those that read nothing, and those that have
their only `*` at the end of a name that does not start with a separator. -/
theorem always_readsAsDeleted_iff (h : isList list = true) :
    (∀ changes, (ofChanges changes).ReadsAsDeleted list) ↔
      ("*" ∈ segments list → ¬Led list ∧ list ≠ "*" ∧ "*" ∉ (segments list).dropLast) := by
  constructor
  · intro halways hstar
    have hsame : ∀ n, isList n = false →
        (Shown list n ↔ Deleted list n) ∧ (Deleted list n → ¬Led n) := fun n hn =>
      (readsAsDeleted_iff_same (grown_ofChanges _) h).1 (halways [.set n (some (.boolean true))]) n
        (holds_of_set hn _)
    obtain ⟨n, hn, hsegments, hshown⟩ := exists_shown hstar
    have hdeleted := (hsame n hn).1.1 hshown
    have hled : ¬Led list := fun hled => (hsame n hn).2 hdeleted (hshown.led hled)
    have hall : list ≠ "*" := by
      rintro rfl
      have hdeleted : Deleted "*" "::x" := by
        show Extends [] _
        decide
      exact (hsame "::x" (by decide)).2 hdeleted (by decide)
    refine ⟨hled, hall, fun hlast => ?_⟩
    obtain ⟨front, rfl⟩ := (isList_cases h).resolve_left hall
    rw [Deleted, removalPath_append hled, hsegments] at hdeleted
    -- what is deleted lies at or above what is read, so that the first `*` is the last segment
    have hbegins : segments front <+: readPath (front ++ "::*") := by
      obtain ⟨hbegins, hlen⟩ := hdeleted
      refine List.prefix_of_prefix_length_le hbegins (List.prefix_append _ _) ?_
      rw [List.length_append, List.length_singleton] at hlen
      omega
    obtain ⟨rest, hrest⟩ := exists_rest hstar
    have hcontinued : Continued front := by
      obtain ⟨more, hmore⟩ := hbegins
      have hrow : segments (front ++ "::*") = [] ++ segments front ++ (more ++ "*" :: rest) := by
        rw [hrest, ← hmore, List.nil_append, List.append_assoc]
      exact continued_of_segments hrow (by simp)
    rw [hcontinued.segments_list, List.dropLast_concat] at hlast
    exact not_mem_readPath _ (hbegins.subset hlast)
  · intro hgood changes
    refine (readsAsDeleted_iff_same (grown_ofChanges changes) h).2 fun n _ => ?_
    by_cases hstar : "*" ∈ segments list
    · obtain ⟨hled, hall, hlast⟩ := hgood hstar
      obtain ⟨front, rfl⟩ := (isList_cases h).resolve_left hall
      exact ⟨shown_iff_deleted hled hlast n, fun hdeleted => hdeleted.not_led hled⟩
    · have hneither := same_of_not_mem h hstar n
      exact ⟨iff_of_false hneither.1 hneither.2, fun hdeleted => absurd hdeleted hneither.2⟩

/-- **When a list is deleted as it is read.** After any history a list name shows some of the variables
and deletes some, and both come to the same exactly if these are the same and none of them has a name
that starts with a separator. There are histories after which they are not, unless the list name reads
nothing, or does not start with a separator and has its only `*` at the end, with something before
it. -/
theorem readsAsDeleted_iff (h : isList list = true) :
    (∀ changes : List Change,
      ((ofChanges changes).set list none).value = ((ofChanges changes).removeList list).2 ∧
      ((ofChanges changes).ReadsAsDeleted list ↔
        ∀ n, (ofChanges changes).Holds n →
          (Shown list n ↔ Deleted list n) ∧ (Deleted list n → ¬Led n))) ∧
    ((∀ changes, (ofChanges changes).ReadsAsDeleted list) ↔
      ("*" ∈ segments list → ¬Led list ∧ list ≠ "*" ∧ "*" ∉ (segments list).dropLast)) := by
  refine ⟨fun changes => ⟨?_, readsAsDeleted_iff_same (grown_ofChanges changes) h⟩,
    always_readsAsDeleted_iff h⟩
  rw [VariableMap.set, if_pos h]
  rfl

end

/-- Deleting `home::*` gives the names of what it shows, and leaves `home` and `homes::1`. -/
theorem readsAsDeleted_iff_home :
    isList "home::*" = true ∧
    (ofChanges [.set "home" (some (.boolean true)), .set "home::10" (some (.boolean true)),
      .set "home::9::x" (some (.boolean false)), .set "homes::1" (some (.boolean true)),
      .set "::home::3" (some (.boolean true))]).ReadsAsDeleted "home::*" :=
  ⟨by decide, (readsAsDeleted_iff (by decide)).2.2 (fun _ => by decide) _⟩

/-- There is no list at `::*`, but to delete it deletes all variables. -/
theorem removeList_without_front_removes_all :
    let m := ofChanges [.set "a" (some (.boolean true)), .set "b::c" (some (.boolean false))]
    isList "::*" = true ∧ m.get? "::*" = none ∧ (m.removeList "::*").1 = ["a", "b::c"] ∧
      ¬m.ReadsAsDeleted "::*" := by
  intro m
  have hremoved : (m.removeList "::*").1 = ["a", "b::c"] := by rfl
  have hread : m.get? "::*" = none := by rfl
  refine ⟨by decide, hread, hremoved, fun hsame => ?_⟩
  have hnames := hsame.names
  rw [hremoved, namesRead, hread] at hnames
  cases hnames

end ScriptStore.VariableMap
