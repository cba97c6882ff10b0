import ScriptStore.Proofs.Variables.Refinement

/-!
# Full names

The segments of a name with `::` between them are the name (`nameOf_segments`). The tree does not put
names together like that: on the way down it joins a segment to the full name so far, and takes an
empty name for none at all. What it comes to is the name without the separators at its front
(`foldl_childName_eq_bare`), so that only a name that starts with `::` is changed.

Where one name goes on after another with `::`, its segments are those of both, unless the first ends
with a colon that is part of a segment: then the separator is found one place too early. Such a segment
is always the last one, so nothing is ever found below it.
-/

namespace ScriptStore.Variables

/-! ## Segments put together -/

/-- The name of which these are the segments. -/
def nameOf (path : List String) : String := Text.join "::" path

theorem toList_nameOf_cons (s : String) (path : List String) :
    (nameOf (s :: path)).toList = s.toList ++ path.flatMap fun t => "::".toList ++ t.toList := by
  induction path generalizing s with
  | nil => simp [nameOf, Text.join]
  | cons t path ih =>
    rw [nameOf, Text.join, String.toList_intercalate, List.map_cons, List.map_cons,
      List.intercalate_cons_cons, ← List.map_cons, ← String.toList_intercalate, ← Text.join,
      ← nameOf, ih, List.flatMap_cons]
    simp only [List.append_assoc]

theorem nameOf_segments (name : String) : nameOf (segments name) = name := by
  obtain ⟨s, more, hs⟩ := List.exists_cons_of_ne_nil (segments_ne_nil name)
  apply String.toList_inj.1
  rw [hs, toList_nameOf_cons, toList_eq_of_segments hs]

theorem nameOf_concat {path : List String} (h : path ≠ []) (s : String) :
    nameOf (path ++ [s]) = nameOf path ++ "::" ++ s := by
  obtain ⟨t, path, rfl⟩ := List.exists_cons_of_ne_nil h
  apply String.toList_inj.1
  rw [List.cons_append, toList_nameOf_cons, List.flatMap_append, String.toList_append,
    String.toList_append, toList_nameOf_cons]
  simp

/-! ## Separators at the front -/

/-- Drops the separators at the front. -/
def bareOf : List Char → List Char
  | ':' :: ':' :: rest => bareOf rest
  | cs => cs

/-- A name without the separators at its front. -/
def bare (name : String) : String := String.ofList (bareOf name.toList)

/-- Whether a name starts with a separator. -/
def Led (name : String) : Prop := "::".toList <+: name.toList

instance (name : String) : Decidable (Led name) :=
  inferInstanceAs (Decidable ("::".toList <+: name.toList))

theorem led_iff {name : String} : Led name ↔ ∃ rest, name.toList = ':' :: ':' :: rest := by
  constructor
  · rintro ⟨rest, h⟩
    exact ⟨rest, h.symm⟩
  · rintro ⟨rest, h⟩
    exact ⟨rest, h.symm⟩

theorem bareOf_of_not_led {cs : List Char} (h : ∀ rest, cs ≠ ':' :: ':' :: rest) : bareOf cs = cs := by
  fun_cases bareOf cs with
  | case1 rest => exact absurd rfl (h rest)
  | case2 => rfl

theorem bareOf_ne (cs rest : List Char) : bareOf cs ≠ ':' :: ':' :: rest := by
  fun_induction bareOf cs with
  | case1 cs ih => exact ih
  | case2 cs h => exact h rest

theorem not_led_bare (name : String) : ¬Led (bare name) := by
  intro h
  obtain ⟨rest, hrest⟩ := led_iff.1 h
  rw [bare, String.toList_ofList] at hrest
  exact bareOf_ne _ rest hrest

/-- **A name is changed by leaving out the separators at its front exactly if it has some.** -/
theorem bare_eq_self_iff {name : String} : bare name = name ↔ ¬Led name := by
  constructor
  · intro h
    rw [← h]
    exact not_led_bare name
  · intro h
    rw [bare, bareOf_of_not_led fun rest hrest => h (led_iff.2 ⟨rest, hrest⟩), String.ofList_toList]

theorem segments_led {name : String} {rest : List Char} (h : name.toList = ':' :: ':' :: rest) :
    segments name = "" :: segments (String.ofList rest) := by
  simp only [segments, h, segmentsOf, List.map_cons, String.toList_ofList, String.ofList_nil]

/-- A name that starts with a separator has an empty segment at its front, and others behind it. -/
theorem led_iff_segments {name : String} :
    Led name ↔ ∃ s path, segments name = "" :: s :: path := by
  constructor
  · intro h
    obtain ⟨rest, hrest⟩ := led_iff.1 h
    obtain ⟨s, path, hpath⟩ := List.exists_cons_of_ne_nil (segments_ne_nil (String.ofList rest))
    exact ⟨s, path, by rw [segments_led hrest, hpath]⟩
  · rintro ⟨s, path, h⟩
    have hname := toList_eq_of_segments h
    rw [List.flatMap_cons] at hname
    exact led_iff.2 ⟨_, hname⟩

/-- What the tree makes of the segments of a name: the name without the separators at its front. -/
theorem foldl_childName_eq_bare (name : String) : (segments name).foldl childName "" = bare name := by
  suffices h : ∀ cs : List Char,
      (segments (String.ofList cs)).foldl childName "" = String.ofList (bareOf cs) by
    have hname := h name.toList
    rwa [String.ofList_toList] at hname
  intro cs
  fun_induction bareOf cs with
  | case1 rest ih =>
    -- an empty segment in front leaves the full name empty
    rw [segments_led (String.toList_ofList (l := _)), List.foldl_cons]
    exact ih
  | case2 cs hcs =>
    by_cases hhead : (segments (String.ofList cs)).head? = some ""
    · -- the only segment is empty, and so is the name
      obtain ⟨more, hmore⟩ : ∃ more, segments (String.ofList cs) = "" :: more := by
        obtain ⟨s, more, hs⟩ := List.exists_cons_of_ne_nil (segments_ne_nil (String.ofList cs))
        rw [hs] at hhead
        cases hhead
        exact ⟨more, hs⟩
      cases more with
      | nil =>
        have hempty := toList_eq_of_segments hmore
        rw [String.toList_ofList] at hempty
        rw [hmore, hempty]
        rfl
      | cons s path =>
        obtain ⟨rest, hrest⟩ := led_iff.1 (led_iff_segments.2 ⟨s, path, hmore⟩)
        rw [String.toList_ofList] at hrest
        exact absurd hrest (hcs rest)
    · exact foldl_childName_segments hhead

/-! ## Names that go on after others -/

/-- A character that does not start a separator belongs to the first segment. -/
theorem segmentsOf_cons {c : Char} {cs s : List Char} {rest : List (List Char)}
    (h : ∀ more, c = ':' → cs ≠ ':' :: more) (hcs : segmentsOf cs = s :: rest) :
    segmentsOf (c :: cs) = (c :: s) :: rest := by
  rw [segmentsOf.eq_3 c cs h, hcs]

/-- At every segment of a name starts a name. -/
theorem exists_segmentsOf_from {cs s : List Char} {front rest : List (List Char)}
    (h : segmentsOf cs = front ++ s :: rest) : ∃ more, segmentsOf more = s :: rest := by
  fun_induction segmentsOf cs generalizing front with
  | case1 =>
    cases front with
    | nil => exact ⟨[], h⟩
    | cons t front => simp at h
  | case2 cs ih =>
    cases front with
    | nil => exact ⟨':' :: ':' :: cs, h⟩
    | cons t front => exact ih (List.cons.inj h).2
  | case3 c cs _ hnil => exact absurd hnil (segmentsOf_ne_nil cs)
  | case4 c cs hsep t ts hcs ih =>
    cases front with
    | nil => exact ⟨c :: cs, (segmentsOf_cons hsep hcs).trans h⟩
    | cons u front =>
      have hbehind : segmentsOf cs = (t :: front) ++ s :: rest := by
        rw [hcs, (List.cons.inj h).2]
        rfl
      exact ih hbehind

/-- A segment that others follow does not end with a colon. -/
theorem getLast?_ne_colon {cs s : List Char} {front rest : List (List Char)}
    (h : segmentsOf cs = front ++ s :: rest) (hrest : rest ≠ []) : s.getLast? ≠ some ':' := by
  obtain ⟨more, hmore⟩ := exists_segmentsOf_from h
  clear h
  fun_induction segmentsOf more generalizing s with
  | case1 => exact absurd (List.cons.inj hmore).2.symm hrest
  | case2 cs _ =>
    obtain ⟨rfl, -⟩ := List.cons.inj hmore
    simp
  | case3 c cs _ hnil => exact absurd hnil (segmentsOf_ne_nil cs)
  | case4 c cs hsep t ts hcs ih =>
    obtain ⟨rfl, rfl⟩ := List.cons.inj hmore
    cases t with
    | cons d t =>
      rw [List.getLast?_cons_cons]
      exact ih hcs
    | nil =>
      -- after a single character comes a separator, so that it is no colon itself
      intro hc
      obtain ⟨u, us, rfl⟩ := List.exists_cons_of_ne_nil hrest
      have htext := segmentsOf_eq_cons hcs
      rw [List.nil_append, List.flatMap_cons] at htext
      simp only [List.getLast?_singleton, Option.some.injEq] at hc
      exact hsep _ hc htext.symm

/-- The segments of a name that goes on after another are those of both. -/
theorem segmentsOf_append {cs : List Char}
    (h : ∀ front s, segmentsOf cs = front ++ [s] → s.getLast? ≠ some ':') (rest : List Char) :
    segmentsOf (cs ++ "::".toList ++ rest) = segmentsOf cs ++ segmentsOf rest := by
  fun_induction segmentsOf cs with
  | case1 => rfl
  | case2 cs ih =>
    have ih := ih fun front s hs => h ([] :: front) s (by rw [hs]; rfl)
    exact congrArg ([] :: ·) ih
  | case3 c cs _ hnil => exact absurd hnil (segmentsOf_ne_nil cs)
  | case4 c cs hsep t ts hcs ih =>
    have ih := ih fun front s hs => by
      rw [hcs] at hs
      cases front with
      | cons u front =>
        obtain ⟨rfl, rfl⟩ := List.cons.inj hs
        exact h ((c :: t) :: front) s rfl
      | nil =>
        obtain ⟨rfl, rfl⟩ := List.cons.inj hs
        have hlast := h [] (c :: t) rfl
        cases t with
        | nil => simp
        | cons d t => rwa [List.getLast?_cons_cons] at hlast
    -- the separator behind does not come to stand one colon earlier: the name ends in none
    have hkeeps : ∀ more, c = ':' → cs ++ "::".toList ++ rest ≠ ':' :: more := by
      rintro more rfl hmore
      cases cs with
      | nil =>
        cases hcs
        exact h [] [':'] rfl rfl
      | cons d cs =>
        obtain ⟨rfl, -⟩ := List.cons.inj hmore
        exact hsep cs rfl rfl
    rw [hcs, List.cons_append] at ih
    exact segmentsOf_cons hkeeps ih

/-- After a name that ends with a colon the separator is found one place earlier. -/
theorem segmentsOf_append_colon {cs s : List Char} {front : List (List Char)}
    (h : segmentsOf cs = front ++ [s ++ [':']]) (rest : List Char) :
    segmentsOf (cs ++ "::".toList ++ rest) = front ++ s :: segmentsOf (':' :: rest) := by
  fun_induction segmentsOf cs generalizing front s with
  | case1 =>
    cases front with
    | nil => simp at h
    | cons t front => simp at h
  | case2 cs ih =>
    cases front with
    | nil => simp at h
    | cons t front =>
      obtain ⟨rfl, hbehind⟩ := List.cons.inj h
      exact congrArg ([] :: ·) (ih hbehind)
  | case3 c cs _ hnil => exact absurd hnil (segmentsOf_ne_nil cs)
  | case4 c cs hsep t ts hcs ih =>
    have htext := segmentsOf_eq_cons hcs
    -- a colon before other characters starts no separator now if it did not before
    have hkeeps : cs ≠ [] → ∀ more, c = ':' → cs ++ "::".toList ++ rest ≠ ':' :: more := by
      intro hne more hc hmore
      obtain ⟨d, cs, rfl⟩ := List.exists_cons_of_ne_nil hne
      obtain ⟨rfl, -⟩ := List.cons.inj hmore
      exact hsep cs hc rfl
    rw [List.cons_append, List.cons_append]
    cases front with
    | cons u front =>
      obtain ⟨rfl, rfl⟩ := List.cons.inj h
      have hbehind : segmentsOf cs = (t :: front) ++ [s ++ [':']] := hcs
      have hne : cs ≠ [] := by
        rintro rfl
        simp [segmentsOf] at hbehind
      exact segmentsOf_cons (hkeeps hne) (ih hbehind)
    | nil =>
      obtain ⟨hs, rfl⟩ := List.cons.inj h
      cases s with
      | nil =>
        -- the colon is all that there is
        obtain ⟨rfl, rfl⟩ := List.cons.inj hs
        obtain rfl : cs = [] := htext.symm
        rfl
      | cons d s =>
        obtain ⟨rfl, rfl⟩ := List.cons.inj hs
        have hfirst : segmentsOf cs = [] ++ [s ++ [':']] := hcs
        have hne : cs ≠ [] := by
          rintro rfl
          simp [segmentsOf] at hfirst
        exact segmentsOf_cons (hkeeps hne) (ih hfirst)

/-- A segment has no separator in it. -/
theorem segmentsOf_segment {cs s : List Char} {front rest : List (List Char)}
    (h : segmentsOf cs = front ++ s :: rest) : segmentsOf s = [s] := by
  obtain ⟨more, hmore⟩ := exists_segmentsOf_from h
  clear h
  fun_induction segmentsOf more generalizing s rest with
  | case1 =>
    obtain ⟨rfl, -⟩ := List.cons.inj hmore
    rfl
  | case2 cs _ =>
    obtain ⟨rfl, -⟩ := List.cons.inj hmore
    rfl
  | case3 c cs _ hnil => exact absurd hnil (segmentsOf_ne_nil cs)
  | case4 c cs hsep t ts hcs ih =>
    obtain ⟨rfl, rfl⟩ := List.cons.inj hmore
    have hnotsep : ∀ more, c = ':' → t ≠ ':' :: more := by
      intro more hc ht
      have htext := segmentsOf_eq_cons hcs
      rw [ht] at htext
      exact hsep _ hc htext.symm
    exact segmentsOf_cons hnotsep (ih hcs)

theorem exists_segmentsOf {name s : String} {front rest : List String}
    (h : segments name = front ++ s :: rest) :
    ∃ front' rest', segmentsOf name.toList = front' ++ s.toList :: rest' ∧
      rest = rest'.map String.ofList := by
  obtain ⟨front', back, hsegments, rfl, hback⟩ := List.map_eq_append_iff.1 h
  obtain ⟨cs, rest', rfl, rfl, rfl⟩ := List.map_eq_cons_iff.1 hback
  exact ⟨front', rest', by rw [hsegments, String.toList_ofList], rfl⟩

theorem segments_segment {name s : String} {front rest : List String}
    (h : segments name = front ++ s :: rest) : segments s = [s] := by
  obtain ⟨front', rest', hsegments, -⟩ := exists_segmentsOf h
  rw [segments, segmentsOf_segment hsegments, List.map_singleton, String.ofList_toList]

/-- Whether a name may be gone on after: its last segment does not end with a colon. -/
def Continued (name : String) : Prop :=
  ∀ front s, segments name = front ++ [s] → s.toList.getLast? ≠ some ':'

theorem Continued.segments_append {name : String} (h : Continued name) (rest : String) :
    segments (name ++ "::" ++ rest) = segments name ++ segments rest := by
  simp only [segments, String.toList_append]
  rw [segmentsOf_append (fun front s hs => ?_), List.map_append]
  have hlast := h (front.map String.ofList) (String.ofList s) (by rw [segments, hs, List.map_append]; rfl)
  rwa [String.toList_ofList] at hlast

theorem Continued.segments_list {name : String} (h : Continued name) :
    segments (name ++ "::*") = segments name ++ ["*"] := by
  have hname : name ++ "::*" = name ++ "::" ++ "*" := by
    rw [String.append_assoc]
    rfl
  rw [hname, h.segments_append]
  rfl

/-- A name that may not be gone on after ends with a segment that ends with a colon. The list of such a
name has that colon before its `*`. -/
theorem segments_list_of_not_continued {name : String} (h : ¬Continued name) :
    ∃ front s, segments name = front ++ [s ++ ":"] ∧ segments (name ++ "::*") = front ++ [s, ":*"] := by
  simp only [Continued, not_forall, not_not] at h
  obtain ⟨front, s, hs, hcolon⟩ := h
  obtain ⟨cs, hcs⟩ := List.getLast?_eq_some_iff.1 hcolon
  obtain ⟨front', rest', hsegments, hnil⟩ := exists_segmentsOf hs
  obtain rfl : rest' = [] := List.map_eq_nil_iff.1 hnil.symm
  have hs' : s = String.ofList cs ++ ":" := by
    apply String.toList_inj.1
    rw [hcs, String.toList_append, String.toList_ofList]
    rfl
  have hfront : front = front'.map String.ofList := by
    rw [segments, hsegments, List.map_append] at hs
    exact (List.append_cancel_right (hs.trans (by simp))).symm
  refine ⟨front, String.ofList cs, by rw [hs, hs'], ?_⟩
  rw [hcs] at hsegments
  have hlist := segmentsOf_append_colon hsegments ['*']
  rw [segments, String.toList_append]
  show (segmentsOf (name.toList ++ ("::".toList ++ ['*']))).map String.ofList = _
  rw [← List.append_assoc, hlist, List.map_append, ← hfront]
  rfl

/-- Segments that others follow are those of a name that may be gone on after. -/
theorem continued_of_segments {name other : String} {front rest : List String}
    (h : segments other = front ++ segments name ++ rest) (hrest : rest ≠ []) : Continued name := by
  intro init s hs
  rw [hs, ← List.append_assoc, List.append_assoc, List.singleton_append] at h
  obtain ⟨front', rest', hsegments, rfl⟩ := exists_segmentsOf h
  refine getLast?_ne_colon hsegments ?_
  rintro rfl
  exact hrest rfl

/-- A path that leads below a name goes on after it with a separator. -/
theorem continued_of_extends {name other : String} (h : Extends (segments name) (segments other)) :
    Continued name := by
  obtain ⟨rest, hrest, hother⟩ := extends_iff.1 h
  rw [← List.nil_append (segments name)] at hother
  exact continued_of_segments hother hrest

/-- Segments that stand in a row in some name are the segments of a name. -/
theorem segments_nameOf {name : String} {front path rest : List String}
    (h : segments name = front ++ path ++ rest) (hpath : path ≠ []) : segments (nameOf path) = path := by
  induction path generalizing front with
  | nil => exact absurd rfl hpath
  | cons s path ih =>
    have hs : segments s = [s] := by
      rw [List.append_assoc] at h
      exact segments_segment h
    cases path with
    | nil =>
      have hname : nameOf [s] = s := by rw [nameOf, Text.join, String.intercalate_singleton]
      rw [hname, hs]
    | cons t path =>
      have hrow : segments name = front ++ segments s ++ (t :: path ++ rest) := by
        rw [h, hs]
        simp
      have hcontinued : Continued s := continued_of_segments hrow (by simp)
      have hname : nameOf (s :: t :: path) = s ++ "::" ++ nameOf (t :: path) :=
        String.intercalate_cons_cons
      rw [hs, ← List.append_assoc] at hrow
      rw [hname, hcontinued.segments_append, hs, ih hrow (List.cons_ne_nil t path)]
      rfl

/-! ## Variables by their full names -/

namespace Children

/-- Whether a tree is in order, and has values at the paths of names only. -/
structure Grown (cs : Children) : Prop where
  tidy : Tidy cs
  named : ∀ path x, (Variable.list none cs).valueAt? path = some x → ∃ n, path = segments n

theorem Grown.nil : Grown [] := ⟨.nil, fun path x h => by simp at h⟩

theorem Grown.set {cs : Children} (h : Grown cs) (name : String) (v : Option Value) :
    Grown (set (segments name) v cs) := by
  refine ⟨h.tidy.set _ v, fun path x hx => ?_⟩
  rw [valueAt?_set none (segments_ne_nil name)] at hx
  split at hx
  · next hpath => exact ⟨name, hpath⟩
  · exact h.named path x hx

theorem Grown.deleteList {cs : Children} (h : Grown cs) (path : List String) (front : String) :
    Grown (deleteList path front cs).2 := by
  refine ⟨h.tidy.deleteList path front, fun p x hx => ?_⟩
  rw [valueAt?_deleteList, Option.ite_none_left_eq_some] at hx
  exact h.named p x hx.2

/-- The variables below a path in a tree, with their full names. -/
def variablesBelow (path : List String) (cs : Children) : List (String × Value) :=
  (located (below path cs)).map fun e => (nameOf (path ++ e.1), e.2)

/-- The path of a value is that of its full name. -/
theorem Grown.segments_nameOf {cs : Children} (h : Grown cs) {path : List String} {x : Value}
    (hx : (Variable.list none cs).valueAt? path = some x) : segments (nameOf path) = path := by
  obtain ⟨n, rfl⟩ := h.named path x hx
  rw [nameOf_segments]

theorem Grown.mem_variablesBelow {cs : Children} (h : Grown cs) {path : List String} {n : String}
    {x : Value} : (n, x) ∈ variablesBelow path cs ↔
      Extends path (segments n) ∧ (Variable.list none cs).valueAt? (segments n) = some x := by
  rw [variablesBelow, List.mem_map]
  constructor
  · rintro ⟨⟨rest, y⟩, hmem, heq⟩
    obtain ⟨hrest, hy⟩ := (VariableMap.mem_located_below h.tidy).1 hmem
    cases heq
    rw [h.segments_nameOf hy]
    exact ⟨extends_iff.2 ⟨rest, hrest, rfl⟩, hy⟩
  · rintro ⟨hext, hx⟩
    obtain ⟨rest, hrest, hsegments⟩ := extends_iff.1 hext
    rw [hsegments] at hx
    refine ⟨(rest, x), (VariableMap.mem_located_below h.tidy).2 ⟨hrest, hx⟩, ?_⟩
    rw [← hsegments, nameOf_segments]

theorem Grown.ascending_variablesBelow {cs : Children} (h : Grown cs) (path : List String) :
    (variablesBelow path cs).Pairwise fun a b =>
      (segments a.1).compareLex compareSegments (segments b.1) = .lt := by
  refine List.pairwise_map.2 ((h.tidy.ofBelow path).ascending.imp_of_mem fun {a b} ha hb hab => ?_)
  rw [h.segments_nameOf ((VariableMap.mem_located_below h.tidy).1 ha).2,
    h.segments_nameOf ((VariableMap.mem_located_below h.tidy).1 hb).2, compareLex_append_left]
  exact hab

/-- **The names that deleting a list gives** are those of the variables below it, without the separators
at their fronts. -/
theorem Grown.deleteList_names {cs : Children} (h : Grown cs) (path : List String) :
    (Children.deleteList path "" cs).1 = (variablesBelow path cs).map fun e => bare e.1 := by
  rw [VariableMap.removed_eq, variablesBelow, List.map_map]
  refine List.map_congr_left fun e he => ?_
  obtain ⟨-, hx⟩ := (VariableMap.mem_located_below h.tidy).1 he
  obtain ⟨n, hn⟩ := h.named _ _ hx
  dsimp only [Function.comp_apply]
  rw [hn, foldl_childName_eq_bare, nameOf_segments]

/-- **The entries of a tree** are its variables, without the separators at the fronts of their names. -/
theorem Grown.entries_eq {cs : Children} (h : Grown cs) :
    entries "" cs = (variablesBelow [] cs).map fun e => (bare e.1, e.2) := by
  rw [Children.entries_eq, variablesBelow, List.map_map]
  refine List.map_congr_left fun e he => ?_
  obtain ⟨n, hn⟩ := h.named _ _ (h.tidy.mem_located.1 he)
  dsimp only [Function.comp_apply]
  rw [List.nil_append, hn, foldl_childName_eq_bare, nameOf_segments]

end Children

end ScriptStore.Variables

namespace ScriptStore.VariableMap

open Variables

/-- Whatever is done to a map of variables, its tree stays in order. -/
theorem grown_change {m : VariableMap} (h : Children.Grown m.tree) (c : Change) :
    Children.Grown (m.change c).tree := by
  have hremove : ∀ list, Children.Grown (m.removeList list).2.tree := fun list => h.deleteList _ _
  cases c with
  | clear => exact .nil
  | removeList list => exact hremove list
  | set name v =>
    simp only [VariableMap.change, VariableMap.set]
    cases isList name with
    | false => exact h.set name v
    | true =>
      cases v with
      | none => exact hremove name
      | some x => exact h

theorem grown_ofChanges (changes : List Change) : Children.Grown (ofChanges changes).tree := by
  suffices h : ∀ m : VariableMap, Children.Grown m.tree →
      Children.Grown (changes.foldl change m).tree from h {} .nil
  induction changes with
  | nil => exact fun m h => h
  | cons c changes ih => exact fun m h => ih _ (grown_change h c)

end ScriptStore.VariableMap
