import ScriptStore.Proofs.Text.Cutting
import ScriptStore.Variables.Tree

/-!
# Names and their segments

A name is read off its segments, so different names have different segments. Going down the tree
the full name is put together again one segment at a time; that gives the name back as long as
its first segment is not empty.
-/

namespace ScriptStore.Variables

/-! ## Segments -/

theorem segmentsOf_ne_nil (cs : List Char) : segmentsOf cs ≠ [] := by
  fun_cases segmentsOf cs <;> simp_all

/-- The segments with `::` before each but the first are the name. -/
theorem segmentsOf_eq_cons {cs s : List Char} {more : List (List Char)}
    (h : segmentsOf cs = s :: more) : s ++ more.flatMap ("::".toList ++ ·) = cs := by
  fun_induction segmentsOf cs generalizing s more with
  | case1 =>
    cases h
    rfl
  | case2 rest ih =>
    cases h
    cases hrest : segmentsOf rest with
    | nil => exact absurd hrest (segmentsOf_ne_nil rest)
    | cons t ts => rw [List.nil_append, List.flatMap_cons, List.append_assoc, ih hrest]; rfl
  | case3 c rest _ hrest => exact absurd hrest (segmentsOf_ne_nil rest)
  | case4 c rest _ t ts hrest ih =>
    cases h
    rw [List.cons_append, ih hrest]

theorem segments_ne_nil (name : String) : segments name ≠ [] := by
  simp [segments, segmentsOf_ne_nil]

theorem toList_eq_of_segments {name s : String} {more : List String}
    (h : segments name = s :: more) :
    name.toList = s.toList ++ more.flatMap fun t => "::".toList ++ t.toList := by
  obtain ⟨cs, rest, hcs, rfl, rfl⟩ := List.map_eq_cons_iff.1 h
  rw [← segmentsOf_eq_cons hcs]
  simp [List.flatMap_map]

theorem segments_inj {a b : String} (h : segments a = segments b) : a = b := by
  obtain ⟨s, more, hs⟩ := List.exists_cons_of_ne_nil (segments_ne_nil a)
  have hb : segments b = s :: more := h ▸ hs
  apply String.toList_inj.1
  rw [toList_eq_of_segments hs, toList_eq_of_segments hb]

/-! ## Full names -/

theorem toList_foldl_childName {front : String} (h : front ≠ "") (path : List String) :
    (path.foldl childName front).toList
      = front.toList ++ path.flatMap fun t => "::".toList ++ t.toList := by
  induction path generalizing front with
  | nil => simp
  | cons s path ih =>
    have hchild : childName front s = front ++ "::" ++ s := by simp [childName, h]
    have hne : childName front s ≠ "" := by
      intro he
      simp [hchild, h] at he
    rw [List.foldl_cons, ih hne, hchild]
    simp

/-- The full name of the place that a name's segments lead to is the name. -/
theorem foldl_childName_segments {name : String} (h : (segments name).head? ≠ some "") :
    (segments name).foldl childName "" = name := by
  obtain ⟨s, more, hs⟩ := List.exists_cons_of_ne_nil (segments_ne_nil name)
  have hne : s ≠ "" := by
    rintro rfl
    exact h (by rw [hs]; rfl)
  apply String.toList_inj.1
  rw [hs, List.foldl_cons, toList_eq_of_segments hs]
  exact toList_foldl_childName hne more

/-! ## Names of lists -/

theorem listFront?_eq_some {name front : String} :
    listFront? name = some front ↔ name = front ++ "::*" := by
  simp only [listFront?, Option.map_eq_some_iff, Text.dropBack?_eq_some]
  constructor
  · rintro ⟨cs, hcs, rfl⟩
    apply String.toList_inj.1
    simpa using hcs
  · rintro rfl
    exact ⟨front.toList, by simp, by simp⟩

/-- The segments of a list: those before the `*`. -/
def listPath (name : String) : List String := ((listFront? name).map segments).getD []

theorem listPath_append (front : String) : listPath (front ++ "::*") = segments front := by
  simp [listPath, listFront?_eq_some.2]

end ScriptStore.Variables
