import Mathlib.Data.List.TakeWhile
import ScriptStore.Text.Blank
import ScriptStore.Text.Split

/-!
# Trimming and cutting text

What the cuts of a text give when its parts are known: blanks at either end are trimmed away, a
text between two characters that are not blank is left as it is, and a text is cut at the first
place where a separator stands, or at all of them.
-/

namespace ScriptStore.Text

/-! ## Trimming -/

theorem trimStart_append {a : List Char} (h : ∀ c ∈ a, isBlank c = true) (b : List Char) :
    trimStart (a ++ b) = trimStart b :=
  List.dropWhile_append_of_pos h

theorem trimEnd_append {b : List Char} (h : ∀ c ∈ b, isBlank c = true) (a : List Char) :
    trimEnd (a ++ b) = trimEnd a := by
  rw [trimEnd, List.reverse_append, List.dropWhile_append_of_pos (by simpa using h), ← trimEnd]

/-- Whether a text has content up to both its ends. -/
def Tight (s : List Char) : Prop :=
  (∃ c, s.head? = some c ∧ isBlank c = false) ∧ ∃ c, s.getLast? = some c ∧ isBlank c = false

theorem dropWhile_of_head {p : Char → Bool} {s : List Char} {c : Char} (hs : s.head? = some c)
    (hc : p c = false) : s.dropWhile p = s := by
  cases s with
  | nil => simp at hs
  | cons d s =>
    cases hs
    exact List.dropWhile_cons_of_neg (by simp [hc])

theorem Tight.trim_eq {s : List Char} (h : Tight s) : trim s = s := by
  obtain ⟨⟨c, hc, hc'⟩, d, hd, hd'⟩ := h
  have hstart : trimStart s = s := dropWhile_of_head hc hc'
  rw [trim, hstart, trimEnd, dropWhile_of_head (by simpa using hd) hd', List.reverse_reverse]

/-- Blanks around a text that has content up to its ends are trimmed away. -/
theorem Tight.trim_between {a s b : List Char} (h : Tight s) (ha : ∀ c ∈ a, isBlank c = true)
    (hb : ∀ c ∈ b, isBlank c = true) : trim (a ++ s ++ b) = s := by
  obtain ⟨⟨c, hc, hc'⟩, _⟩ := id h
  have hstart : trimStart (s ++ b) = s ++ b :=
    dropWhile_of_head (by rw [List.head?_append, hc]; rfl) hc'
  have hend : trimEnd s = s := by
    have htrim := h.trim_eq
    rwa [trim, show trimStart s = s from dropWhile_of_head hc hc'] at htrim
  rw [trim, List.append_assoc, trimStart_append ha, hstart, trimEnd_append hb, hend]

theorem head?_dropWhile {p : Char → Bool} {s : List Char} {c : Char}
    (h : (s.dropWhile p).head? = some c) : p c = false := by
  have hnot := List.head?_dropWhile_not p s
  rwa [h] at hnot

theorem trimEnd_isPrefix (s : List Char) : trimEnd s <+: s := by
  obtain ⟨t, ht⟩ := List.dropWhile_suffix isBlank (l := s.reverse)
  exact ⟨t.reverse, by rw [trimEnd, ← List.reverse_append, ht, List.reverse_reverse]⟩

/-- What is left of a text after trimming has content up to its ends, if anything is left. -/
theorem tight_trim {s : List Char} (h : trim s ≠ []) : Tight (trim s) := by
  constructor
  · obtain ⟨t, ht⟩ := trimEnd_isPrefix (trimStart s)
    obtain ⟨c, rest, hc⟩ := List.exists_cons_of_ne_nil h
    refine ⟨c, by rw [hc]; rfl, head?_dropWhile (p := isBlank) (s := s) ?_⟩
    rw [← trimStart, ← ht, ← trim, hc]
    rfl
  · obtain ⟨c, hc⟩ : ∃ c, (trim s).getLast? = some c := ⟨_, List.getLast?_eq_some_getLast h⟩
    refine ⟨c, hc, head?_dropWhile (p := isBlank) (s := (trimStart s).reverse) ?_⟩
    rwa [trim, trimEnd, List.getLast?_reverse] at hc

theorem tight_of_trim_eq {s : List Char} (h : trim s = s) (hne : s ≠ []) : Tight s :=
  h ▸ tight_trim (h.symm ▸ hne)

@[simp]
theorem trim_trim (s : List Char) : trim (trim s) = trim s := by
  by_cases h : trim s = []
  · rw [h]
    rfl
  · exact (tight_trim h).trim_eq

theorem length_trim_le (s : List Char) : (trim s).length ≤ s.length :=
  Nat.le_trans (trimEnd_isPrefix _).length_le (List.dropWhile_suffix isBlank).length_le

theorem trim_cons_of_blank {c : Char} (hc : isBlank c = true) (s : List Char) :
    trim (c :: s) = trim s := by
  rw [trim, trimStart, List.dropWhile_cons_of_pos hc]
  rfl

theorem trim_concat_of_blank {c : Char} (hc : isBlank c = true) (s : List Char) :
    trim (s ++ [c]) = trim s := by
  rw [trim, trimStart, List.dropWhile_append]
  split
  · next hempty =>
    rw [trim, trimStart, List.isEmpty_iff.1 hempty, List.dropWhile_cons_of_pos hc]
    rfl
  · exact trimEnd_append (List.forall_mem_singleton.2 hc) _

theorem mem_of_mem_trim {s : List Char} {c : Char} (h : c ∈ trim s) : c ∈ s :=
  (List.dropWhile_suffix isBlank).subset ((trimEnd_isPrefix _).subset h)

theorem count_dropWhile {p : Char → Bool} {q : Char} (hq : p q = false) (s : List Char) :
    (s.dropWhile p).count q = s.count q := by
  induction s with
  | nil => rfl
  | cons c s ih =>
    by_cases hc : p c = true
    · have hne : c ≠ q := by
        rintro rfl
        rw [hq] at hc
        cases hc
      rw [List.dropWhile_cons_of_pos hc, List.count_cons_of_ne hne, ih]
    · rw [List.dropWhile_cons_of_neg hc]

/-- Trimming takes away nothing but blanks. -/
theorem count_trim {c : Char} (hc : isBlank c = false) (s : List Char) :
    (trim s).count c = s.count c := by
  rw [trim, trimEnd, List.count_reverse, count_dropWhile hc, List.count_reverse, trimStart,
    count_dropWhile hc]

/-- Only blanks leave nothing. -/
theorem trim_eq_nil_iff {s : List Char} : trim s = [] ↔ ∀ c ∈ s, isBlank c = true := by
  constructor
  · intro h
    have hblank : ∀ c ∈ trimStart s, isBlank c = true := by
      rw [trim, trimEnd, List.reverse_eq_nil_iff, List.dropWhile_eq_nil_iff] at h
      exact fun c hc => h c (List.mem_reverse.2 hc)
    -- what starts with content is not all blank
    cases hstart : trimStart s with
    | nil => exact List.dropWhile_eq_nil_iff.1 hstart
    | cons c rest =>
      have hc : isBlank c = false := head?_dropWhile (s := s) (by rw [← trimStart, hstart]; rfl)
      rw [hblank c (by rw [hstart]; exact .head _)] at hc
      cases hc
  · intro h
    rw [← List.append_nil s, trim, trimStart_append h]
    rfl

/-! ## Cutting -/

theorem dropFront?_eq_some {front s rest : List Char} :
    dropFront? front s = some rest ↔ s = front ++ rest := by
  simp only [dropFront?, Option.ite_none_right_eq_some, List.isPrefixOf_iff_prefix, Option.some.injEq]
  constructor
  · rintro ⟨⟨t, rfl⟩, hrest⟩
    rw [← hrest, List.drop_left]
  · rintro rfl
    exact ⟨List.prefix_append front rest, List.drop_left⟩

theorem dropBack?_eq_some {back s front : List Char} :
    dropBack? back s = some front ↔ s = front ++ back := by
  simp only [dropBack?, Option.map_eq_some_iff, dropFront?_eq_some]
  constructor
  · rintro ⟨rest, hrest, rfl⟩
    rw [← List.reverse_reverse s, hrest, List.reverse_append, List.reverse_reverse]
  · rintro rfl
    exact ⟨front.reverse, by simp, by simp⟩

/-- A text is cut at the first of the characters that separate. -/
theorem splitOnce_char {d : Char} {s front back : List Char} :
    splitOnce [d] s = some (front, back) ↔ d ∉ front ∧ s = front ++ d :: back := by
  induction s generalizing front with
  | nil => simp [splitOnce]
  | cons c s ih =>
    rw [splitOnce]
    by_cases hc : d = c
    · subst hc
      rw [if_pos (by simp)]
      constructor
      · intro h
        cases h
        exact ⟨List.not_mem_nil, rfl⟩
      · rintro ⟨hfront, heq⟩
        cases front with
        | nil =>
          cases heq
          rfl
        -- a front that is not empty would begin with the separator
        | cons e front =>
          cases heq
          exact absurd (.head _) hfront
    · rw [if_neg (by simp [hc]), Option.map_eq_some_iff]
      constructor
      · rintro ⟨⟨f, b⟩, hfb, heq⟩
        cases heq
        obtain ⟨hf, rfl⟩ := ih.1 hfb
        exact ⟨by simp [hc, hf], rfl⟩
      · rintro ⟨hfront, heq⟩
        cases front with
        | nil =>
          cases heq
          exact absurd rfl hc
        | cons e front =>
          cases heq
          exact ⟨(front, back), ih.2 ⟨fun h => hfront (.tail _ h), rfl⟩, rfl⟩

/-- A text is cut at the first place where the separator stands. -/
theorem splitOnce_eq_some {sep s front back : List Char} (hsep : sep ≠ []) :
    splitOnce sep s = some (front, back) ↔
      s = front ++ (sep ++ back) ∧ ∀ i < front.length, ¬sep <+: s.drop i := by
  induction s generalizing front with
  | nil => simp [splitOnce, hsep]
  | cons c s ih =>
    rw [splitOnce]
    by_cases hc : sep <+: c :: s
    · rw [if_pos (List.isPrefixOf_iff_prefix.2 hc)]
      obtain ⟨rest, hrest⟩ := hc
      constructor
      · intro h
        cases h
        refine ⟨?_, fun i hi => absurd hi (Nat.not_lt_zero i)⟩
        rw [← hrest, List.drop_left, List.nil_append]
      · rintro ⟨heq, hfirst⟩
        cases front with
        | nil => rw [heq, List.nil_append, List.drop_left]
        -- the separator stands at the very beginning, so nothing is in front of it
        | cons d front => exact absurd ⟨rest, hrest⟩ (hfirst 0 (Nat.succ_pos _))
    · rw [if_neg (mt List.isPrefixOf_iff_prefix.1 hc), Option.map_eq_some_iff]
      constructor
      · rintro ⟨⟨f, b⟩, hfb, heq⟩
        cases heq
        obtain ⟨rfl, hfirst⟩ := ih.1 hfb
        refine ⟨rfl, fun i hi => ?_⟩
        cases i with
        | zero => exact hc
        | succ i => exact hfirst i (Nat.lt_of_succ_lt_succ hi)
      · rintro ⟨heq, hfirst⟩
        cases front with
        | nil => exact absurd ⟨back, heq.symm⟩ hc
        | cons d front =>
          cases heq
          exact ⟨(front, back), ih.2 ⟨rfl, fun i hi => hfirst (i + 1) (Nat.succ_lt_succ hi)⟩, rfl⟩

/-- Where the separator stands somewhere, the text is cut there or before. -/
theorem exists_splitOnce {sep s : List Char} {i : Nat} (h : sep <+: s.drop i) :
    ∃ front back, splitOnce sep s = some (front, back) ∧ front.length ≤ i := by
  induction s generalizing i with
  | nil =>
    rw [List.drop_nil, List.prefix_nil] at h
    subst h
    exact ⟨[], [], rfl, Nat.zero_le i⟩
  | cons c s ih =>
    rw [splitOnce]
    split
    · exact ⟨[], _, rfl, Nat.zero_le i⟩
    · next hc =>
      cases i with
      | zero => exact absurd (List.isPrefixOf_iff_prefix.2 h) hc
      | succ i =>
        obtain ⟨front, back, hcut, hle⟩ := ih h
        exact ⟨c :: front, back, by rw [hcut]; rfl, Nat.succ_le_succ hle⟩

/-! ## Pieces -/

section

variable {p : Char → Bool}

theorem splitWhere_ne_nil (s : List Char) : splitWhere p s ≠ [] := by
  cases s with
  | nil => exact List.cons_ne_nil _ _
  | cons c s =>
    rw [splitWhere]
    split
    · exact List.cons_ne_nil _ _
    · split <;> exact List.cons_ne_nil _ _

/-- A text in which nothing separates goes to the first piece. -/
theorem splitWhere_append {a : List Char} (ha : ∀ c ∈ a, p c = false) {s piece : List Char}
    {pieces : List (List Char)} (h : splitWhere p s = piece :: pieces) :
    splitWhere p (a ++ s) = (a ++ piece) :: pieces := by
  induction a with
  | nil => exact h
  | cons c a ih =>
    obtain ⟨hc, ha⟩ := List.forall_mem_cons.1 ha
    rw [List.cons_append, splitWhere, hc, ih ha]
    rfl

theorem splitWhere_of_forall {a : List Char} (ha : ∀ c ∈ a, p c = false) : splitWhere p a = [a] := by
  have hone := splitWhere_append ha (s := []) rfl
  rwa [List.append_nil] at hone

theorem splitWhere_cons_self {d : Char} (hd : p d = true) (s : List Char) :
    splitWhere p (d :: s) = [] :: splitWhere p s := by
  rw [splitWhere, if_pos hd]

/-- A text up to the first of the characters that separate is a piece. -/
theorem splitWhere_append_cons {a : List Char} (ha : ∀ c ∈ a, p c = false) {d : Char} (hd : p d = true)
    (b : List Char) : splitWhere p (a ++ d :: b) = a :: splitWhere p b := by
  rw [splitWhere_append ha (splitWhere_cons_self hd b), List.append_nil]

/-- A text in which nothing separates goes to the last piece of what stands before it. -/
theorem exists_splitWhere_append (s : List Char) {b : List Char} (hb : ∀ c ∈ b, p c = false) :
    ∃ front last, splitWhere p s = front ++ [last] ∧ splitWhere p (s ++ b) = front ++ [last ++ b] := by
  induction s with
  | nil => exact ⟨[], [], rfl, splitWhere_of_forall hb⟩
  | cons c s ih =>
    obtain ⟨front, last, hs, hsb⟩ := ih
    cases hc : p c with
    | true =>
      refine ⟨[] :: front, last, ?_, ?_⟩
      · rw [splitWhere_cons_self hc, hs, List.cons_append]
      · rw [List.cons_append, splitWhere_cons_self hc, hsb, List.cons_append]
    | false =>
      -- the character goes to the first piece, which may be the last one
      have hone : ∀ d ∈ [c], p d = false := List.forall_mem_singleton.2 hc
      cases front with
      | nil => exact ⟨[], c :: last, splitWhere_append hone hs, splitWhere_append hone hsb⟩
      | cons first front =>
        exact ⟨(c :: first) :: front, last, splitWhere_append hone hs, splitWhere_append hone hsb⟩

theorem exists_splitAtChar_append {c : Char} (s : String) {t : String} (ht : c ∉ t.toList) :
    ∃ front last, splitAtChar c s = front ++ [last] ∧
      splitAtChar c (s ++ t) = front ++ [last ++ t] := by
  have hplain : ∀ d ∈ t.toList, (d == c) = false := fun d hd =>
    beq_false_of_ne fun heq => ht (heq ▸ hd)
  obtain ⟨front, last, hs, hst⟩ := exists_splitWhere_append s.toList hplain
  refine ⟨front.map String.ofList, String.ofList last, ?_, ?_⟩
  · rw [splitAtChar, hs, List.map_append, List.map_singleton]
  · rw [splitAtChar, String.toList_append, hst, List.map_append, List.map_singleton,
      String.ofList_append, String.ofList_toList]

theorem not_mem_of_mem_splitWhere {s piece : List Char} (h : piece ∈ splitWhere p s) :
    ∀ c ∈ piece, p c = false := by
  induction s generalizing piece with
  | nil =>
    obtain rfl := List.mem_singleton.1 h
    exact fun c hc => absurd hc List.not_mem_nil
  | cons c s ih =>
    rw [splitWhere] at h
    split at h
    · rcases List.mem_cons.1 h with rfl | h
      · exact fun c hc => absurd hc List.not_mem_nil
      · exact ih h
    · next hc =>
      split at h
      · next hnil => exact absurd hnil (splitWhere_ne_nil s)
      · next first others hsplit =>
        rw [hsplit] at ih
        rcases List.mem_cons.1 h with rfl | h
        · exact List.forall_mem_cons.2 ⟨by simpa using hc, ih (.head _)⟩
        · exact ih (.tail _ h)

theorem mem_flatten_splitWhere {s : List Char} {c : Char} (hc : c ∈ s) (hp : p c = false) :
    c ∈ (splitWhere p s).flatten := by
  have hflatten : (splitWhere p s).flatten = s.filter (fun c => !p c) := by
    clear hc
    induction s with
    | nil => rfl
    | cons d s ih =>
      rw [splitWhere]
      split
      · simp [*]
      · split <;> simp_all
  rw [hflatten, List.mem_filter, hp]
  exact ⟨hc, rfl⟩

/-- A text is its pieces, each with what ends it. -/
theorem flatMap_splitWhere (d : Char) (s : List Char) :
    (splitWhere (· == d) s).flatMap (· ++ [d]) = s ++ [d] := by
  induction s with
  | nil => rfl
  | cons c s ih =>
    obtain ⟨piece, pieces, hsplit⟩ :=
      List.exists_cons_of_ne_nil (splitWhere_ne_nil (p := (· == d)) s)
    rw [hsplit, List.flatMap_cons] at ih
    by_cases hc : c = d
    · subst hc
      rw [splitWhere_cons_self (p := (· == c)) (beq_self_eq_true c), hsplit, List.flatMap_cons,
        List.flatMap_cons, ih]
      rfl
    · have hone : ∀ e ∈ [c], (e == d) = false := List.forall_mem_singleton.2 (beq_false_of_ne hc)
      have hcons : splitWhere (· == d) (c :: s) = (c :: piece) :: pieces :=
        splitWhere_append hone hsplit
      rw [hcons, List.flatMap_cons, List.cons_append, List.cons_append, ih]
      rfl

end

end ScriptStore.Text
