import ScriptStore.Config.Document
import ScriptStore.Proofs.Text.Cutting

/-!
# Values, comments and indentation of lines

A line is read off its value and its comment: escaping the value and putting the comment behind it
gives the line. A value that stands at a level is as many units of indentation and then content;
where its level is that of the section that reads it, it is content of the section, and where it is
a smaller one, the section ends.
-/

namespace ScriptStore.Config

open Text (isBlank trim)

namespace Line

/-! ## Value and comment -/

/-- Whether a text can be a comment: it is empty, or its `#` is not written twice. -/
def IsComment (comment : List Char) : Prop :=
  comment = [] ∨ ∃ rest, comment = '#' :: rest ∧ rest.head? ≠ some '#'

theorem escape_append (a b : List Char) : escape (a ++ b) = escape a ++ escape b := by
  induction a with
  | nil => rfl
  | cons c a ih =>
    rw [List.cons_append, escape, escape, ih]
    split <;> rfl

theorem escape_of_not_mem {s : List Char} (h : '#' ∉ s) : escape s = s := by
  induction s with
  | nil => rfl
  | cons c s ih =>
    have hc : c ≠ '#' := fun heq => h (heq ▸ .head _)
    rw [escape, if_neg (by simpa using hc), ih fun hs => h (.tail _ hs)]

theorem mem_escape {c : Char} {s : List Char} : c ∈ escape s ↔ c ∈ s := by
  induction s with
  | nil => rfl
  | cons d s ih =>
    rw [escape]
    split
    · next hd => simp [ih, eq_of_beq hd]
    · simp [ih]

theorem head?_escape (s : List Char) : (escape s).head? = s.head? := by
  cases s with
  | nil => rfl
  | cons c s =>
    rw [escape]
    split
    · next hc => rw [eq_of_beq hc]; rfl
    · rfl

theorem getLast?_escape (s : List Char) : (escape s).getLast? = s.getLast? := by
  induction s with
  | nil => rfl
  | cons c s ih =>
    rw [escape, List.getLast?_cons]
    split
    · next hc => rw [List.getLast?_cons, List.getLast?_cons, ih, eq_of_beq hc, Option.getD_some]
    · rw [List.getLast?_cons, ih]

theorem split_of_ne {c : Char} (hc : c ≠ '#') (rest : List Char) :
    split (c :: rest) = (c :: (split rest).1, (split rest).2) := by
  rw [split, if_neg (by simpa using hc)]
  exact fun _ heq => absurd heq hc

theorem split_comment {rest : List Char} (h : rest.head? ≠ some '#') :
    split ('#' :: rest) = ([], '#' :: rest) := by
  rw [split, if_pos (by rfl)]
  rintro more _ rfl
  exact h rfl

theorem isComment_split (line : List Char) : IsComment (split line).2 := by
  fun_induction split line with
  | case1 => exact .inl rfl
  | case2 rest value comment hsplit ih => rwa [hsplit] at ih
  | case3 c rest hrest hc =>
    refine .inr ⟨rest, by rw [eq_of_beq hc], fun hhead => ?_⟩
    obtain ⟨more, rfl⟩ := List.head?_eq_some_iff.1 hhead
    exact hrest more (eq_of_beq hc) rfl
  | case4 c rest _ hc value comment hsplit ih => rwa [hsplit] at ih

/-- The value and the comment of a line give the line back. -/
theorem escape_split (line : List Char) : escape (split line).1 ++ (split line).2 = line := by
  fun_induction split line with
  | case1 => rfl
  | case2 rest value comment hsplit ih =>
    rw [hsplit] at ih
    rw [escape, if_pos (by rfl), List.cons_append, List.cons_append, ih]
  | case3 c rest hrest hc => rfl
  | case4 c rest _ hc value comment hsplit ih =>
    rw [hsplit] at ih
    rw [escape, if_neg hc, List.cons_append, ih]

/-- A value and a comment are what is read from the line they are written to. -/
theorem split_escape {comment : List Char} (h : IsComment comment) (value : List Char) :
    split (escape value ++ comment) = (value, comment) := by
  induction value with
  | nil =>
    rcases h with rfl | ⟨rest, rfl, hrest⟩
    · rfl
    · exact split_comment hrest
  | cons c value ih =>
    rw [escape]
    split
    · next hc => rw [List.cons_append, List.cons_append, split, ih, eq_of_beq hc]
    · next hc => rw [List.cons_append, split_of_ne (by simpa using hc), ih]

/-- **Lines correspond one to one to their values and comments**, and escaping leads back. -/
theorem split_one_to_one :
    (∀ line, escape (split line).1 ++ (split line).2 = line ∧ IsComment (split line).2) ∧
    (∀ value comment, IsComment comment → split (escape value ++ comment) = (value, comment)) ∧
    Function.Bijective fun line =>
      (⟨split line, isComment_split line⟩ : { parts : List Char × List Char // IsComment parts.2 }) := by
  refine ⟨fun line => ⟨escape_split line, isComment_split line⟩,
    fun value _ hcomment => split_escape hcomment value, fun a b hab => ?_, fun parts => ?_⟩
  · rw [← escape_split a, ← escape_split b, Subtype.mk.inj hab]
  · exact ⟨escape parts.1.1 ++ parts.1.2, Subtype.ext (split_escape parts.2 parts.1.1)⟩

theorem split_one_to_one_marks : IsComment ['#', 'c'] ∧
    split (escape ['a', '#'] ++ ['#', 'c']) = (['a', '#'], ['#', 'c']) := by
  have hcomment : IsComment ['#', 'c'] := .inr ⟨['c'], rfl, by decide⟩
  exact ⟨hcomment, split_one_to_one.2.1 _ _ hcomment⟩

theorem mem_of_mem_value {line : List Char} {c : Char} (h : c ∈ (split line).1) : c ∈ line := by
  rw [← escape_split line]
  exact List.mem_append_left _ (mem_escape.2 h)

theorem mem_of_mem_comment {line : List Char} {c : Char} (h : c ∈ (split line).2) : c ∈ line := by
  rw [← escape_split line]
  exact List.mem_append_right _ h

end Line

/-- The value of a line. -/
def valueOf (line : String) : List Char := (Line.split line.toList).1

/-- The comment of a line. -/
def commentOf (line : String) : String := String.ofList (Line.split line.toList).2

/-! ## Units of indentation -/

/-- Whether a text can be the unit of indentation: some spaces, or some tabs. -/
structure IsUnit (unit : List Char) : Prop where
  ne_nil : unit ≠ []
  uniform : (∀ c ∈ unit, c = ' ') ∨ ∀ c ∈ unit, c = '\t'

theorem isUnit_tab : IsUnit ['\t'] := ⟨by simp, .inr (by simp)⟩

namespace IsUnit

variable {unit : List Char} (h : IsUnit unit)

include h

theorem blank {c : Char} (hc : c ∈ unit) : isBlank c = true := by
  rcases h.uniform with hall | hall
  · rw [hall c hc]
    rfl
  · rw [hall c hc]
    rfl

theorem blank_indentOf {level : Nat} {c : Char} (hc : c ∈ indentOf unit level) :
    isBlank c = true := by
  obtain ⟨u, hu, hcu⟩ := List.mem_flatten.1 hc
  exact h.blank (List.eq_of_mem_replicate hu ▸ hcu)

theorem hash_not_mem_indentOf (level : Nat) : '#' ∉ indentOf unit level := fun hmem =>
  absurd (h.blank_indentOf hmem) (by decide)

end IsUnit

theorem indentOf_succ (unit : List Char) (level : Nat) :
    indentOf unit (level + 1) = unit ++ indentOf unit level := by
  simp [indentOf, List.replicate_succ]

theorem indentOf_add (unit : List Char) (m n : Nat) :
    indentOf unit (m + n) = indentOf unit m ++ indentOf unit n := by
  rw [indentOf, ← List.replicate_append_replicate, List.flatten_append]
  rfl

theorem indentOf_one (unit : List Char) : indentOf unit 1 = unit := by
  rw [indentOf_succ]
  exact List.append_nil unit

theorem length_indentOf (unit : List Char) (level : Nat) :
    (indentOf unit level).length = level * unit.length := by
  rw [indentOf, List.length_flatten, List.map_replicate, List.sum_replicate_nat]

/-! ## Levels of lines -/

/-- Whether a value stands at a level: content behind so many units. -/
def StandsAt (unit : List Char) (level : Nat) (value : List Char) : Prop :=
  ∃ text, value = indentOf unit level ++ text ∧ Line.startsWithContent text = true

theorem startsWithContent_iff {text : List Char} :
    Line.startsWithContent text = true ↔ ∃ c, text.head? = some c ∧ isBlank c = false := by
  cases text <;> simp [Line.startsWithContent]

theorem Line.indentation_append {blanks text : List Char} (hblanks : ∀ c ∈ blanks, isBlank c = true)
    (htext : Line.startsWithContent text = true) : Line.indentation (blanks ++ text) = blanks := by
  obtain ⟨c, hc, hblank⟩ := startsWithContent_iff.1 htext
  obtain ⟨more, rfl⟩ := List.head?_eq_some_iff.1 hc
  rw [Line.indentation, List.takeWhile_append_of_pos hblanks,
    List.takeWhile_cons_of_neg (by simp [hblank]), List.append_nil]

theorem standsAt_zero {unit value : List Char} :
    StandsAt unit 0 value ↔ Line.startsWithContent value = true := by
  constructor
  · rintro ⟨text, rfl, htext⟩
    exact htext
  · exact fun h => ⟨value, rfl, h⟩

theorem StandsAt.trim_ne_nil {unit value : List Char} {level : Nat}
    (h : StandsAt unit level value) : trim value ≠ [] := by
  obtain ⟨text, rfl, htext⟩ := h
  obtain ⟨c, hc, hblank⟩ := startsWithContent_iff.1 htext
  intro hnil
  have hmem : c ∈ indentOf unit level ++ text := List.mem_append_right _ (List.mem_of_mem_head? hc)
  rw [Text.trim_eq_nil_iff.1 hnil c hmem] at hblank
  cases hblank

namespace IsUnit

variable {unit : List Char} (h : IsUnit unit)

include h

/-- No unit fits in front of content. -/
theorem not_isPrefix {text : List Char} (htext : Line.startsWithContent text = true) :
    ¬unit <+: text := by
  rintro ⟨rest, rfl⟩
  obtain ⟨c, hc, hblank⟩ := startsWithContent_iff.1 htext
  obtain ⟨d, more, hunit⟩ := List.exists_cons_of_ne_nil h.ne_nil
  rw [hunit] at hc
  cases hc
  rw [h.blank (hunit ▸ .head _)] at hblank
  cases hblank

theorem indentation_eq {level : Nat} {text : List Char}
    (htext : Line.startsWithContent text = true) :
    Line.indentation (indentOf unit level ++ text) = indentOf unit level :=
  Line.indentation_append (fun _ => h.blank_indentOf) htext

theorem stripUnitsUpTo_eq {text : List Char} (htext : Line.startsWithContent text = true)
    {level fuel : Nat} (hfuel : level ≤ fuel) :
    Line.stripUnitsUpTo unit fuel (indentOf unit level ++ text) = text := by
  induction level generalizing fuel with
  | zero =>
    cases fuel with
    | zero => rfl
    | succ fuel =>
      have hno : unit.isPrefixOf text = false := by
        simpa [← List.isPrefixOf_iff_prefix] using h.not_isPrefix htext
      change Line.stripUnitsUpTo unit (fuel + 1) text = text
      rw [Line.stripUnitsUpTo, hno]
      rfl
  | succ level ih =>
    cases fuel with
    | zero => omega
    | succ fuel =>
      rw [indentOf_succ, List.append_assoc, Line.stripUnitsUpTo, if_pos (by simp),
        List.drop_left, ih (by omega)]

theorem le_length_indentOf (level : Nat) : level ≤ (indentOf unit level).length := by
  induction level with
  | zero => exact Nat.zero_le _
  | succ level ih =>
    have hpos := List.length_pos_iff.2 h.ne_nil
    rw [indentOf_succ, List.length_append]
    omega

theorem stripUnits_eq {level : Nat} {text : List Char}
    (htext : Line.startsWithContent text = true) :
    Line.stripUnits unit (indentOf unit level ++ text) = text := by
  have hlevel := h.le_length_indentOf level
  rw [Line.stripUnits, if_neg (by simpa using h.ne_nil)]
  exact h.stripUnitsUpTo_eq htext (by rw [List.length_append]; omega)

end IsUnit

theorem exists_stripUnitsUpTo (unit : List Char) (fuel : Nat) (text : List Char) :
    ∃ level, text = indentOf unit level ++ Line.stripUnitsUpTo unit fuel text := by
  induction fuel generalizing text with
  | zero => exact ⟨0, rfl⟩
  | succ fuel ih =>
    rw [Line.stripUnitsUpTo]
    split
    · next hunit =>
      obtain ⟨rest, rfl⟩ := List.isPrefixOf_iff_prefix.1 hunit
      obtain ⟨level, hlevel⟩ := ih rest
      refine ⟨level + 1, ?_⟩
      rw [List.drop_left, indentOf_succ, List.append_assoc, ← hlevel]
    · exact ⟨0, rfl⟩

theorem exists_stripUnits (unit text : List Char) :
    ∃ level, text = indentOf unit level ++ Line.stripUnits unit text := by
  rw [Line.stripUnits]
  split
  · exact ⟨0, rfl⟩
  · exact exists_stripUnitsUpTo unit text.length text

/-! ## Placing a line -/

theorem placeLine_void {unit value : List Char} {level : Nat} (h : trim value = []) :
    placeLine unit level value = .void := by
  rw [placeLine, h]
  rfl

theorem placeLine_content {unit value : List Char} {level : Nat} (h : StandsAt unit level value) :
    placeLine unit level value = .content (trim value) := by
  have htrim := h.trim_ne_nil
  obtain ⟨text, hvalue, htext⟩ := h
  simp only [placeLine]
  rw [if_neg (by simpa using htrim), Text.dropFront?_eq_some.2 hvalue, Option.any_some, if_pos htext]

theorem placeLine_outside {unit value : List Char} {level k : Nat} (hunit : IsUnit unit)
    (hk : k < level) (h : StandsAt unit k value) : placeLine unit level value = .outside := by
  have htrim := h.trim_ne_nil
  obtain ⟨text, rfl, htext⟩ := h
  have hnone : Text.dropFront? (indentOf unit level) (indentOf unit k ++ text) = none := by
    -- behind `k` units there is content and no further unit
    rw [Option.eq_none_iff_forall_ne_some]
    intro rest hrest
    obtain ⟨n, rfl⟩ := Nat.exists_eq_add_of_lt hk
    rw [Text.dropFront?_eq_some, Nat.add_assoc, indentOf_add, indentOf_succ, List.append_assoc,
      List.append_assoc] at hrest
    exact hunit.not_isPrefix htext ⟨_, (List.append_cancel_left hrest).symm⟩
  simp only [placeLine]
  rw [if_neg (by simpa using htrim), hnone]
  simp [hunit.stripUnits_eq htext, htext]

theorem trim_of_placeLine_void {unit value : List Char} {level : Nat}
    (h : placeLine unit level value = .void) : trim value = [] := by
  simp only [placeLine] at h
  split at h
  · next hempty => simpa using hempty
  · split at h
    · cases h
    · split at h <;> cases h

theorem standsAt_of_placeLine_content {unit value text : List Char} {level : Nat}
    (h : placeLine unit level value = .content text) :
    text = trim value ∧ StandsAt unit level value := by
  simp only [placeLine] at h
  split at h
  · cases h
  · split at h
    · next hany =>
      cases h
      obtain ⟨rest, hrest, htext⟩ := (Option.any_eq_true _ _).1 hany
      exact ⟨rfl, rest, Text.dropFront?_eq_some.1 hrest, htext⟩
    · split at h <;> cases h

theorem standsAt_of_placeLine_outside {unit value : List Char} {level : Nat}
    (h : placeLine unit level value = .outside) : ∃ k < level, StandsAt unit k value := by
  simp only [placeLine] at h
  split at h
  · cases h
  · split at h
    · cases h
    · split at h
      · cases h
      · next hnot =>
        rw [Bool.or_eq_true, not_or, Bool.not_eq_true, Bool.not_eq_true, Bool.not_eq_false'] at hnot
        obtain ⟨hempty, htext⟩ := hnot
        obtain ⟨k, hk⟩ := exists_stripUnits unit value
        refine ⟨k, Nat.not_le.1 fun hle => ?_, _, hk, htext⟩
        -- with all units of the level in front, something would be left
        obtain ⟨n, rfl⟩ := Nat.exists_eq_add_of_le hle
        rw [indentOf_add, List.append_assoc] at hk
        rw [Text.dropFront?_eq_some.2 hk, Option.any_some, Bool.not_eq_false', List.isEmpty_iff,
          List.append_eq_nil_iff] at hempty
        rw [hempty.2] at htext
        cases htext

end ScriptStore.Config
