import ScriptStore.Proofs.Variables.SegmentOrder

/-!
# Numbers in segments

Two runs of digits are compared without their leading zeros, first by length and then digit by digit,
and a run of more leading zeros comes first. This is to compare the numbers that the runs write, and of
two spellings of one number to put the longer one first (`compareRuns_eq`). No length is too great for
it: nothing is computed but the place of the first digit that differs.

In a segment a run is compared as a whole. So where two segments are the same up to a run, and the run
starts at the same place in both, the smaller number comes first.
-/

namespace ScriptStore.Variables

open Text (isDigit digitValue natOfDigits)

/-! ## The number that a run writes -/

/-- Reads digits on, behind others that write `n`. -/
def numberFrom (n : Nat) (ds : List Char) : Nat := ds.foldl (fun n c => 10 * n + digitValue c) n

theorem numberFrom_cons (n : Nat) (c : Char) (ds : List Char) :
    numberFrom n (c :: ds) = numberFrom (10 * n + digitValue c) ds := by
  simp only [numberFrom, List.foldl_cons]

theorem numberFrom_append (n : Nat) (ds es : List Char) :
    numberFrom n (ds ++ es) = numberFrom (numberFrom n ds) es := List.foldl_append

theorem digit_bounds {c : Char} (h : isDigit c = true) : 48 ≤ c.toNat ∧ c.toNat ≤ 57 := by
  simp only [isDigit, Bool.and_eq_true, decide_eq_true_eq] at h
  exact h

theorem toNat_eq_of_digit {c : Char} (h : isDigit c = true) : c.toNat = digitValue c + 48 := by
  have hc := digit_bounds h
  change c.toNat = c.toNat - 48 + 48
  omega

theorem digitValue_le {c : Char} (h : isDigit c = true) : digitValue c ≤ 9 := by
  have hc := digit_bounds h
  have hv := toNat_eq_of_digit h
  omega

theorem digitValue_pos {c : Char} (h : isDigit c = true) (hc : c ≠ '0') : 0 < digitValue c := by
  have hv := toNat_eq_of_digit h
  have hne : c.toNat ≠ 48 := fun heq => hc (Char.toNat_inj.1 heq)
  omega

theorem numberFrom_pos {n : Nat} (hn : 0 < n) (ds : List Char) : 0 < numberFrom n ds := by
  induction ds generalizing n with
  | nil => exact hn
  | cons c ds ih =>
    rw [numberFrom_cons]
    apply ih
    omega

/-- A greater number in front outweighs all digits behind it. -/
theorem numberFrom_lt {m n : Nat} (h : m < n) {ds es : List Char} (hlen : ds.length = es.length)
    (hds : ∀ c ∈ ds, isDigit c = true) : numberFrom m ds < numberFrom n es := by
  induction ds generalizing m n es with
  | nil =>
    cases es with
    | nil => exact h
    | cons => simp at hlen
  | cons c ds ih =>
    cases es with
    | nil => simp at hlen
    | cons d es =>
      have hc := digitValue_le (hds c (.head _))
      rw [numberFrom_cons, numberFrom_cons]
      refine ih ?_ (by simpa using hlen) fun e he => hds e (.tail _ he)
      omega

/-- Digits of equal number compare as characters do. -/
theorem compareChars_eq_compare {ds es : List Char} (n : Nat) (hlen : ds.length = es.length)
    (hds : ∀ c ∈ ds, isDigit c = true) (hes : ∀ c ∈ es, isDigit c = true) :
    compareChars ds es = compare (numberFrom n ds) (numberFrom n es) := by
  induction ds generalizing es n with
  | nil =>
    cases es with
    | nil => exact (Nat.compare_eq_eq.2 rfl).symm
    | cons => simp at hlen
  | cons c ds ih =>
    cases es with
    | nil => simp at hlen
    | cons d es =>
      have hc := toNat_eq_of_digit (hds c (.head _))
      have hd := toNat_eq_of_digit (hes d (.head _))
      have hds := fun e he => hds e (.tail c he)
      have hes := fun e he => hes e (.tail d he)
      have hlen : ds.length = es.length := by simpa using hlen
      rw [compareChars, numberFrom_cons, numberFrom_cons]
      rcases Nat.lt_trichotomy (digitValue c) (digitValue d) with hlt | heq | hgt
      · rw [Nat.compare_eq_lt.2 (by omega), Ordering.lt_then]
        exact (Nat.compare_eq_lt.2 (numberFrom_lt (by omega) hlen hds)).symm
      · rw [Nat.compare_eq_eq.2 (by omega), Ordering.eq_then, heq]
        exact ih _ hlen hds hes
      · rw [Nat.compare_eq_gt.2 (by omega), Ordering.gt_then]
        exact (Nat.compare_eq_gt.2 (numberFrom_lt (by omega) hlen.symm hes)).symm

/-! ## Runs -/

/-- Whether characters are digits, one at least. -/
def IsRun (ds : List Char) : Prop := ds ≠ [] ∧ ds.all isDigit

instance (ds : List Char) : Decidable (IsRun ds) := inferInstanceAs (Decidable (_ ∧ _))

theorem IsRun.digit {ds : List Char} (h : IsRun ds) : ∀ c ∈ ds, isDigit c = true :=
  List.all_eq_true.1 h.2

theorem natOfDigits_significant (ds : List Char) : natOfDigits (significant ds) = natOfDigits ds := by
  induction ds with
  | nil => rfl
  | cons c ds ih =>
    by_cases hc : c = '0'
    · subst hc
      rw [significant_zero_cons, ih]
      rfl
    · rw [significant_cons hc]

theorem isRun_significant {ds : List Char} (h : ∀ c ∈ ds, isDigit c = true) :
    IsRun (significant ds) := by
  induction ds with
  | nil => decide
  | cons c ds ih =>
    by_cases hc : c = '0'
    · subst hc
      rw [significant_zero_cons]
      exact ih fun d hd => h d (.tail _ hd)
    · rw [significant_cons hc]
      exact ⟨List.cons_ne_nil c ds, List.all_eq_true.2 h⟩

/-- Only zero itself begins with a zero. -/
theorem significant_head (ds : List Char) :
    significant ds = ['0'] ∨ ∃ c more, significant ds = c :: more ∧ c ≠ '0' := by
  induction ds with
  | nil => exact .inl rfl
  | cons c ds ih =>
    by_cases hc : c = '0'
    · subst hc
      rw [significant_zero_cons]
      exact ih
    · exact .inr ⟨c, ds, significant_cons hc ds, hc⟩

theorem length_significant_le {ds : List Char} (h : ds ≠ []) :
    (significant ds).length ≤ ds.length := by
  obtain ⟨n, hn⟩ := exists_zeros ds h
  have hlen := congrArg List.length hn
  simp only [List.length_append, List.length_replicate] at hlen
  omega

/-- Without leading zeros, more digits make a greater number. -/
theorem natOfDigits_lt_of_length {x ds : List Char} (hx : ∀ c ∈ x, isDigit c = true) (hne : x ≠ [])
    (hds : ∀ c ∈ ds, isDigit c = true) (hlen : x.length < (significant ds).length) :
    natOfDigits x < natOfDigits (significant ds) := by
  have hpos : 0 < x.length := List.length_pos_iff.2 hne
  rcases significant_head ds with hzero | ⟨c, more, hsig, hc⟩
  · rw [hzero] at hlen
    simp only [List.length_singleton] at hlen
    omega
  · have hrun := (isRun_significant hds).digit
    rw [hsig] at hlen hrun ⊢
    rw [List.length_cons] at hlen
    -- the digits beyond those that `x` has are worth more than all of `x`
    have hcut : c :: more = (c :: more.take (more.length - x.length)) ++
        more.drop (more.length - x.length) := by
      rw [List.cons_append, List.take_append_drop]
    have hfront : 0 < numberFrom 0 (c :: more.take (more.length - x.length)) := by
      rw [numberFrom_cons]
      apply numberFrom_pos
      have := digitValue_pos (hrun c (.head _)) hc
      omega
    rw [hcut]
    change numberFrom 0 x < numberFrom 0 (_ ++ _)
    rw [numberFrom_append]
    refine numberFrom_lt hfront ?_ hx
    rw [List.length_drop]
    omega

/-- Without leading zeros, length and then digits decide as the numbers do. -/
theorem compare_significant {a b : List Char} (ha : ∀ c ∈ a, isDigit c = true)
    (hb : ∀ c ∈ b, isDigit c = true) :
    (compare (significant a).length (significant b).length).then
        (compareChars (significant a) (significant b))
      = compare (natOfDigits a) (natOfDigits b) := by
  have hx := isRun_significant ha
  have hy := isRun_significant hb
  rw [← natOfDigits_significant a, ← natOfDigits_significant b]
  rcases Nat.lt_trichotomy (significant a).length (significant b).length with hlt | heq | hgt
  · rw [Nat.compare_eq_lt.2 hlt, Ordering.lt_then]
    exact (Nat.compare_eq_lt.2 (natOfDigits_lt_of_length hx.digit hx.1 hb hlt)).symm
  · rw [Nat.compare_eq_eq.2 heq, Ordering.eq_then]
    exact compareChars_eq_compare 0 heq hx.digit hy.digit
  · rw [Nat.compare_eq_gt.2 hgt, Ordering.gt_then]
    exact (Nat.compare_eq_gt.2 (natOfDigits_lt_of_length hy.digit hy.1 ha hgt)).symm

/-- **Runs are compared as the numbers they write**, and of two spellings the longer comes first. -/
theorem compareRuns_eq {a b : List Char} (ha : IsRun a) (hb : IsRun b) :
    compareRuns a b
      = (compare (natOfDigits a) (natOfDigits b)).then (compare b.length a.length) := by
  have hnumbers := compare_significant ha.digit hb.digit
  have hla := length_significant_le ha.1
  have hlb := length_significant_le hb.1
  simp only [compareRuns, hnumbers]
  cases hcmp : compare (natOfDigits a) (natOfDigits b) with
  | lt => rfl
  | gt => rfl
  | eq =>
    -- equal numbers have equally many significant digits, so that only the zeros are left
    rw [hcmp, Ordering.then_eq_eq] at hnumbers
    have hlen := Nat.compare_eq_eq.1 hnumbers.1
    have hlt : b.length - (significant b).length < a.length - (significant a).length ↔
        b.length < a.length := by omega
    have heq : b.length - (significant b).length = a.length - (significant a).length ↔
        b.length = a.length := by omega
    rw [Ordering.eq_then, Ordering.eq_then]
    change compareOfLessAndEq _ _ = compareOfLessAndEq _ _
    simp only [compareOfLessAndEq, hlt, heq]

/-! ## Runs in a segment -/

/-- Whether a text does not begin with a digit. -/
def BeginsPlain (cs : List Char) : Prop := cs.head?.any isDigit = false

/-- Whether a text does not end with a digit. -/
def EndsPlain (cs : List Char) : Prop := cs.getLast?.any isDigit = false

theorem tokens_of_beginsPlain {cs : List Char} (h : BeginsPlain cs) :
    cs = [] ∨ ∃ c rest, cs = c :: rest ∧ tokens cs = .char c :: tokens rest := by
  cases cs with
  | nil => exact .inl rfl
  | cons c rest =>
    have hc : isDigit c = false := h
    refine .inr ⟨c, rest, rfl, ?_⟩
    rw [tokens, hc, if_neg Bool.false_ne_true]

/-- A run that ends before a character that is no digit is one piece. -/
theorem tokens_run_append {ds cs : List Char} (hds : IsRun ds) (hcs : BeginsPlain cs) :
    tokens (ds ++ cs) = .run ds :: tokens cs := by
  obtain ⟨hne, hall⟩ := hds
  induction ds with
  | nil => exact absurd rfl hne
  | cons c ds ih =>
    have hc := List.all_eq_true.1 hall c (.head _)
    rw [List.cons_append, tokens, if_pos hc]
    by_cases hds : ds = []
    · subst hds
      rw [List.nil_append]
      rcases tokens_of_beginsPlain hcs with rfl | ⟨d, rest, rfl, htokens⟩
      · rfl
      · rw [htokens]
    · have hrest : ds.all isDigit = true :=
        List.all_eq_true.2 fun d hd => List.all_eq_true.1 hall d (.tail _ hd)
      rw [ih hds hrest]

theorem tokens_ne_nil {cs : List Char} (h : cs ≠ []) : tokens cs ≠ [] := by
  intro hnil
  have htext := flatMap_text_tokens cs
  rw [hnil] at htext
  exact h htext.symm

/-- Behind a character that is no digit the pieces begin anew. -/
theorem tokens_append {front : List Char} (hfront : EndsPlain front) (cs : List Char) :
    tokens (front ++ cs) = tokens front ++ tokens cs := by
  induction front with
  | nil => rfl
  | cons c front ih =>
    rw [List.cons_append, tokens, tokens]
    by_cases hnil : front = []
    · subst hnil
      have hc : isDigit c = false := hfront
      rw [hc, if_neg Bool.false_ne_true, if_neg Bool.false_ne_true]
      rfl
    · have hlast : EndsPlain front := by
        rw [EndsPlain, List.getLast?_cons, List.getLast?_eq_some_getLast hnil] at hfront
        rw [EndsPlain, List.getLast?_eq_some_getLast hnil]
        exact hfront
      rw [ih hlast]
      obtain ⟨t, more, htokens⟩ := List.exists_cons_of_ne_nil (tokens_ne_nil hnil)
      rw [htokens, List.cons_append]
      split
      · -- whether the digit joins a run behind it is decided within `front`
        cases t <;> rfl
      · rfl

attribute [local instance] lexOrd in
theorem Token.compare_self (t : Token) : t.compare t = .eq := by
  rw [Token.compare_eq]
  exact Std.ReflOrd.compare_self

theorem compareTokens_append (ts a b : List Token) :
    compareTokens (ts ++ a) (ts ++ b) = compareTokens a b := by
  induction ts with
  | nil => rfl
  | cons t ts ih =>
    rw [List.cons_append, List.cons_append, compareTokens, t.compare_self, Ordering.eq_then, ih]

/-- After a common front that does not end with a digit, the smaller number comes first. -/
theorem compareSegments_of_number_lt {front m n back rest : String} (hfront : EndsPlain front.toList)
    (hm : IsRun m.toList) (hn : IsRun n.toList) (hback : BeginsPlain back.toList)
    (hrest : BeginsPlain rest.toList) (h : natOfDigits m.toList < natOfDigits n.toList) :
    compareSegments (front ++ m ++ back) (front ++ n ++ rest) = .lt := by
  simp only [compareSegments, String.toList_append, List.append_assoc]
  rw [tokens_append hfront, tokens_append hfront, compareTokens_append, tokens_run_append hm hback,
    tokens_run_append hn hrest, compareTokens, Token.compare, compareRuns_eq hm hn,
    Nat.compare_eq_lt.2 h]
  rfl

/-- **Segments are strictly and totally ordered, with numbers by their values.** -/
theorem compareSegments_strict_total_order :
    (∀ a b, compareSegments a b = .eq ↔ a = b) ∧
    (∀ a b, compareSegments b a = (compareSegments a b).swap) ∧
    (∀ a b c, compareSegments a b = .lt → compareSegments b c = .lt → compareSegments a c = .lt) ∧
    (∀ front m n back rest : String, EndsPlain front.toList → IsRun m.toList → IsRun n.toList →
      BeginsPlain back.toList → BeginsPlain rest.toList →
      natOfDigits m.toList < natOfDigits n.toList →
      compareSegments (front ++ m ++ back) (front ++ n ++ rest) = .lt) :=
  ⟨fun _ _ => Std.LawfulEqCmp.compare_eq_iff_eq, fun _ _ => Std.OrientedCmp.eq_swap,
    fun _ _ _ => Std.TransCmp.lt_trans,
    fun _ _ _ _ _ hfront hm hn hback hrest => compareSegments_of_number_lt hfront hm hn hback hrest⟩

/-- `item9b` comes before `item0010`, although it is shorter and its digit is greater. -/
theorem compareSegments_strict_total_order_items :
    natOfDigits "9".toList < natOfDigits "0010".toList ∧
    compareSegments ("item" ++ "9" ++ "b") ("item" ++ "0010" ++ "") = .lt ∧
    compareSegments "item0010" "item9b" = .gt := by
  have hlt := compareSegments_strict_total_order.2.2.2 "item" "9" "0010" "b" "" rfl (by decide)
    (by decide) rfl rfl (by decide)
  refine ⟨by decide, hlt, ?_⟩
  rw [compareSegments_strict_total_order.2.1 "item9b" "item0010"]
  exact congrArg Ordering.swap hlt

end ScriptStore.Variables
