import ScriptStore.Variables.Name

/-!
# The order of segments

Segments are compared piece by piece. Each piece has a key, and comparing two pieces is comparing
their keys lexicographically; so comparing two segments is comparing their lists of keys, and the
laws of a strict total order come from those of the lexicographic order of lists. That only
identical segments compare as equal needs one more fact: a segment can be read off its keys.
-/

namespace ScriptStore.Variables

attribute [local instance] lexOrd

/-! ## Pieces by their keys -/

/-- The place of a character among runs, which all stand at `0`: characters before `0` stay before
them, all others come after. -/
def charRank (c : Char) : Nat := if c < '0' then c.toNat else c.toNat + 1

def Token.key : Token → Nat × Nat × List Nat × Int
  | .run ds =>
    ('0'.toNat, (significant ds).length, (significant ds).map Char.toNat,
      -((ds.length - (significant ds).length : Nat) : Int))
  | .char c => (charRank c, 0, [], 0)

theorem charRank_lt {c : Char} (h : c < '0') : charRank c < '0'.toNat := by
  rw [charRank, if_pos h]
  exact h

theorem lt_charRank {c : Char} (h : ¬c < '0') : '0'.toNat < charRank c := by
  rw [charRank, if_neg h]
  exact Nat.lt_succ_of_le (Nat.not_lt.1 h)

theorem compare_charRank (c d : Char) : compare (charRank c) (charRank d) = compare c.toNat d.toNat := by
  have hc : c < '0' ↔ c.toNat < '0'.toNat := Iff.rfl
  have hd : d < '0' ↔ d.toNat < '0'.toNat := Iff.rfl
  have hlt : charRank c < charRank d ↔ c.toNat < d.toNat := by grind [charRank]
  have heq : charRank c = charRank d ↔ c.toNat = d.toNat := by grind [charRank]
  change compareOfLessAndEq _ _ = compareOfLessAndEq _ _
  simp only [compareOfLessAndEq, hlt, heq]

theorem compareChars_eq (a b : List Char) :
    compareChars a b = compare (a.map Char.toNat) (b.map Char.toNat) := by
  induction a generalizing b with
  | nil => cases b <;> rfl
  | cons c a ih =>
    cases b with
    | nil => rfl
    | cons d b => rw [compareChars, ih, List.map_cons, List.map_cons, List.compare_cons_cons]

/-- Counting downwards turns a comparison around. -/
theorem compare_neg_cast (m n : Nat) : compare (-(m : Int)) (-(n : Int)) = compare n m := by
  have hlt : -(m : Int) < -(n : Int) ↔ n < m := by omega
  have heq : -(m : Int) = -(n : Int) ↔ n = m := by omega
  change compareOfLessAndEq _ _ = compareOfLessAndEq _ _
  simp only [compareOfLessAndEq, hlt, heq]

theorem compare_mk {α β : Type} [Ord α] [Ord β] (a c : α) (b d : β) :
    compare (a, b) (c, d) = (compare a c).then (compare b d) := rfl

theorem Token.compare_eq (a b : Token) : a.compare b = Ord.compare a.key b.key := by
  match a, b with
  | .run a, .run b =>
    simp only [Token.compare, Token.key, compareRuns, compare_mk, compare_neg_cast,
      compareChars_eq, Ordering.then_assoc, Std.ReflOrd.compare_self, Ordering.eq_then]
  -- a run and a single character differ in the first component already
  | .run a, .char c =>
    simp only [Token.compare, Token.key, compare_mk]
    split
    · next h => rw [Nat.compare_eq_gt.2 (charRank_lt h), Ordering.gt_then]
    · next h => rw [Nat.compare_eq_lt.2 (lt_charRank h), Ordering.lt_then]
  | .char c, .run b =>
    simp only [Token.compare, Token.key, compare_mk]
    split
    · next h => rw [Nat.compare_eq_lt.2 (charRank_lt h), Ordering.lt_then]
    · next h => rw [Nat.compare_eq_gt.2 (lt_charRank h), Ordering.gt_then]
  | .char c, .char d =>
    simp only [Token.compare, Token.key, compare_mk, compare_charRank, Std.ReflOrd.compare_self,
      Ordering.then_eq]

theorem compareTokens_eq (a b : List Token) :
    compareTokens a b = compare (a.map Token.key) (b.map Token.key) := by
  induction a generalizing b with
  | nil => cases b <;> rfl
  | cons t a ih =>
    cases b with
    | nil => rfl
    | cons u b =>
      rw [compareTokens, ih, Token.compare_eq, List.map_cons, List.map_cons,
        List.compare_cons_cons]

/-! ## A segment is read off its keys -/

def Token.text : Token → List Char
  | .run ds => ds
  | .char c => [c]

theorem flatMap_text_tokens (s : List Char) : (tokens s).flatMap Token.text = s := by
  induction s with
  | nil => rfl
  | cons c s ih =>
    rw [tokens]
    split
    · split
      · next ds more h =>
        rw [h] at ih
        simpa [Token.text] using ih
      · simpa [Token.text] using ih
    · simpa [Token.text] using ih

theorem run_ne_nil {s ds : List Char} (h : Token.run ds ∈ tokens s) : ds ≠ [] := by
  induction s generalizing ds with
  | nil => simp [tokens] at h
  | cons c s ih =>
    rw [tokens] at h
    split at h
    · split at h
      · next es more he =>
        rcases List.mem_cons.1 h with h | h
        · cases h
          exact List.cons_ne_nil _ _
        · exact ih (he ▸ List.mem_cons_of_mem _ h)
      · rcases List.mem_cons.1 h with h | h
        · cases h
          exact List.cons_ne_nil _ _
        · exact ih h
    · rcases List.mem_cons.1 h with h | h
      · cases h
      · exact ih h

theorem significant_zero_cons (ds : List Char) : significant ('0' :: ds) = significant ds := by
  simp [significant]

theorem significant_cons {c : Char} (h : c ≠ '0') (ds : List Char) :
    significant (c :: ds) = c :: ds := by
  simp [significant, h]

/-- A run is its significant digits behind zeros. -/
theorem exists_zeros (ds : List Char) (h : ds ≠ []) :
    ∃ n, ds = List.replicate n '0' ++ significant ds := by
  induction ds with
  | nil => exact absurd rfl h
  | cons c ds ih =>
    by_cases hc : c = '0'
    · subst hc
      by_cases hds : ds = []
      · exact ⟨0, by simp [hds, significant]⟩
      · obtain ⟨n, hn⟩ := ih hds
        refine ⟨n + 1, ?_⟩
        rw [significant_zero_cons, List.replicate_succ, List.cons_append, ← hn]
    · exact ⟨0, by simp [significant_cons hc]⟩

theorem map_toNat_inj {a b : List Char} : a.map Char.toNat = b.map Char.toNat ↔ a = b :=
  List.map_inj_right fun _ _ => Char.toNat_inj.1

theorem run_eq_of_key {a b : List Char} (ha : a ≠ []) (hb : b ≠ [])
    (h : (Token.run a).key = (Token.run b).key) : a = b := by
  simp only [Token.key, Prod.mk.injEq, map_toNat_inj, true_and] at h
  obtain ⟨_, hsig, hpad⟩ := h
  obtain ⟨m, hm⟩ := exists_zeros a ha
  obtain ⟨n, hn⟩ := exists_zeros b hb
  have hma : a.length = m + (significant a).length := by
    conv => lhs; rw [hm]
    simp
  have hnb : b.length = n + (significant b).length := by
    conv => lhs; rw [hn]
    simp
  have : m = n := by omega
  rw [hm, hn, hsig, this]

theorem char_eq_of_key {c d : Char} (h : (Token.char c).key = (Token.char d).key) : c = d := by
  simp only [Token.key, Prod.mk.injEq, and_true] at h
  have := compare_charRank c d
  rw [h, Std.ReflOrd.compare_self] at this
  exact Char.toNat_inj.1 (Nat.compare_eq_eq.1 this.symm)

theorem run_key_ne_char_key (ds : List Char) (c : Char) :
    (Token.run ds).key ≠ (Token.char c).key := by
  intro h
  have hrank : '0'.toNat = charRank c := congrArg Prod.fst h
  by_cases hc : c < '0'
  · exact Nat.ne_of_gt (charRank_lt hc) hrank
  · exact Nat.ne_of_lt (lt_charRank hc) hrank

theorem tokens_eq_of_keys {a b : List Token} (ha : ∀ ds, .run ds ∈ a → ds ≠ [])
    (hb : ∀ ds, .run ds ∈ b → ds ≠ []) (h : a.map Token.key = b.map Token.key) : a = b := by
  induction a generalizing b with
  | nil =>
    cases b with
    | nil => rfl
    | cons => simp at h
  | cons t a ih =>
    cases b with
    | nil => simp at h
    | cons u b =>
      simp only [List.map_cons, List.cons.injEq] at h
      rw [ih (fun ds hds => ha ds (.tail _ hds)) (fun ds hds => hb ds (.tail _ hds)) h.2]
      congr 1
      match t, u, h.1 with
      | .run ds, .run es, htu =>
        rw [run_eq_of_key (ha ds (.head _)) (hb es (.head _)) htu]
      | .run ds, .char c, htu => exact absurd htu (run_key_ne_char_key ds c)
      | .char c, .run ds, htu => exact absurd htu.symm (run_key_ne_char_key ds c)
      | .char c, .char d, htu => rw [char_eq_of_key htu]

/-- The keys of a segment's pieces. -/
def segmentKey (s : String) : List (Nat × Nat × List Nat × Int) := (tokens s.toList).map Token.key

theorem segmentKey_inj {a b : String} (h : segmentKey a = segmentKey b) : a = b := by
  have hab : tokens a.toList = tokens b.toList :=
    tokens_eq_of_keys (fun _ => run_ne_nil) (fun _ => run_ne_nil) h
  have := congrArg (List.flatMap Token.text) hab
  rw [flatMap_text_tokens, flatMap_text_tokens] at this
  exact String.toList_inj.1 this

/-! ## The laws of the order -/

theorem compareSegments_eq (a b : String) :
    compareSegments a b = compare (segmentKey a) (segmentKey b) :=
  compareTokens_eq _ _

instance : Std.TransCmp compareSegments where
  eq_swap {a b} := by
    rw [compareSegments_eq, compareSegments_eq]
    exact Std.OrientedOrd.eq_swap
  isLE_trans {a b c} hab hbc := by
    rw [compareSegments_eq] at hab hbc ⊢
    exact Std.TransOrd.isLE_trans hab hbc

instance : Std.LawfulEqCmp compareSegments where
  eq_of_compare {a b} h := by
    rw [compareSegments_eq] at h
    exact segmentKey_inj (Std.LawfulEqOrd.eq_of_compare h)

/-- What paths have in common at their front does not matter. -/
theorem compareLex_append_left (front a b : List String) :
    (front ++ a).compareLex compareSegments (front ++ b) = a.compareLex compareSegments b := by
  induction front with
  | nil => rfl
  | cons s front ih =>
    have hself : compareSegments s s = .eq := Std.ReflCmp.compare_self
    rw [List.cons_append, List.cons_append, List.compareLex_cons_cons, hself, Ordering.eq_then, ih]

/-- No path comes before itself. -/
theorem compareLex_self_ne_lt (path : List String) :
    path.compareLex compareSegments path ≠ .lt := by
  have hself : path.compareLex compareSegments path = .eq := Std.ReflCmp.compare_self
  rw [hself]
  decide

end ScriptStore.Variables
