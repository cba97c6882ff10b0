import Mathlib
import ScriptStore.Text.Case

/-!
# Two ways to disregard case

Texts are compared by their lower-cased forms, or up to the case of the letters `A` to `Z` only. The
second way is the finer one: texts that differ in the case of these letters have one lower-cased form,
since the case of a letter has no part in whether a sigma behind it is final. For texts of ASCII
characters the two ways are one; other letters are told apart by the second way alone.
-/

namespace ScriptStore.Text

/-- What is the same for the capitals and their small letters is so for every character. -/
theorem apply_toLower {β : Type} [DecidableEq β] (f : Char → β)
    (h : (List.range' 65 26).all (fun n => f (Char.ofNat n).toLower == f (Char.ofNat n)) = true)
    (c : Char) : f c.toLower = f c := by
  by_cases hc : c.val ≥ 'A'.val ∧ c.val ≤ 'Z'.val
  · have hlow : 65 ≤ c.toNat := hc.1
    have hhigh : c.toNat ≤ 90 := hc.2
    have hmem : c.toNat ∈ List.range' 65 26 := List.mem_range'_1.2 ⟨hlow, by omega⟩
    have hsame := List.all_eq_true.1 h _ hmem
    rw [Char.ofNat_toNat] at hsame
    exact eq_of_beq hsame
  · rw [Char.toLower, dif_neg hc]

theorem isCased_toLower (c : Char) : isCased c.toLower = isCased c :=
  apply_toLower isCased (by decide +kernel) c

theorem isCaseIgnorable_toLower (c : Char) : isCaseIgnorable c.toLower = isCaseIgnorable c :=
  apply_toLower isCaseIgnorable (by decide +kernel) c

theorem lowerChar_toLower (c : Char) : lowerChar c.toLower = lowerChar c :=
  apply_toLower lowerChar (by decide +kernel) c

theorem isSigma_toLower (c : Char) : (c.toLower == 'Σ') = (c == 'Σ') :=
  apply_toLower (· == 'Σ') (by decide +kernel) c

theorem meetsCased_map_toLower (s : List Char) : meetsCased (s.map Char.toLower) = meetsCased s := by
  have hsame : isCaseIgnorable ∘ Char.toLower = isCaseIgnorable := funext isCaseIgnorable_toLower
  rw [meetsCased, meetsCased, List.dropWhile_map, hsame]
  cases s.dropWhile isCaseIgnorable with
  | nil => rfl
  | cons c rest => exact isCased_toLower c

theorem lowerFrom_map_toLower (before s : List Char) :
    lowerFrom (before.map Char.toLower) (s.map Char.toLower) = lowerFrom before s := by
  induction s generalizing before with
  | nil => rfl
  | cons c rest ih =>
    have hrest := ih (c :: before)
    rw [List.map_cons] at hrest
    rw [List.map_cons, lowerFrom, lowerFrom, hrest, isSigma_toLower, lowerChar_toLower,
      meetsCased_map_toLower, meetsCased_map_toLower]

theorem sameIgnoringAsciiCase_iff {a b : String} :
    sameIgnoringAsciiCase a b = true ↔ a.toList.map Char.toLower = b.toList.map Char.toLower :=
  beq_iff_eq

/-- **Texts that are the same up to the case of `A` to `Z` are lower-cased to one text.** -/
theorem lowercase_eq_of_same {a b : String} (h : sameIgnoringAsciiCase a b = true) :
    lowercase a = lowercase b := by
  have hchars : ∀ s : String, lowercase s = String.ofList (lowerFrom [] (s.toList.map Char.toLower)) :=
    fun s => congrArg String.ofList (lowerFrom_map_toLower [] s.toList).symm
  rw [hchars a, hchars b, sameIgnoringAsciiCase_iff.1 h]

/-! ## ASCII -/

/-- Whether a text has ASCII characters only. -/
def isAscii (s : String) : Bool := s.toList.all fun c => c.toNat < 0x80

theorem lowerFrom_cons_of_ascii {c : Char} (hc : c.toNat < 0x80) (before rest : List Char) :
    lowerFrom before (c :: rest) = c.toLower :: lowerFrom (c :: before) rest := by
  have hsigma : (c == 'Σ') = false := by
    rw [beq_eq_false_iff_ne]
    rintro rfl
    exact absurd hc (by decide)
  rw [lowerFrom, hsigma, if_neg Bool.false_ne_true, lowerChar, if_pos hc, List.singleton_append]

theorem lowerFrom_of_ascii {s : List Char} (h : ∀ c ∈ s, c.toNat < 0x80) (before : List Char) :
    lowerFrom before s = s.map Char.toLower := by
  induction s generalizing before with
  | nil => rfl
  | cons c rest ih =>
    rw [lowerFrom_cons_of_ascii (h c (.head _)), ih fun d hd => h d (.tail _ hd), List.map_cons]

/-- **For ASCII texts the two ways to compare agree.** -/
theorem sameIgnoringAsciiCase_iff_lowercase {a b : String} (ha : isAscii a = true)
    (hb : isAscii b = true) : sameIgnoringAsciiCase a b = true ↔ lowercase a = lowercase b := by
  have hlower : ∀ {s : String}, isAscii s = true →
      lowercase s = String.ofList (s.toList.map Char.toLower) := by
    intro s hs
    rw [isAscii, List.all_eq_true] at hs
    rw [lowercase, lowerFrom_of_ascii fun c hc => of_decide_eq_true (hs c hc)]
  rw [hlower ha, hlower hb, sameIgnoringAsciiCase_iff, String.ofList_inj]

/-! ## Characters before the letters -/

/-- No small letter stands before the capitals of ASCII. -/
theorem mapRuns_lowerRuns {n : Nat} (hn : 0x41 ≤ n) (hvalid : n.isValidChar) :
    0x41 ≤ mapRuns lowerRuns n ∧ (mapRuns lowerRuns n).isValidChar := by
  have hruns : lowerRuns.all (fun r => 0x41 ≤ r.first + r.shift && (r.last + r.shift < 0xD800 ||
      0xDFFF < r.first + r.shift && r.last + r.shift < 0x110000)) = true := by decide +kernel
  rw [mapRuns]
  split
  · next r hfind =>
    have hr := List.all_eq_true.1 hruns r (List.mem_of_find?_eq_some hfind)
    have hin := List.find?_some hfind
    simp only [Run.contains, Bool.and_eq_true, Bool.or_eq_true, decide_eq_true_eq] at hr hin
    rw [Nat.isValidChar]
    omega
  · exact ⟨hn, hvalid⟩

theorem lowerFrom_cons_of_lt {c : Char} (hc : c.toNat < 0x41) (before rest : List Char) :
    lowerFrom before (c :: rest) = c :: lowerFrom (c :: before) rest := by
  have hlower : c.toLower = c := dif_neg fun h => Nat.not_lt.2 h.1 hc
  rw [lowerFrom_cons_of_ascii (Nat.lt_trans hc (by decide)), hlower]

theorem lowerFrom_cons_of_le {c : Char} (hc : 0x41 ≤ c.toNat) (before rest : List Char) :
    ∃ d ds, lowerFrom before (c :: rest) = d :: ds ∧ 0x41 ≤ d.toNat := by
  by_cases hascii : c.toNat < 0x80
  · have hsame := apply_toLower (fun c => decide (0x41 ≤ c.toNat)) (by decide +kernel) c
    exact ⟨_, _, lowerFrom_cons_of_ascii hascii before rest, by simpa [hc] using hsame⟩
  · rw [lowerFrom, lowerChar, if_neg hascii]
    obtain ⟨hle, hvalid⟩ := mapRuns_lowerRuns hc c.valid
    split
    · split <;> exact ⟨_, _, rfl, by decide⟩
    · split
      · exact ⟨_, _, rfl, by decide⟩
      · exact ⟨_, _, rfl, by rwa [Char.toNat_ofNat, if_pos hvalid]⟩

/-- **A text before the letters is lower-cased to itself, and no other text is lower-cased to it.** -/
theorem lowerFrom_eq_iff {before s t : List Char} (ht : ∀ c ∈ t, c.toNat < 0x41) :
    lowerFrom before s = t ↔ s = t := by
  induction s generalizing before t with
  | nil => rfl
  | cons c s ih =>
    by_cases hc : c.toNat < 0x41
    · rw [lowerFrom_cons_of_lt hc]
      cases t with
      | nil => simp
      | cons d t => rw [List.cons.injEq, List.cons.injEq, ih fun e he => ht e (.tail _ he)]
    · obtain ⟨d, ds, hlower, hd⟩ := lowerFrom_cons_of_le (Nat.not_lt.1 hc) before s
      rw [hlower]
      constructor
      · rintro rfl
        exact absurd (ht d (.head _)) (Nat.not_lt.2 hd)
      · rintro rfl
        exact absurd (ht c (.head _)) hc

theorem mem_lowerFrom {c : Char} (hc : c.toNat < 0x41) {s : List Char} (h : c ∈ s)
    (before : List Char) : c ∈ lowerFrom before s := by
  induction s generalizing before with
  | nil => cases h
  | cons d s ih =>
    rcases List.mem_cons.1 h with rfl | h
    · rw [lowerFrom_cons_of_lt hc]
      exact .head _
    · rw [lowerFrom]
      exact List.mem_append_right _ (ih h _)

end ScriptStore.Text
