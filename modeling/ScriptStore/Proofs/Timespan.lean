import ScriptStore.Proofs.Text.Case
import ScriptStore.Proofs.Text.Cutting
import ScriptStore.Timespan

/-!
# Clock times

A text with a colon is a timespan exactly if it is a clock time, perhaps with blanks around it, of no
more milliseconds than fit 64 bits (`parse_clock_iff`). As no part is negative, no sum on the way is
too large unless the last one is. No amount and no unit has a colon, and lower-casing makes a clock
time of nothing else.
-/

namespace ScriptStore

theorem Number.toInt64?_eq_some {i : Int} {n : Int64} : toInt64? i = some n ↔ n.toInt = i := by
  simp only [toInt64?, fitsInt64, Option.ite_none_right_eq_some, Bool.and_eq_true, decide_eq_true_eq,
    Option.some.injEq]
  constructor
  · rintro ⟨⟨hlow, hhigh⟩, rfl⟩
    exact Int64.toInt_ofInt_of_le hlow (Int.lt_of_le_of_lt hhigh (by decide))
  · rintro rfl
    exact ⟨⟨n.minValue_le_toInt, n.toInt_le⟩, n.ofInt_toInt⟩

namespace Timespan

open Number (toInt64? toInt64?_eq_some)
open Text (isDigit natOfDigits splitWhere)

/-! ## Adding up -/

theorem exists_toInt_eq {n : Nat} (hmax : n ≤ Int64.maxValue.toInt) : ∃ m : Int64, m.toInt = n := by
  refine ⟨Int64.ofInt n, Int64.toInt_ofInt_of_le ?_ (Int.lt_of_le_of_lt hmax (by decide))⟩
  exact Int.le_trans (by decide) (Int.natCast_nonneg n)

theorem bind_addPart (n : Nat) {part : List Char × Nat} (hunit : 1 ≤ part.2) :
    (toInt64? n).bind (addPart · part) = toInt64? (n + natOfDigits part.1 * part.2 : Nat) := by
  ext m
  simp only [addPart, Option.bind_eq_some_iff, toInt64?_eq_some]
  constructor
  · intro ⟨a, ha, b, hb, k, hk, hm⟩
    rw [hm, ha, hk, hb]
    rfl
  · intro hm
    -- neither factor and neither summand is larger than what comes out
    have hle := Nat.le_mul_of_pos_right (natOfDigits part.1) hunit
    have hmax := m.toInt_le
    obtain ⟨a, ha⟩ := exists_toInt_eq (n := n) (by omega)
    obtain ⟨b, hb⟩ := exists_toInt_eq (n := natOfDigits part.1) (by omega)
    obtain ⟨k, hk⟩ := exists_toInt_eq (n := natOfDigits part.1 * part.2) (by omega)
    exact ⟨a, ha, b, hb, k, by rw [hk, hb]; rfl, by rw [hm, ha, hk]; rfl⟩

/-- What parts of a clock time come to. -/
def total (parts : List (List Char × Nat)) : Nat := (parts.map fun p => natOfDigits p.1 * p.2).sum

/-- **Parts are added up if their sum fits 64 bits.** -/
theorem bind_foldlM_addPart {parts : List (List Char × Nat)} (hunits : ∀ p ∈ parts, 1 ≤ p.2) (n : Nat) :
    (toInt64? n).bind (parts.foldlM addPart) = toInt64? (n + total parts : Nat) := by
  induction parts generalizing n with
  | nil => exact Option.bind_fun_some _
  | cons p parts ih =>
    obtain ⟨hunit, hunits⟩ := List.forall_mem_cons.1 hunits
    have hcons : n + total (p :: parts) = n + natOfDigits p.1 * p.2 + total parts := by
      simp [total, Nat.add_assoc]
    rw [hcons, ← ih hunits, ← bind_addPart n hunit, Option.bind_assoc]
    rfl

/-! ## Clock times -/

/-- The digits of a clock time. -/
structure Clock where
  hours : List Char
  minutes : List Char
  seconds : Option (List Char)
  fraction : Option (List Char)
  numeral : isNumeral hours = true
  two : ∀ part ∈ minutes :: seconds.toList, isNumeral part = true ∧ part.length = 2
  upToFour : ∀ part ∈ fraction, isNumeral part = true ∧ part.length ≤ 4

/-- A part that may be there, with the mark before it. -/
def behind (mark : Char) (part : Option (List Char)) : List Char := (part.map (mark :: ·)).getD []

theorem toNat_of_isNumeral {s : List Char} (h : isNumeral s = true) {c : Char} (hc : c ∈ s) :
    0x30 ≤ c.toNat ∧ c.toNat < 0x3A := by
  simp only [isNumeral, isDigit, Bool.and_eq_true, List.all_eq_true, decide_eq_true_eq] at h
  exact ⟨(h.2 c hc).1, Nat.lt_succ_of_le (h.2 c hc).2⟩

namespace Clock

variable (c : Clock)

def time : List Char := c.hours ++ ':' :: (c.minutes ++ behind ':' c.seconds)

def text : List Char := c.time ++ behind '.' c.fraction

def millis : Nat :=
  natOfDigits c.hours * 3600000 + natOfDigits c.minutes * 60000 +
    natOfDigits (c.seconds.getD []) * 1000 + natOfDigits (c.fraction.getD [])

def parts : List (List Char) := c.hours :: c.minutes :: c.seconds.toList

theorem isNumeral_of_mem {part : List Char} (h : part ∈ c.parts) : isNumeral part = true := by
  rcases List.mem_cons.1 h with rfl | h
  · exact c.numeral
  · exact (c.two part h).1

theorem foldlM_parts :
    (c.parts.zip clockUnits ++ c.fraction.toList.map (·, 1)).foldlM addPart 0 = toInt64? c.millis := by
  have hunits : ∀ p ∈ c.parts.zip clockUnits ++ c.fraction.toList.map (·, 1), 1 ≤ p.2 := by
    intro p hp
    rcases List.mem_append.1 hp with hp | hp
    · exact (show ∀ u ∈ clockUnits, 1 ≤ u by decide) p.2 (List.of_mem_zip hp).2
    · obtain ⟨_, _, rfl⟩ := List.mem_map.1 hp
      exact Nat.le_refl 1
  have htotal : 0 + total (c.parts.zip clockUnits ++ c.fraction.toList.map (·, 1)) = c.millis := by
    rw [parts, millis]
    cases c.seconds <;> cases c.fraction <;>
      simp [total, clockUnits, hour, minute, second, natOfDigits, Nat.add_assoc]
  rw [← htotal, ← bind_foldlM_addPart hunits]
  rfl

theorem eq_time_of_splitWhere {s : List Char} (h : splitWhere (· == ':') s = c.parts) :
    s = c.time := by
  have hjoin := Text.flatMap_splitWhere ':' s
  rw [h, parts] at hjoin
  refine List.append_cancel_right (hjoin.symm.trans ?_ : s ++ [':'] = c.time ++ [':'])
  rw [time]
  cases c.seconds <;> simp [behind]

theorem splitWhere_time : splitWhere (· == ':') c.time = c.parts := by
  have hplain : ∀ part ∈ c.parts, ∀ e ∈ part, (e == ':') = false := by
    intro part hpart e he
    refine beq_false_of_ne fun heq => ?_
    have hlt := (toNat_of_isNumeral (c.isNumeral_of_mem hpart) he).2
    rw [heq] at hlt
    exact absurd hlt (by decide)
  rw [time, Text.splitWhere_append_cons (hplain _ (.head _)) rfl, parts]
  rw [parts] at hplain
  cases hs : c.seconds with
  | none =>
    rw [behind, Option.map_none, Option.getD_none, List.append_nil,
      Text.splitWhere_of_forall (hplain _ (.tail _ (.head _)))]
    rfl
  | some seconds =>
    rw [hs] at hplain
    rw [behind, Option.map_some, Option.getD_some,
      Text.splitWhere_append_cons (hplain _ (.tail _ (.head _))) rfl,
      Text.splitWhere_of_forall (hplain _ (.tail _ (.tail _ (.head _))))]
    rfl

theorem toNat_time {e : Char} (he : e ∈ c.time) : 0x30 ≤ e.toNat ∧ e.toNat ≤ 0x3A := by
  have hmem : e ∈ c.parts.flatMap (· ++ [':']) := by
    rw [← c.splitWhere_time, Text.flatMap_splitWhere]
    exact List.mem_append_left _ he
  obtain ⟨part, hpart, he⟩ := List.mem_flatMap.1 hmem
  rcases List.mem_append.1 he with he | he
  · have hdigit := toNat_of_isNumeral (c.isNumeral_of_mem hpart) he
    omega
  · rw [List.mem_singleton.1 he]
    decide

theorem toNat_text {e : Char} (he : e ∈ c.text) : e.toNat < 0x41 := by
  rcases List.mem_append.1 he with he | he
  · have htime := c.toNat_time he
    omega
  · cases hf : c.fraction with
    | none => simp [behind, hf] at he
    | some part =>
      rw [hf] at he
      rcases List.mem_cons.1 he with rfl | he
      · decide
      · have hdigit := toNat_of_isNumeral (c.upToFour part hf).1 he
        omega

theorem cutClock_eq_iff {s : List Char} : cutClock s = (c.parts, c.fraction) ↔ s = c.text := by
  constructor
  · intro h
    rw [cutClock] at h
    split at h
    · next time fraction hcut =>
      obtain ⟨hparts, hfraction⟩ := Prod.mk.inj h
      rw [(Text.splitOnce_char.1 hcut).2, c.eq_time_of_splitWhere hparts, text, ← hfraction]
      rfl
    · obtain ⟨hparts, hfraction⟩ := Prod.mk.inj h
      rw [c.eq_time_of_splitWhere hparts, text, ← hfraction]
      exact (List.append_nil _).symm
  · intro h
    have hdot : '.' ∉ c.time := fun hmem => absurd (c.toNat_time hmem).1 (by decide)
    rw [h, text, cutClock]
    cases c.fraction with
    | some fraction =>
      rw [behind, Option.map_some, Option.getD_some, Text.splitOnce_char.2 ⟨hdot, rfl⟩]
      exact congrArg (·, some fraction) c.splitWhere_time
    | none =>
      rw [behind, Option.map_none, Option.getD_none, List.append_nil]
      split
      · next hcut =>
        rw [(Text.splitOnce_char.1 hcut).2] at hdot
        simp at hdot
      · rw [c.splitWhere_time]

end Clock

theorem isClock_iff {parts : List (List Char)} {fraction : Option (List Char)} :
    isClock parts fraction = true ↔ ∃ c : Clock, parts = c.parts ∧ fraction = c.fraction := by
  simp only [isClock, Bool.and_eq_true, decide_eq_true_eq, List.all_eq_true, Option.all_eq_true,
    beq_iff_eq]
  constructor
  · rintro ⟨⟨⟨⟨hlow, hhigh⟩, hparts⟩, htwo⟩, hfraction⟩
    obtain ⟨hours, minutes, seconds, rfl⟩ :
        ∃ h m, ∃ s : Option (List Char), parts = h :: m :: s.toList := by
      rcases parts with _ | ⟨h, _ | ⟨m, _ | ⟨s, _ | _⟩⟩⟩
      · simp at hlow
      · simp at hlow
      · exact ⟨h, m, none, rfl⟩
      · exact ⟨h, m, some s, rfl⟩
      · simp at hhigh
        omega
    exact ⟨⟨hours, minutes, seconds, fraction, hparts _ (.head _),
      fun part hpart => ⟨hparts part (.tail _ hpart), htwo part hpart⟩, hfraction⟩, rfl, rfl⟩
  · rintro ⟨c, rfl, rfl⟩
    have hlength : c.parts.length = 2 + c.seconds.toList.length := Nat.add_comm _ 2
    have hone : c.seconds.toList.length ≤ 1 := by cases c.seconds <;> simp
    exact ⟨⟨⟨⟨by omega, by omega⟩, fun part hpart => c.isNumeral_of_mem hpart⟩,
      fun part hpart => (c.two part hpart).2⟩, c.upToFour⟩

theorem parseClock_eq_some {s : List Char} {t : Timespan} :
    parseClock s = some t ↔ ∃ c : Clock, s = c.text ∧ t.millis.toInt = c.millis := by
  rw [parseClock]
  constructor
  · intro h
    rcases hcut : cutClock s with ⟨parts, fraction⟩
    rw [hcut] at h
    obtain ⟨hclock, hsum⟩ := Option.ite_none_right_eq_some.1 h
    obtain ⟨c, rfl, rfl⟩ := isClock_iff.1 hclock
    obtain ⟨n, hn, rfl⟩ := Option.map_eq_some_iff.1 hsum
    rw [c.foldlM_parts] at hn
    exact ⟨c, c.cutClock_eq_iff.1 hcut, toInt64?_eq_some.1 hn⟩
  · intro ⟨c, hs, hmillis⟩
    rw [c.cutClock_eq_iff.2 hs]
    dsimp only
    rw [if_pos (isClock_iff.2 ⟨c, rfl, rfl⟩), c.foldlM_parts, toInt64?_eq_some.2 hmillis]
    rfl

/-! ## Texts with a colon -/

/-- No word with a colon is an amount or a unit. -/
theorem word_of_colon {word : List Char} (h : ':' ∈ word) (t : Tally) : t.word word = none := by
  have hne : ∀ text : List Char, ':' ∉ text → (word == text) = false := by
    intro text htext
    exact beq_false_of_ne fun heq => htext (heq ▸ h)
  have hdecimal : Number.unsignedDecimal word = none := by
    have hmem := Text.mem_flatten_splitWhere (p := (· == '.')) h (by decide)
    have hall : ∀ digits : List Char, ':' ∈ digits → digits.all isDigit = false := fun digits hd =>
      List.all_eq_false.2 ⟨':', hd, by decide⟩
    rw [Number.unsignedDecimal]
    split
    · next whole hsplit =>
      rw [hsplit, List.flatten_singleton] at hmem
      simp [hall _ hmem]
    · next whole places hsplit =>
      rw [hsplit, List.flatten_cons, List.flatten_singleton] at hmem
      dsimp only
      rw [hall _ hmem, Bool.not_false, Bool.or_true, if_pos rfl]
    · rfl
  have hunit : unit? word = none := by
    have hcolon : ∀ u ∈ units, ':' ∉ u.singular.toList ∧ ':' ∉ u.plural.toList := by decide
    rw [unit?, List.find?_eq_none]
    intro u hu
    simp [hne _ (hcolon u hu).1, hne _ (hcolon u hu).2]
  rw [Tally.word, hne _ (by decide), amount?, hne _ (by decide), hne _ (by decide), hdecimal, hunit]
  cases t.amount <;> rfl

theorem foldlM_word_of_colon {words : List (List Char)} {word : List Char} (hmem : word ∈ words)
    (h : ':' ∈ word) (t : Tally) : words.foldlM Tally.word t = none := by
  induction words generalizing t with
  | nil => cases hmem
  | cons w words ih =>
    rw [List.foldlM_cons]
    rcases List.mem_cons.1 hmem with rfl | hmem
    · rw [word_of_colon h]
      rfl
    · cases t.word w with
      | none => rfl
      | some t => exact ih hmem t

theorem parseWords_of_colon {s : List Char} (h : ':' ∈ s) : parseWords s = none := by
  obtain ⟨word, hword, hcolon⟩ := List.mem_flatten.1
    (Text.mem_flatten_splitWhere (p := fun c => Text.isBlank c || c == ',') h (by decide))
  have hne : (!word.isEmpty) = true := by cases word <;> simp_all
  rw [parseWords, foldlM_word_of_colon (List.mem_filter.2 ⟨hword, hne⟩) hcolon]

theorem parse_of_colon {input : String} (h : ':' ∈ input.toList) :
    parse input = parseClock (Text.lowerFrom [] (Text.trim input.toList)) := by
  have htrim : ':' ∈ Text.trim input.toList := by
    rwa [← List.count_pos_iff, Text.count_trim (by decide), List.count_pos_iff]
  have hlower := Text.mem_lowerFrom (by decide) htrim []
  have hzero : (Text.lowerFrom [] (Text.trim input.toList) == ['0']) = false :=
    beq_false_of_ne fun heq => absurd (heq ▸ hlower) (by decide)
  rw [parse, Text.lowercase, Text.trimmed, String.toList_ofList, String.toList_ofList, hzero,
    parseWords_of_colon hlower]
  cases parseClock (Text.lowerFrom [] (Text.trim input.toList)) <;> rfl

/-- **A text with a colon is a timespan of `n` milliseconds exactly if it is a clock time of `n`
milliseconds**, where these fit 64 bits. -/
theorem parse_clock_iff {input : String} (hcolon : ':' ∈ input.toList) {n : Int} :
    (parse input).map (·.millis.toInt) = some n ↔
      ∃ c : Clock, Text.trim input.toList = c.text ∧ c.millis = n ∧ n ≤ Int64.maxValue.toInt := by
  have hlower : ∀ c : Clock, Text.lowerFrom [] (Text.trim input.toList) = c.text ↔
      Text.trim input.toList = c.text := fun c => Text.lowerFrom_eq_iff fun e he => c.toNat_text he
  simp only [parse_of_colon hcolon, Option.map_eq_some_iff, parseClock_eq_some, hlower]
  constructor
  · rintro ⟨t, ⟨c, htext, hmillis⟩, rfl⟩
    exact ⟨c, htext, hmillis.symm, t.millis.toInt_le⟩
  · rintro ⟨c, htext, rfl, hmax⟩
    obtain ⟨m, hm⟩ := exists_toInt_eq hmax
    exact ⟨⟨m⟩, ⟨c, htext, hm⟩, hm⟩

theorem parse_clock_seconds : ':' ∈ " 0:01:05.250".toList ∧
    (parse " 0:01:05.250").map (·.millis.toInt) = some 65250 := by
  have hcolon : ':' ∈ " 0:01:05.250".toList := by decide +kernel
  exact ⟨hcolon, (parse_clock_iff hcolon).2 ⟨⟨['0'], ['0', '1'], some ['0', '5'],
    some ['2', '5', '0'], rfl, by decide, by decide⟩, rfl, by decide, by decide⟩⟩

end Timespan

end ScriptStore
