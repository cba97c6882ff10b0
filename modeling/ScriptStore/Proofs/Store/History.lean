import Mathlib.Logic.Function.Basic
import ScriptStore.Value

/-!
# Histories of a variable

What storages say about one variable, and what becomes of it when a store is built over them. A
storage gives a history: values, and notes that the variable was deleted. A keyed storage knows the
last value only; a log knows all that was ever appended to it.

Of several storages the last one that gives any value decides (`latest`), and this one decides also
when the variable was deleted there afterwards. Building a store deletes the variable from all other
storages and may move it from the storage that decides to its home (`settled`). In a log the
deletion is appended, so the log goes on giving the old value before it, and it decides again when
the store is built once more, if it stands behind the home. That is the one way to lose a variable,
and `latest_settled` says exactly when it happens.
-/

namespace ScriptStore

/-- What a storage says about a variable, in order: a value, or none where it was deleted. -/
abbrev History := List (Option Value)

namespace History

/-- Whether any value is given. -/
def gives (h : History) : Bool := h.any Option.isSome

/-- The value that is left at the end. -/
def final (h : History) : Option Value := h.getLast?.join

/-- The history after a change. -/
def after (keyed : Bool) (h : History) (v : Option Value) : History :=
  if keyed then v.toList.map some else h ++ [v]

/-- Whether a storage can have this history: a keyed one has at most a value. -/
def Fits (keyed : Bool) (h : History) : Prop :=
  keyed = true → ∃ v : Option Value, h = v.toList.map some

variable {keyed : Bool} {h : History} {v : Value}

theorem gives_of_final (hv : h.final = some v) : h.gives = true := by
  rw [final, Option.join_eq_some_iff] at hv
  exact List.any_eq_true.2 ⟨some v, List.mem_of_getLast? hv, rfl⟩

@[simp]
theorem final_after (keyed : Bool) (h : History) (v : Option Value) :
    (h.after keyed v).final = v := by
  cases keyed <;> cases v <;> simp [after, final]

@[simp]
theorem gives_after_none (keyed : Bool) (h : History) :
    (h.after keyed none).gives = (!keyed && h.gives) := by
  cases keyed <;> simp [after, gives]

/-- A keyed storage that is left with no value has given none. -/
theorem Fits.gives_eq (hfits : Fits keyed h) (hfinal : h.final = none) :
    h.gives = (!keyed && h.gives) := by
  cases keyed with
  | false => rfl
  | true =>
    obtain ⟨v, rfl⟩ := hfits rfl
    cases v with
    | none => rfl
    | some v => cases hfinal

/-- A keyed storage tells what it is left with. -/
theorem Fits.eq_of_final (hfits : Fits true h) {v : Option Value} (hfinal : h.final = v) :
    h = v.toList.map some := by
  obtain ⟨w, rfl⟩ := hfits rfl
  cases w with
  | none => cases hfinal; rfl
  | some w => cases hfinal; rfl

/-- What events say about the variable of a name. -/
def told (name : String) (events : List (String × Option Value)) : History :=
  (events.filter fun e => e.1 = name).map (·.2)

@[simp]
theorem told_nil (name : String) : told name [] = [] := rfl

@[simp]
theorem told_cons (name : String) (e : String × Option Value) (events : List (String × Option Value)) :
    told name (e :: events) = if e.1 = name then e.2 :: told name events else told name events := by
  unfold told
  rw [List.filter_cons]
  by_cases h : e.1 = name <;> simp [h]

theorem told_append (name : String) (events more : List (String × Option Value)) :
    told name (events ++ more) = told name events ++ told name more := by
  rw [told, List.filter_append, List.map_append, told, told]

/-! ## Several storages -/

/-- What the first `n` storages say together: the value, and the place of the storage that gives
it. -/
def latest (H : Nat → History) : Nat → Option (Value × Nat)
  | 0 => none
  | n + 1 => if (H n).gives then (H n).final.map (·, n) else latest H n

variable {H : Nat → History} {n i : Nat}

theorem latest_eq_some_iff :
    latest H n = some (v, i) ↔
      i < n ∧ (H i).final = some v ∧ ∀ j, i < j → j < n → (H j).gives = false := by
  induction n with
  | zero => simp [latest]
  | succ n ih =>
    rw [latest]
    cases hgives : (H n).gives with
    | true =>
      rw [if_pos rfl, Option.map_eq_some_iff]
      constructor
      · rintro ⟨w, hw, heq⟩
        cases heq
        exact ⟨Nat.lt_succ_self _, hw, fun j hj hj' => absurd hj (by omega)⟩
      · rintro ⟨hi, hv, hlater⟩
        rcases Nat.lt_or_eq_of_le (Nat.le_of_lt_succ hi) with hi | rfl
        · rw [hlater n hi (Nat.lt_succ_self n)] at hgives
          cases hgives
        · exact ⟨v, hv, rfl⟩
    | false =>
      rw [if_neg Bool.false_ne_true, ih]
      constructor
      · rintro ⟨hi, hv, hlater⟩
        refine ⟨Nat.lt_succ_of_lt hi, hv, fun j hj hj' => ?_⟩
        rcases Nat.lt_or_eq_of_le (Nat.le_of_lt_succ hj') with hj' | rfl
        · exact hlater j hj hj'
        · exact hgives
      · rintro ⟨hi, hv, hlater⟩
        have hne : i ≠ n := by
          rintro rfl
          rw [gives_of_final hv] at hgives
          cases hgives
        exact ⟨by omega, hv, fun j hj hj' => hlater j hj (Nat.lt_succ_of_lt hj')⟩

theorem latest_eq_none (hfinal : ∀ i < n, (H i).final = none) : latest H n = none := by
  cases hlatest : latest H n with
  | none => rfl
  | some e =>
    obtain ⟨hi, hv, _⟩ := latest_eq_some_iff.1 hlatest
    rw [hfinal e.2 hi] at hv
    cases hv

/-! ## Loading -/

/-- The histories when the storage at place `i` has been told to delete the variable. -/
def without (keyed : Nat → Bool) (V : Nat → History) (i : Nat) : Nat → History :=
  Function.update V i ((V i).after (keyed i) none)

/-- Takes an event of the storage at `place` into what was loaded, and into the histories: the
storage that had the variable before is told to delete it. -/
def mergeEvent (keyed : Nat → Bool) (place : Nat) (s : Option (Value × Nat) × (Nat → History)) :
    Option Value → Option (Value × Nat) × (Nat → History)
  | none => if s.1.map (·.2) = some place then (none, s.2) else s
  | some v =>
    (some (v, place), ((s.1.map (·.2)).filter (· < place)).elim s.2 (without keyed s.2))

/-- The histories when the first `n` storages have been loaded: where the variable was left with a
value that does not count, it is deleted. -/
def merged (keyed : Nat → Bool) (H : Nat → History) (n j : Nat) : History :=
  if j < n ∧ (H j).final.isSome ∧ (latest H n).map (·.2) ≠ some j then (H j).after (keyed j) none
  else H j

section

variable {keyed : Nat → Bool} {place : Nat} {V : Nat → History}

/-- Once the storage has said something of its own, only the last that it says counts. -/
theorem foldl_mergeEvent_own (h : History) (o : Option Value) :
    h.foldl (mergeEvent keyed place) (o.map (·, place), V) = ((final (o :: h)).map (·, place), V) := by
  induction h generalizing o with
  | nil => rfl
  | cons e h ih =>
    have hstep : mergeEvent keyed place (o.map (·, place), V) e = (e.map (·, place), V) := by
      cases e <;> cases o <;> simp [mergeEvent, Option.filter]
    rw [List.foldl_cons, hstep, ih]
    rfl

theorem foldl_mergeEvent {loaded : Option (Value × Nat)} (hplace : ∀ e ∈ loaded, e.2 < place)
    (h : History) :
    h.foldl (mergeEvent keyed place) (loaded, V) =
      if h.gives then (h.final.map (·, place), (loaded.map (·.2)).elim V (without keyed V))
      else (loaded, V) := by
  induction h with
  | nil => rfl
  | cons e h ih =>
    cases e with
    | none =>
      -- a deletion is none of what another storage said
      have hstep : mergeEvent keyed place (loaded, V) none = (loaded, V) := by
        rw [mergeEvent, if_neg]
        intro heq
        obtain ⟨e, he, hsource⟩ := Option.map_eq_some_iff.1 heq
        exact absurd (hplace e he) (by rw [hsource]; exact Nat.lt_irrefl place)
      rw [List.foldl_cons, hstep, ih]
      have hgives : gives (none :: h) = gives h := rfl
      rw [hgives]
      cases hg : gives h with
      | false => rfl
      | true =>
        have hfinal : final (none :: h) = final h := by
          cases h with
          | nil => cases hg
          | cons e h => rfl
        rw [hfinal]
    | some v =>
      have hgives : gives (some v :: h) = true := rfl
      rw [List.foldl_cons, hgives, if_pos rfl]
      have hstep : mergeEvent keyed place (loaded, V) (some v)
          = ((some v).map (·, place), (loaded.map (·.2)).elim V (without keyed V)) := by
        cases loaded with
        | none => rfl
        | some e => simp [mergeEvent, Option.filter, hplace e rfl]
      rw [hstep, foldl_mergeEvent_own]

theorem latest_lt {H : Nat → History} {n : Nat} : ∀ e ∈ latest H n, e.2 < n := by
  intro e he
  exact (latest_eq_some_iff.1 (show latest H n = some (e.1, e.2) from he)).1

/-- **Loading one more storage.** -/
theorem foldl_mergeEvent_merged (keyed : Nat → Bool) (H : Nat → History) (n : Nat) :
    (H n).foldl (mergeEvent keyed n) (latest H n, merged keyed H n)
      = (latest H (n + 1), merged keyed H (n + 1)) := by
  rw [foldl_mergeEvent latest_lt, latest]
  cases hg : (H n).gives with
  | false =>
    rw [if_neg Bool.false_ne_true, if_neg Bool.false_ne_true]
    congr 1
    funext j
    have hfinal : (H n).final = none := by
      cases hv : (H n).final with
      | none => rfl
      | some v => rw [gives_of_final hv] at hg; cases hg
    have hlatest : latest H (n + 1) = latest H n := by rw [latest, hg, if_neg Bool.false_ne_true]
    grind [merged]
  | true =>
    rw [if_pos rfl, if_pos rfl]
    congr 1
    have hsource : ∀ j, (H j).final.isSome →
        ((latest H (n + 1)).map (·.2) = some j ↔ j = n) := by
      intro j hj
      rw [latest, hg, if_pos rfl, Option.map_map]
      cases hv : (H n).final with
      | none => grind
      | some v => simp [eq_comm]
    cases hn : latest H n with
    | none =>
      funext j
      show merged keyed H n j = merged keyed H (n + 1) j
      grind [merged]
    | some e =>
      obtain ⟨hi, hv, _⟩ := latest_eq_some_iff.1 (show latest H n = some (e.1, e.2) from hn)
      have hn' : (latest H n).map (·.2) = some e.2 := by rw [hn]; rfl
      funext j
      show without keyed (merged keyed H n) e.2 j = merged keyed H (n + 1) j
      rw [without, Function.update_apply]
      split
      · next hj =>
        -- the storage whose value counted until now
        subst hj
        grind [merged]
      · grind [merged]

/-! ## Moving -/

/-- The histories when a variable has been moved from its source to its home. -/
def moved (keyed : Nat → Bool) (V : Nat → History) (v : Value) (source : Nat) (home : Option Nat)
    (saved : Bool) : Nat → History :=
  match home with
  | some target =>
    if target ≠ source ∧ saved = true then
      without keyed (Function.update V target ((V target).after (keyed target) (some v))) source
    else V
  | none => V

/-- The histories when what was loaded of a variable has been put where it belongs. -/
def placed (keyed : Nat → Bool) (V : Nat → History) (home : Option Nat) (saves : Value → Bool) :
    (loaded : Option (Value × Nat)) → Nat → History
  | some (v, source) => moved keyed V v source home (saves v)
  | none => V

/-- The histories when a store has been built over the first `n` storages. -/
def settled (keyed : Nat → Bool) (H : Nat → History) (n : Nat) (home : Option Nat)
    (saves : Value → Bool) : Nat → History :=
  placed keyed (merged keyed H n) home saves (latest H n)

/-- The variable is moved to a home in front of its source, and a log that stands behind the home,
and not behind the source, has given a value for it. -/
def Stranded (keyed : Nat → Bool) (H : Nat → History) (n : Nat) (home : Option Nat)
    (saves : Value → Bool) : Prop :=
  ∃ v source target, latest H n = some (v, source) ∧ home = some target ∧ saves v = true ∧
    target < source ∧ ∃ j, target < j ∧ j ≤ source ∧ keyed j = false ∧ (H j).gives = true

variable {H : Nat → History} {n : Nat} {v : Value} {source : Nat}

theorem final_merged {j : Nat} (hj : j < n) (hne : (latest H n).map (·.2) ≠ some j) :
    (merged keyed H n j).final = none := by
  unfold merged
  split
  · exact final_after (keyed j) (H j) none
  · next hnot =>
    cases hv : (H j).final with
    | none => rfl
    | some v => exact absurd ⟨hj, by rw [hv]; rfl, hne⟩ hnot

theorem merged_source (hlatest : latest H n = some (v, source)) :
    merged keyed H n source = H source := by
  rw [merged, if_neg]
  rintro ⟨_, _, hne⟩
  exact hne (by rw [hlatest]; rfl)

/-- Only a log goes on giving the value of a variable that it does not have any more. -/
theorem gives_merged (hfits : ∀ j, Fits (keyed j) (H j)) {j : Nat} (hj : j < n)
    (hne : (latest H n).map (·.2) ≠ some j) :
    (merged keyed H n j).gives = (!keyed j && (H j).gives) := by
  unfold merged
  split
  · exact gives_after_none (keyed j) (H j)
  · next hnot =>
    refine (hfits j).gives_eq ?_
    cases hv : (H j).final with
    | none => rfl
    | some v => exact absurd ⟨hj, by rw [hv]; rfl, hne⟩ hnot

section

variable (hfits : ∀ j, Fits (keyed j) (H j))

theorem latest_merged_eq_none (hlatest : latest H n = none) : latest (merged keyed H n) n = none :=
  latest_eq_none fun j hj => final_merged hj (by rw [hlatest]; exact nofun)

include hfits

/-- A variable that stays where it is decided about is found there again. -/
theorem latest_merged (hlatest : latest H n = some (v, source)) :
    latest (merged keyed H n) n = some (v, source) := by
  obtain ⟨hsource, hfinal, hlater⟩ := latest_eq_some_iff.1 hlatest
  refine latest_eq_some_iff.2 ⟨hsource, ?_, fun j hj hj' => ?_⟩
  · rw [merged_source hlatest, hfinal]
  · have hne : (latest H n).map (·.2) ≠ some j := by
      rw [hlatest]
      exact fun heq => Nat.ne_of_lt hj (Option.some.inj heq)
    rw [gives_merged hfits hj' hne, hlater j hj hj', Bool.and_false]

variable {target : Nat} (hlatest : latest H n = some (v, source)) (hne : target ≠ source)

include hlatest hne

omit hfits in
theorem final_moved {j : Nat} (hj : j < n) :
    (moved keyed (merged keyed H n) v source (some target) true j).final
      = if j = target then some v else none := by
  rw [moved, if_pos ⟨hne, rfl⟩, without, Function.update_apply]
  by_cases hs : j = source
  · rw [if_pos hs, if_neg (hs ▸ hne.symm), final_after]
  · rw [if_neg hs, Function.update_apply]
    split
    · exact final_after _ _ _
    · refine final_merged hj ?_
      rw [hlatest]
      exact fun heq => hs (Option.some.inj heq).symm

/-- Behind the home, those logs give a value of a moved variable that gave one before. -/
theorem gives_moved {j : Nat} (hj : j < n) (hjt : j ≠ target) :
    (moved keyed (merged keyed H n) v source (some target) true j).gives
      = (!keyed j && (H j).gives) := by
  rw [moved, if_pos ⟨hne, rfl⟩, without, Function.update_apply]
  by_cases hs : j = source
  · subst hs
    rw [if_pos rfl, gives_after_none, Function.update_of_ne hjt, merged_source hlatest]
  · rw [if_neg hs, Function.update_of_ne hjt]
    refine gives_merged hfits hj ?_
    rw [hlatest]
    exact fun heq => hs (Option.some.inj heq).symm

/-- A moved variable is found at its home, if no log between home and source has told of it. -/
theorem latest_moved (htarget : target < n)
    (hlogs : ∀ j, target < j → j ≤ source → keyed j = false → (H j).gives = false) :
    latest (moved keyed (merged keyed H n) v source (some target) true) n = some (v, target) := by
  obtain ⟨_, _, hlater⟩ := latest_eq_some_iff.1 hlatest
  refine latest_eq_some_iff.2 ⟨htarget, ?_, fun j hj hj' => ?_⟩
  · rw [final_moved hlatest hne htarget, if_pos rfl]
  · rw [gives_moved hfits hlatest hne hj' (Nat.ne_of_gt hj)]
    -- behind the source nothing is given
    by_cases hjs : source < j
    · rw [hlater j hjs hj', Bool.and_false]
    · cases hkeyed : keyed j with
      | true => rfl
      | false => rw [hlogs j hj (Nat.le_of_not_lt hjs) hkeyed, Bool.and_false]

end

/-- **A variable that is not stranded is found again**, with its value. -/
theorem latest_settled (hfits : ∀ j, Fits (keyed j) (H j)) {home : Option Nat}
    (hhome : ∀ t ∈ home, t < n) {saves : Value → Bool} (hstay : ¬ Stranded keyed H n home saves) :
    (latest (settled keyed H n home saves) n).map (·.1) = (latest H n).map (·.1) := by
  unfold settled
  cases hlatest : latest H n with
  | none => rw [placed, latest_merged_eq_none hlatest]
  | some e =>
    obtain ⟨v, source⟩ := e
    rw [placed]
    cases home with
    | none => rw [moved, latest_merged hfits hlatest]
    | some target =>
      by_cases hmove : target ≠ source ∧ saves v = true
      · obtain ⟨hne, hsaves⟩ := hmove
        have hlogs : ∀ j, target < j → j ≤ source → keyed j = false → (H j).gives = false := by
          intro j hj hjs hkeyed
          refine Bool.eq_false_iff.2 fun hgives => hstay ?_
          exact ⟨v, source, target, hlatest, rfl, hsaves, Nat.lt_of_lt_of_le hj hjs, j, hj, hjs,
            hkeyed, hgives⟩
        rw [hsaves, latest_moved hfits hlatest hne (hhome target rfl) hlogs]
        rfl
      · rw [moved, if_neg hmove, latest_merged hfits hlatest]

/-- **A stranded variable is lost**: a log behind its home decides, and has it deleted. -/
theorem latest_settled_of_stranded (hfits : ∀ j, Fits (keyed j) (H j)) {home : Option Nat}
    {saves : Value → Bool} (hstranded : Stranded keyed H n home saves) :
    latest (settled keyed H n home saves) n = none := by
  obtain ⟨v, source, target, hlatest, rfl, hsaves, hlt, j, hj, hjs, hkeyed, hgives⟩ := hstranded
  have hne : target ≠ source := Nat.ne_of_lt hlt
  have hsource := (latest_eq_some_iff.1 hlatest).1
  rw [settled, hlatest, placed, hsaves]
  cases hagain : latest (moved keyed (merged keyed H n) v source (some target) true) n with
  | none => rfl
  | some e =>
    obtain ⟨he, hfinal, hlater⟩ := latest_eq_some_iff.1
      (show latest (moved keyed (merged keyed H n) v source (some target) true) n
        = some (e.1, e.2) from hagain)
    rw [final_moved hlatest hne he] at hfinal
    split at hfinal
    · next htarget =>
      have hjn : j < n := Nat.lt_of_le_of_lt hjs hsource
      have hnot := hlater j (htarget ▸ hj) hjn
      rw [gives_moved hfits hlatest hne hjn (Nat.ne_of_gt hj), hkeyed, hgives] at hnot
      cases hnot
    · cases hfinal

/-- In the end a variable is at its home, or where it was if it has none, and nowhere else. -/
theorem final_settled (hlatest : latest H n = some (v, source)) {saves : Value → Bool}
    (hsaves : saves v = true) (home : Option Nat) {j : Nat} (hj : j < n) :
    (settled keyed H n home saves j).final = if j = home.getD source then some v else none := by
  have hstay : (merged keyed H n j).final = if j = source then some v else none := by
    by_cases hs : j = source
    · rw [if_pos hs, hs, merged_source hlatest]
      exact (latest_eq_some_iff.1 hlatest).2.1
    · rw [if_neg hs]
      refine final_merged hj ?_
      rw [hlatest]
      exact fun heq => hs (Option.some.inj heq).symm
  rw [settled, hlatest, placed, hsaves]
  cases home with
  | none => exact hstay
  | some target =>
    by_cases hne : target = source
    · rw [moved, if_neg fun hboth => hboth.1 hne, hstay, ← hne]
      rfl
    · exact final_moved hlatest hne hj

/-! ## Where something is told in the end -/

theorem merged_eq_nil {j : Nat} (h : H j = []) : merged keyed H n j = [] := by
  rw [merged, if_neg, h]
  rintro ⟨_, hfinal, _⟩
  rw [h] at hfinal
  cases hfinal

/-- Only the home of a variable may tell of it in the end when it has told nothing before. -/
theorem ne_nil_of_settled {home : Option Nat} {saves : Value → Bool} {j : Nat}
    (h : settled keyed H n home saves j ≠ []) : H j ≠ [] ∨ home = some j ∧ ∃ i, H i ≠ [] := by
  by_cases hj : H j = []
  · right
    have hmerged : merged keyed H n j = [] := merged_eq_nil hj
    cases hlatest : latest H n with
    | none =>
      rw [settled, hlatest, placed] at h
      exact absurd hmerged h
    | some e =>
      obtain ⟨v, source⟩ := e
      have hsource : H source ≠ [] := by
        intro hnil
        have hfinal := (latest_eq_some_iff.1 hlatest).2.1
        rw [hnil] at hfinal
        cases hfinal
      refine ⟨?_, source, hsource⟩
      rw [settled, hlatest, placed] at h
      unfold moved at h
      split at h
      · next target =>
        split at h
        · -- the source has told of the variable, and nobody else is written to but the target
          have hne : j ≠ source := fun heq => hsource (heq ▸ hj)
          rw [without, Function.update_of_ne hne, Function.update_apply] at h
          split at h
          · next heq => rw [heq]
          · exact absurd hmerged h
        · exact absurd hmerged h
      · exact absurd hmerged h
  · exact .inl hj

end

end History

end ScriptStore
