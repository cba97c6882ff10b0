import Mathlib.Logic.Relation
import Mathlib.Tactic.ByContra
import ScriptStore.Types.Hierarchy

/-!
# The subtype relation is a partial order

Climbing from a kind goes on until all declarations that start from a kind already found lead to one
already found. Each level uses up a declaration, so the climb is never cut short, and a kind is found
if and only if declarations lead to it (`mem_above_iff`). Assignability is therefore reachability,
with `object` above everything (`assignable_iff`).

A declaration that would close a cycle is refused. In a hierarchy that was made by declarations
(`Declared`) two kinds that are assignable to each other are the same, and assignability is
transitive, also by way of `object`, which is never declared a subtype.

Declarations may be tried in any order and any number may be refused (`attempts`). The relation is then
the one that the pairs which were accepted generate, with `object` on top, and one more pair is
refused if and only if the opposite holds strictly (`attempts_partial_order`).
-/

namespace ScriptStore.Types.Hierarchy

open Relation (ReflTransGen)

variable {h h' : Hierarchy} {ks : List Kind} {a b c k sub sup : Kind}

/-! ## Climbing finds all that is above -/

/-- `sub` was declared a subtype of `sup`. -/
def Direct (h : Hierarchy) (sub sup : Kind) : Prop := (sub, sup) ∈ h.declared

theorem mem_fresh_iff : k ∈ h.fresh ks ↔ (∃ sub ∈ ks, h.Direct sub k) ∧ k ∉ ks := by
  simp only [fresh, List.mem_map, List.mem_filter, Bool.and_eq_true, Bool.not_eq_true',
    List.contains_eq_mem, decide_eq_true_eq, decide_eq_false_iff_not, Direct]
  constructor
  · rintro ⟨⟨sub, sup⟩, ⟨hdeclared, hsub, hsup⟩, rfl⟩
    exact ⟨⟨sub, hsub, hdeclared⟩, hsup⟩
  · rintro ⟨⟨sub, hsub, hdeclared⟩, hsup⟩
    exact ⟨(sub, k), ⟨hdeclared, hsub, hsup⟩, rfl⟩

/-- The declarations of supertypes that are not in `ks`, which a climb may still have to follow. -/
def ahead (h : Hierarchy) (ks : List Kind) : List (Kind × Kind) :=
  h.declared.filter fun d => d.2 ∉ ks

theorem length_ahead_append_lt (hfresh : h.fresh ks ≠ []) :
    (h.ahead (ks ++ h.fresh ks)).length < (h.ahead ks).length := by
  obtain ⟨k, hk⟩ := List.exists_mem_of_ne_nil _ hfresh
  obtain ⟨⟨sub, -, hdirect⟩, hnew⟩ := mem_fresh_iff.1 hk
  have hsplit : h.ahead (ks ++ h.fresh ks) = (h.ahead ks).filter fun d => d.2 ∉ h.fresh ks := by
    simp only [ahead, List.filter_filter, List.mem_append, not_or, Bool.decide_and, Bool.and_comm]
  have hmem : (sub, k) ∈ h.ahead ks := List.mem_filter.2 ⟨hdirect, decide_eq_true hnew⟩
  rw [hsplit]
  exact List.length_filter_lt_length_iff_exists.2 ⟨(sub, k), hmem, by simpa using hk⟩

theorem fresh_climb {fuel : Nat} (hfuel : (h.ahead ks).length ≤ fuel) : h.fresh (h.climb fuel ks) = [] := by
  induction fuel generalizing ks with
  | zero =>
    by_contra hfresh
    have := length_ahead_append_lt hfresh
    rw [climb] at this
    omega
  | succ fuel ih =>
    rw [climb]
    split
    · next hempty => exact List.isEmpty_iff.1 hempty
    · next hfresh =>
        have := length_ahead_append_lt (mt List.isEmpty_iff.2 hfresh)
        exact ih (by omega)

theorem reachable_of_mem_climb {fuel : Nat} (hk : k ∈ h.climb fuel ks) :
    ∃ sub ∈ ks, ReflTransGen h.Direct sub k := by
  induction fuel generalizing ks with
  | zero => exact ⟨k, hk, .refl⟩
  | succ fuel ih =>
    rw [climb] at hk
    split at hk
    · exact ⟨k, hk, .refl⟩
    · obtain ⟨mid, hmid, hpath⟩ := ih hk
      rcases List.mem_append.1 hmid with hmid | hmid
      · exact ⟨mid, hmid, hpath⟩
      · obtain ⟨⟨sub, hsub, hdirect⟩, -⟩ := mem_fresh_iff.1 hmid
        exact ⟨sub, hsub, .head hdirect hpath⟩

/-- What is above a kind is what declarations lead to. -/
theorem mem_above_iff : sup ∈ h.above sub ↔ ReflTransGen h.Direct sub sup := by
  constructor
  · intro hsup
    obtain ⟨k, hk, hpath⟩ := reachable_of_mem_climb hsup
    rwa [List.mem_singleton.1 hk] at hpath
  · intro hpath
    have hclosed : h.fresh (h.above sub) = [] := fresh_climb (List.length_filter_le _ _)
    induction hpath with
    | refl => exact h.subset_climb _ _ (List.mem_singleton_self sub)
    | @tail mid sup _ hdirect ih =>
      by_contra hsup
      have : sup ∈ h.fresh (h.above sub) := mem_fresh_iff.2 ⟨⟨mid, ih, hdirect⟩, hsup⟩
      rw [hclosed] at this
      exact List.not_mem_nil this

theorem assignable_iff :
    h.assignable sup sub = true ↔ sup = .object ∨ ReflTransGen h.Direct sub sup := by
  rw [assignable, Bool.or_eq_true, beq_iff_eq, List.contains_iff_mem, mem_above_iff]

theorem related_comm (h : Hierarchy) (a b : Kind) : h.related a b = h.related b a :=
  Bool.or_comm _ _

/-! ## Hierarchies that were declared -/

/-- The hierarchies that can be made, one declaration after the other. -/
inductive Declared : Hierarchy → Prop
  | empty : Declared {}
  | declare {h h' : Hierarchy} {sub sup : Kind} :
      Declared h → h.declare sub sup = .ok h' → Declared h'

/-- A declaration adds nothing, or a pair of which neither kind is assignable to the other. -/
theorem declare_cases (hdeclare : h.declare sub sup = .ok h') :
    h' = h ∨ h' = ⟨h.declared ++ [(sub, sup)]⟩ ∧ h.assignable sup sub = false ∧
      h.assignable sub sup = false := by
  rw [Hierarchy.declare] at hdeclare
  split at hdeclare
  · cases hdeclare
    exact .inl rfl
  · next hnew =>
      split at hdeclare
      · cases hdeclare
      · next hacyclic =>
          cases hdeclare
          exact .inr ⟨rfl, Bool.eq_false_iff.2 hnew, Bool.eq_false_iff.2 hacyclic⟩

/-- Nothing is declared to be above `object`. -/
theorem Declared.ne_object (hh : h.Declared) (hdirect : h.Direct a b) : a ≠ .object := by
  induction hh with
  | empty => exact absurd hdirect List.not_mem_nil
  | @declare h h' sub sup _ hdeclare ih =>
    rcases declare_cases hdeclare with rfl | ⟨rfl, -, hsub⟩
    · exact ih hdirect
    · rcases List.mem_append.1 hdirect with hdirect | hdirect
      · exact ih hdirect
      · cases List.mem_singleton.1 hdirect
        rintro rfl
        rw [Bool.eq_false_iff] at hsub
        exact hsub (assignable_iff.2 (.inl rfl))

theorem Declared.eq_object (hh : h.Declared) (hpath : ReflTransGen h.Direct .object a) :
    a = .object := by
  rcases hpath.cases_head with heq | ⟨b, hdirect, -⟩
  · exact heq.symm
  · exact absurd rfl (hh.ne_object hdirect)

/-- With one more declaration, a way upward is an old one or passes the new pair. -/
theorem reachable_append (hpath : ReflTransGen (Direct ⟨h.declared ++ [(sub, sup)]⟩) a b) :
    ReflTransGen h.Direct a b ∨ ReflTransGen h.Direct a sub ∧ ReflTransGen h.Direct sup b := by
  induction hpath with
  | refl => exact .inl .refl
  | tail _ hdirect ih =>
    rcases List.mem_append.1 hdirect with hdirect | hdirect
    · exact ih.imp (·.tail hdirect) (And.imp_right (·.tail hdirect))
    · cases List.mem_singleton.1 hdirect
      exact .inr ⟨ih.elim id And.left, .refl⟩

theorem Declared.eq_of_reachable (hh : h.Declared) (hab : ReflTransGen h.Direct a b)
    (hba : ReflTransGen h.Direct b a) : a = b := by
  induction hh with
  | empty =>
    rcases hab.cases_head with heq | ⟨c, hdirect, -⟩
    · exact heq
    · exact absurd hdirect List.not_mem_nil
  | @declare h h' sub sup _ hdeclare ih =>
    rcases declare_cases hdeclare with rfl | ⟨rfl, -, hsub⟩
    · exact ih hab hba
    · -- a cycle through the new pair would be a way from `sup` back to `sub`
      have hopen : ¬ ReflTransGen h.Direct sup sub := fun hback =>
        Bool.eq_false_iff.1 hsub (assignable_iff.2 (.inr hback))
      rcases reachable_append hab with hab | ⟨hasub, hsupb⟩
      · rcases reachable_append hba with hba | ⟨hbsub, hsupa⟩
        · exact ih hab hba
        · exact absurd ((hsupa.trans hab).trans hbsub) hopen
      · rcases reachable_append hba with hba | ⟨hbsub, -⟩
        · exact absurd ((hsupb.trans hba).trans hasub) hopen
        · exact absurd (hsupb.trans hbsub) hopen

/-- Kinds that are assignable to each other are the same. -/
theorem Declared.assignable_antisymm (hh : h.Declared) (hab : h.assignable a b = true)
    (hba : h.assignable b a = true) : a = b := by
  rcases assignable_iff.1 hab with rfl | hpath
  · rcases assignable_iff.1 hba with rfl | hpath'
    · rfl
    · exact (hh.eq_object hpath').symm
  · rcases assignable_iff.1 hba with rfl | hpath'
    · exact hh.eq_object hpath
    · exact hh.eq_of_reachable hpath' hpath

theorem Declared.assignable_trans (hh : h.Declared) (hab : h.assignable a b = true)
    (hbc : h.assignable b c = true) : h.assignable a c = true := by
  rcases assignable_iff.1 hab with rfl | hpath
  · exact assignable_iff.2 (.inl rfl)
  · rcases assignable_iff.1 hbc with rfl | hpath'
    · -- nothing but `object` itself is above `object`
      exact assignable_iff.2 (.inl (hh.eq_object hpath))
    · exact assignable_iff.2 (.inr (hpath'.trans hpath))

/-! ## Any sequence of declarations -/

/-- The hierarchy after a declaration was tried. A refused one leaves what was there. -/
def attempt (h : Hierarchy) (pair : Kind × Kind) : Hierarchy :=
  match h.declare pair.1 pair.2 with
  | .ok h' => h'
  | .error _ => h

/-- The hierarchy after declarations were tried in turn. -/
def attempts (h : Hierarchy) (calls : List (Kind × Kind)) : Hierarchy := calls.foldl attempt h

/-- The pairs whose declaration succeeds when they are tried in turn. -/
def accepted (h : Hierarchy) : List (Kind × Kind) → List (Kind × Kind)
  | [] => []
  | pair :: calls =>
      if (h.declare pair.1 pair.2).isOk then pair :: (h.attempt pair).accepted calls
      else (h.attempt pair).accepted calls

variable {pair : Kind × Kind} {calls : List (Kind × Kind)}

/-- A pair is refused if and only if the opposite holds strictly. -/
theorem declare_eq_error_iff {e : Error} : h.declare sub sup = .error e ↔
    e = .subtypeCycle sub sup ∧ h.assignable sub sup = true ∧ h.assignable sup sub = false := by
  rw [Hierarchy.declare]
  by_cases hheld : h.assignable sup sub = true
  · simp [hheld]
  · by_cases hback : h.assignable sub sup = true
    · simp [hheld, hback, eq_comm]
    · simp [hheld, hback]

theorem attempt_of_error {e : Error} (hdeclare : h.declare pair.1 pair.2 = .error e) :
    h.attempt pair = h := by
  rw [attempt, hdeclare]

theorem attempt_of_ok (hdeclare : h.declare pair.1 pair.2 = .ok h') : h.attempt pair = h' := by
  rw [attempt, hdeclare]

theorem Declared.attempt (hh : h.Declared) (pair : Kind × Kind) : (h.attempt pair).Declared := by
  cases hdeclare : h.declare pair.1 pair.2 with
  | ok h' =>
    rw [attempt_of_ok hdeclare]
    exact .declare hh hdeclare
  | error e =>
    rw [attempt_of_error hdeclare]
    exact hh

theorem Declared.attempts (hh : h.Declared) (calls : List (Kind × Kind)) :
    (h.attempts calls).Declared := by
  induction calls generalizing h with
  | nil => exact hh
  | cons pair calls ih => exact ih (hh.attempt pair)

/-- An attempt takes nothing away, and adds at most its own pair, if that is accepted. -/
theorem direct_attempt (hdirect : (h.attempt pair).Direct a b) :
    h.Direct a b ∨ (h.declare pair.1 pair.2).isOk = true ∧ (a, b) = pair := by
  cases hdeclare : h.declare pair.1 pair.2 with
  | error e =>
    rw [attempt_of_error hdeclare] at hdirect
    exact .inl hdirect
  | ok h' =>
    rw [attempt_of_ok hdeclare] at hdirect
    rcases declare_cases hdeclare with rfl | ⟨rfl, -, -⟩
    · exact .inl hdirect
    · exact (List.mem_append.1 hdirect).imp_right fun hnew => ⟨rfl, List.mem_singleton.1 hnew⟩

theorem Direct.attempt (hdirect : h.Direct a b) (pair : Kind × Kind) : (h.attempt pair).Direct a b := by
  cases hdeclare : h.declare pair.1 pair.2 with
  | error e =>
    rw [attempt_of_error hdeclare]
    exact hdirect
  | ok h' =>
    rw [attempt_of_ok hdeclare]
    rcases declare_cases hdeclare with rfl | ⟨rfl, -, -⟩
    · exact hdirect
    · exact List.mem_append_left _ hdirect

theorem Direct.attempts (hdirect : h.Direct a b) (calls : List (Kind × Kind)) :
    (h.attempts calls).Direct a b := by
  induction calls generalizing h with
  | nil => exact hdirect
  | cons pair calls ih => exact ih (hdirect.attempt pair)

/-- What is assignable stays so. -/
theorem assignable_attempts (hab : h.assignable a b = true) (calls : List (Kind × Kind)) :
    (h.attempts calls).assignable a b = true := by
  rw [assignable_iff] at hab ⊢
  exact hab.imp_right (ReflTransGen.mono (fun _ _ hdirect => Direct.attempts hdirect calls) b a)

theorem assignable_of_declare (hdeclare : h.declare sub sup = .ok h') : h'.assignable sup sub = true := by
  rw [Hierarchy.declare] at hdeclare
  split at hdeclare
  · next hheld =>
      cases hdeclare
      exact hheld
  · split at hdeclare
    · cases hdeclare
    · cases hdeclare
      exact assignable_iff.2 (.inr (.single (List.mem_append_right _ (List.mem_singleton_self _))))

/-- What was declared in the end stood there at the start or was accepted on the way. -/
theorem direct_attempts (hdirect : (h.attempts calls).Direct a b) :
    h.Direct a b ∨ (a, b) ∈ h.accepted calls := by
  induction calls generalizing h with
  | nil => exact .inl hdirect
  | cons pair calls ih =>
    rw [accepted]
    rcases ih hdirect with hnow | hlater
    · rcases direct_attempt hnow with hold | ⟨hok, rfl⟩
      · exact .inl hold
      · rw [if_pos hok]
        exact .inr (.head _)
    · right
      split
      · exact .tail _ hlater
      · exact hlater

/-- An accepted pair is assignable in the end, whether it was recorded or held already. -/
theorem assignable_of_accepted (hpair : (sub, sup) ∈ h.accepted calls) :
    (h.attempts calls).assignable sup sub = true := by
  induction calls generalizing h with
  | nil => exact absurd hpair List.not_mem_nil
  | cons pair calls ih =>
    rw [accepted] at hpair
    split at hpair
    · next hok =>
        rcases List.mem_cons.1 hpair with rfl | hlater
        · cases hdeclare : h.declare sub sup with
          | error e => rw [hdeclare] at hok; cases hok
          | ok h' =>
            have hnow : (h.attempt (sub, sup)).assignable sup sub = true := by
              rw [attempt_of_ok hdeclare]
              exact assignable_of_declare hdeclare
            exact assignable_attempts hnow calls
        · exact ih hlater
    · exact ih hpair

/-- The relation is the closure of the accepted pairs, with `object` above everything. -/
theorem assignable_attempts_iff (calls : List (Kind × Kind)) :
    (attempts {} calls).assignable sup sub = true ↔
      ReflTransGen (fun a b => (a, b) ∈ accepted {} calls ∨ b = .object) sub sup := by
  have hmade : (attempts {} calls).Declared := Declared.empty.attempts calls
  constructor
  · intro hab
    rcases assignable_iff.1 hab with rfl | hpath
    · exact .single (.inr rfl)
    · refine ReflTransGen.mono (fun a b hdirect => ?_) sub sup hpath
      exact .inl ((direct_attempts hdirect).resolve_left List.not_mem_nil)
  · intro hpath
    induction hpath with
    | refl => exact assignable_self _ _
    | tail _ hstep ih =>
      rcases hstep with hpair | rfl
      · exact hmade.assignable_trans (assignable_of_accepted hpair) ih
      · exact assignable_iff.2 (.inl rfl)

/-- Whatever declarations are tried, assignability is a partial order with `object` on top: the one that
the accepted pairs generate. One more declaration is refused if and only if its supertype is a strict
subtype of its subtype, and a refused one changes nothing. -/
theorem attempts_partial_order (calls : List (Kind × Kind)) :
    let h := attempts {} calls
    (∀ a, h.assignable a a = true) ∧
    (∀ a b c, h.assignable a b = true → h.assignable b c = true → h.assignable a c = true) ∧
    (∀ a b, h.assignable a b = true → h.assignable b a = true → a = b) ∧
    (∀ a, h.assignable .object a = true) ∧
    (∀ sub sup, h.assignable sup sub = true ↔
      ReflTransGen (fun a b => (a, b) ∈ accepted {} calls ∨ b = .object) sub sup) ∧
    ∀ sub sup,
      (h.declare sub sup = .error (.subtypeCycle sub sup) ↔ sup ≠ sub ∧ h.assignable sub sup = true) ∧
      ∀ e, h.declare sub sup = .error e →
        e = .subtypeCycle sub sup ∧ attempts {} (calls ++ [(sub, sup)]) = h := by
  intro h
  have hmade : h.Declared := Declared.empty.attempts calls
  refine ⟨assignable_self h, fun _ _ _ => hmade.assignable_trans, fun _ _ => hmade.assignable_antisymm,
    fun a => assignable_iff.2 (.inl rfl), fun sub sup => assignable_attempts_iff calls,
    fun sub sup => ⟨?_, ?_⟩⟩
  · -- a pair that holds already is accepted: with the opposite, its kinds would be the same
    rw [declare_eq_error_iff, Bool.eq_false_iff]
    constructor
    · rintro ⟨-, hback, hopen⟩
      refine ⟨?_, hback⟩
      rintro rfl
      exact hopen hback
    · rintro ⟨hne, hback⟩
      exact ⟨rfl, hback, fun hab => hne (hmade.assignable_antisymm hab hback)⟩
  · intro e hdeclare
    refine ⟨(declare_eq_error_iff.1 hdeclare).1, ?_⟩
    have hsame : h.attempt (sub, sup) = h := attempt_of_error hdeclare
    rwa [attempts, List.foldl_append]

/-- Coins are integers, which are numbers. The third pair would close a cycle and the fourth would put
something above `object`: both are refused. -/
theorem attempts_partial_order_numbers :
    let calls : List (Kind × Kind) :=
      [(.integer, .number), (.host "Coin", .integer), (.number, .host "Coin"), (.object, .number)]
    accepted {} calls = [(.integer, .number), (.host "Coin", .integer)] ∧
    (attempts {} calls).assignable .number (.host "Coin") = true ∧
    (attempts {} calls).declare .number (.host "Coin") = .error (.subtypeCycle .number (.host "Coin")) := by
  intro calls
  obtain ⟨-, htrans, -, -, -, hdeclare⟩ := attempts_partial_order calls
  have hassignable : (attempts {} calls).assignable .number (.host "Coin") = true :=
    htrans .number .integer (.host "Coin") (by decide) (by decide)
  exact ⟨by decide, hassignable, (hdeclare .number (.host "Coin")).1.2 ⟨by decide, hassignable⟩⟩

end ScriptStore.Types.Hierarchy
