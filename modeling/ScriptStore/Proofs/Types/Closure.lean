import ScriptStore.Proofs.Types.Chaining

/-!
# When chaining leaves nothing to chain

Closing walks over all pairs of converters while the list of them grows. Every two converters meet:
at the latest when the loops reach the one that was added later (`exists_visit`). At that meeting
only one of the two orders is chained. If both orders could be, the other one may stay open, so that
closing once more adds a converter (`Graph.close_build_crossed`); that is the only way in which
something is left over (`Graph.close_build_eq_iff`).
-/

namespace ScriptStore.Types

namespace Converter

variable {h : Hierarchy} {edges now : List Converter} {a b : Converter}

/-! ## Every two converters meet -/

theorem isPrefix_complete (h : Hierarchy) (edges : List Converter) (i j : Nat) :
    edges <+: complete h edges i j :=
  (grows_complete h edges i j).isPrefix

/-- A row pairs its converter with all others, those included that the row itself adds. -/
theorem exists_visit_completeRow {i fuel j : Nat}
    (hfuel : (completeRow h i fuel j edges).length ≤ j + fuel) {k : Nat} (hjk : j ≤ k)
    (hk : k < (completeRow h i fuel j edges).length) :
    ∃ mid, edges <+: mid ∧ complete h mid i k <+: completeRow h i fuel j edges := by
  induction fuel generalizing j edges with
  | zero => exact absurd (hfuel.trans hjk) (Nat.not_le.2 hk)
  | succ fuel ih =>
    rw [completeRow] at hfuel hk ⊢
    split at hfuel
    · next hlt =>
        rw [if_pos hlt] at hk ⊢
        rcases Nat.eq_or_lt_of_le hjk with rfl | hlater
        · exact ⟨edges, List.prefix_refl edges, (grows_completeRow h i fuel _ _).isPrefix⟩
        · obtain ⟨mid, hmid, hvisit⟩ := ih (j := j + 1) (by omega) hlater hk
          exact ⟨mid, (isPrefix_complete h edges i j).trans hmid, hvisit⟩
    · next hlt =>
        rw [if_neg hlt] at hk
        omega

/-- In its own row a converter meets itself and all that stand before it, and those behind it that
were there from the start. -/
theorem exists_visit_completeRows {limit fuel i : Nat}
    (hlimit : (completeRows h limit fuel i edges).length ≤ limit)
    (hfuel : (completeRows h limit fuel i edges).length ≤ i + fuel) {k m : Nat} (hik : i ≤ k)
    (hm : m ≤ k ∨ m < edges.length) (hk : k < (completeRows h limit fuel i edges).length) :
    ∃ mid, edges <+: mid ∧ k < mid.length ∧
      complete h mid k m <+: completeRows h limit fuel i edges := by
  induction fuel generalizing i edges with
  | zero => exact absurd (hfuel.trans hik) (Nat.not_le.2 hk)
  | succ fuel ih =>
    rw [completeRows] at hlimit hfuel hk ⊢
    split at hfuel
    · next hlt =>
        rw [if_pos hlt] at hlimit hk ⊢
        have hrow : edges <+: completeRow h i limit 0 edges :=
          (grows_completeRow h i limit 0 edges).isPrefix
        have hrest := (grows_completeRows h limit fuel (i + 1)
          (completeRow h i limit 0 edges)).isPrefix
        -- the row is the converter's own, or it comes later and then finds all that is here already
        rcases Nat.eq_or_lt_of_le hik with rfl | hlater
        · have hshort : (completeRow h i limit 0 edges).length ≤ 0 + limit := by
            have := hrest.length_le
            omega
          have hmrow : m < (completeRow h i limit 0 edges).length := by
            have := hrow.length_le
            omega
          obtain ⟨mid, hmid, hvisit⟩ := exists_visit_completeRow hshort (Nat.zero_le m) hmrow
          exact ⟨mid, hmid, hlt.trans_le hmid.length_le, hvisit.trans hrest⟩
        · have hm' := hm.imp_right fun hold => hold.trans_le hrow.length_le
          obtain ⟨mid, hmid, hlen, hvisit⟩ := ih (i := i + 1) hlimit (by omega) hlater hm' hk
          exact ⟨mid, hrow.trans hmid, hlen, hvisit⟩
    · next hlt =>
        rw [if_neg hlt] at hk
        omega

/-- The loops of closing end because all pairs are done, never because they were cut short. -/
theorem exists_visit {k m : Nat} (hm : m ≤ k ∨ m < edges.length) (hk : k < (close h edges).length) :
    ∃ mid, edges <+: mid ∧ k < mid.length ∧ complete h mid k m <+: close h edges := by
  have hle : (close h edges).length ≤ edges.length + edges.length * edges.length :=
    (grows_close h edges).length_le
  exact exists_visit_completeRows hle (by rw [Nat.zero_add]; exact hle) (Nat.zero_le k) hm hk

/-! ## What a meeting leaves open -/

/-- The chain of `a` and `b` is there, or something that makes it needless. -/
def Covered (h : Hierarchy) (edges : List Converter) (a b : Converter) : Prop :=
  covers h edges a.source b.target = true

/-- After two converters have met, each order that can be chained is covered, unless the other
order is, and could be chained too. -/
def Settled (h : Hierarchy) (edges : List Converter) (a b : Converter) : Prop :=
  Composable h a b → Covered h edges a b ∨ Composable h b a ∧ Covered h edges b a

theorem Settled.mono (hsub : edges ⊆ now) (hab : Settled h edges a b) : Settled h now a b :=
  fun hcomposable => (hab hcomposable).imp (covers_mono hsub) (And.imp_right (covers_mono hsub))

theorem covered_of_not_chainable (hab : ¬ chainable h edges a b = true)
    (hcomposable : Composable h a b) : Covered h edges a b := by
  by_contra hcovered
  exact hab (chainable_iff.2 ⟨hcomposable, Bool.eq_false_iff.2 hcovered⟩)

/-- The chain of two converters covers their ends. -/
theorem covered_append (h : Hierarchy) (edges : List Converter) (a b : Converter)
    (sequence : Nat) : Covered h (edges ++ [a.andThen b sequence]) a b :=
  covers_of_mem (e := a.andThen b sequence)
    (List.mem_append_right edges (List.mem_singleton_self _))

/-- What a meeting does: nothing, if neither order can be chained to lead somewhere new; else the
first order is chained if it can be, and the second if only that one can. -/
theorem complete_cases {i j : Nat} (hi : edges[i]? = some a) (hj : edges[j]? = some b) :
    (chainable h edges a b = true ∧
        complete h edges i j = edges ++ [a.andThen b (nextSequence edges)]) ∨
      (¬ chainable h edges a b = true ∧ chainable h edges b a = true ∧
        complete h edges i j = edges ++ [b.andThen a (nextSequence edges)]) ∨
      (¬ chainable h edges a b = true ∧ ¬ chainable h edges b a = true ∧
        complete h edges i j = edges) := by
  unfold complete missing?
  rw [hi, hj]
  by_cases hab : chainable h edges a b = true
  · simp [hab]
  · by_cases hba : chainable h edges b a = true
    · simp [hab, hba]
    · simp [hab, hba]

/-- A meeting leaves the order in which the two converters come covered. -/
theorem covered_complete {i j : Nat} (hi : edges[i]? = some a) (hj : edges[j]? = some b)
    (hcomposable : Composable h a b) : Covered h (complete h edges i j) a b := by
  rcases complete_cases (h := h) hi hj with ⟨-, heq⟩ | ⟨hab, -, heq⟩ | ⟨hab, -, heq⟩
  · rw [heq]
    exact covered_append h edges a b (nextSequence edges)
  · rw [heq]
    exact covers_mono (List.subset_append_left _ _) (covered_of_not_chainable hab hcomposable)
  · rw [heq]
    exact covered_of_not_chainable hab hcomposable

theorem settled_complete {i j : Nat} (hi : edges[i]? = some a) (hj : edges[j]? = some b) :
    Settled h (complete h edges i j) a b ∧ Settled h (complete h edges i j) b a := by
  refine ⟨fun hcomposable => .inl (covered_complete hi hj hcomposable), fun hcomposable => ?_⟩
  rcases complete_cases (h := h) hi hj with ⟨hab, -⟩ | ⟨-, -, heq⟩ | ⟨-, hba, heq⟩
  · have hfirst := (chainable_iff.1 hab).1
    exact .inr ⟨hfirst, covered_complete hi hj hfirst⟩
  · rw [heq]
    exact .inl (covered_append h edges b a (nextSequence edges))
  · rw [heq]
    exact .inl (covered_of_not_chainable hba hcomposable)

/-- What is added comes last, so every converter keeps its place. -/
theorem getElem?_of_isPrefix {k : Nat} (hpre : edges <+: now) (hk : k < edges.length) :
    edges[k]? = now[k]? := by
  rw [List.getElem?_eq_getElem hk, List.prefix_iff_getElem?.1 hpre k hk]

/-- Two places of the closed list held the same two converters when these met. -/
theorem settled_places {k m : Nat} (hmk : m ≤ k) (ha : (close h edges)[k]? = some a)
    (hb : (close h edges)[m]? = some b) :
    Settled h (close h edges) a b ∧ Settled h (close h edges) b a := by
  obtain ⟨hk, -⟩ := List.getElem?_eq_some_iff.1 ha
  obtain ⟨mid, -, hlen, hvisit⟩ := exists_visit (.inl hmk) hk
  have hpre : mid <+: close h edges := (isPrefix_complete h mid k m).trans hvisit
  have hsettled := settled_complete (h := h)
    ((getElem?_of_isPrefix hpre hlen).trans ha)
    ((getElem?_of_isPrefix hpre (hmk.trans_lt hlen)).trans hb)
  exact ⟨hsettled.1.mono hvisit.subset, hsettled.2.mono hvisit.subset⟩

theorem settled_close (ha : a ∈ close h edges) (hb : b ∈ close h edges) :
    Settled h (close h edges) a b := by
  obtain ⟨k, hk⟩ := List.mem_iff_getElem?.1 ha
  obtain ⟨m, hm⟩ := List.mem_iff_getElem?.1 hb
  rcases Nat.le_total m k with hmk | hkm
  · exact (settled_places hmk hk hm).1
  · exact (settled_places hkm hm hk).2

/-! ## Lists that closing does not change -/

theorem complete_eq_self (hedges : ∀ a ∈ edges, ∀ b ∈ edges, Composable h a b → Covered h edges a b)
    (i j : Nat) : complete h edges i j = edges := by
  have hnot : ∀ {a b}, a ∈ edges → b ∈ edges → ¬ chainable h edges a b = true := by
    intro a b ha hb hab
    obtain ⟨hcomposable, hfree⟩ := chainable_iff.1 hab
    exact Bool.eq_false_iff.1 hfree (hedges a ha b hb hcomposable)
  unfold complete missing?
  split
  next c hc =>
    split at hc
    next a b hi hj =>
      have ha : a ∈ edges := List.mem_of_getElem? hi
      have hb : b ∈ edges := List.mem_of_getElem? hj
      rw [if_neg (hnot ha hb), if_neg (hnot hb ha)] at hc
      cases hc
    · cases hc
  next => rfl

theorem completeRow_eq_self (hedges : ∀ i j, complete h edges i j = edges) (i fuel j : Nat) :
    completeRow h i fuel j edges = edges := by
  induction fuel generalizing j with
  | zero => rfl
  | succ fuel ih => rw [completeRow, hedges, ih, ite_self]

theorem completeRows_eq_self (hedges : ∀ i j, complete h edges i j = edges) (limit fuel i : Nat) :
    completeRows h limit fuel i edges = edges := by
  induction fuel generalizing i with
  | zero => rfl
  | succ fuel ih => rw [completeRows, completeRow_eq_self hedges, ih, ite_self]

/-- If closing adds nothing, no meeting does. -/
theorem complete_eq_self_of_close {k m : Nat} (hclose : close h edges = edges) (hmk : m ≤ k)
    (hk : k < edges.length) : complete h edges k m = edges := by
  have hk' : k < (close h edges).length := by rwa [hclose]
  obtain ⟨mid, hmid, -, hvisit⟩ := exists_visit (.inl hmk) hk'
  rw [hclose] at hvisit
  have hle := hmid.length_le
  have hle' := (isPrefix_complete h mid k m).length_le
  obtain rfl : edges = mid := hmid.eq_of_length (by have := hvisit.length_le; omega)
  exact hvisit.eq_of_length (by have := hvisit.length_le; omega)

theorem covered_places (hclose : close h edges = edges) {k m : Nat} (hmk : m ≤ k)
    (ha : edges[k]? = some a) (hb : edges[m]? = some b) :
    (Composable h a b → Covered h edges a b) ∧ (Composable h b a → Covered h edges b a) := by
  obtain ⟨hk, -⟩ := List.getElem?_eq_some_iff.1 ha
  have hself := complete_eq_self_of_close hclose hmk hk
  rcases complete_cases (h := h) ha hb with ⟨-, heq⟩ | ⟨-, -, heq⟩ | ⟨hab, hba, -⟩
  · simp [hself] at heq
  · simp [hself] at heq
  · exact ⟨covered_of_not_chainable hab, covered_of_not_chainable hba⟩

/-- Closing adds nothing if and only if all that can be chained is covered. -/
theorem close_eq_self_iff :
    close h edges = edges ↔
      ∀ a ∈ edges, ∀ b ∈ edges, Composable h a b → Covered h edges a b := by
  constructor
  · intro hclose a ha b hb
    obtain ⟨k, hk⟩ := List.mem_iff_getElem?.1 ha
    obtain ⟨m, hm⟩ := List.mem_iff_getElem?.1 hb
    rcases Nat.le_total m k with hmk | hkm
    · exact (covered_places hclose hmk hk hm).1
    · exact (covered_places hclose hkm hm hk).2
  · intro hedges
    exact completeRows_eq_self (complete_eq_self hedges) _ _ 0

end Converter

namespace Graph

open Converter

/-- **In a graph, of every two converters that can be chained, one order is covered; closing once
more adds nothing if and only if both orders are wherever both can be chained.** What can be chained
in one order only is covered in every graph. -/
theorem close_build_eq_iff (h : Hierarchy) (registered : List Converter) :
    (∀ a ∈ (build h registered).edges, ∀ b ∈ (build h registered).edges,
        Settled h (build h registered).edges a b) ∧
      (close h (build h registered).edges = (build h registered).edges ↔
        ∀ a ∈ (build h registered).edges, ∀ b ∈ (build h registered).edges,
          Composable h a b → Composable h b a → Covered h (build h registered).edges a b) := by
  have hsettled : ∀ a ∈ (build h registered).edges, ∀ b ∈ (build h registered).edges,
      Settled h (build h registered).edges a b := fun _ ha _ hb => settled_close ha hb
  refine ⟨hsettled, close_eq_self_iff.trans ⟨?_, ?_⟩⟩
  · intro hcovered a ha b hb hab _
    exact hcovered a ha b hb hab
  · intro hcovered a ha b hb hab
    rcases hsettled a ha b hb hab with hdone | ⟨hba, -⟩
    · exact hdone
    · exact hcovered a ha b hb hab hba

/-- Converters from `a` to `b` and, by way of `m`, from `c` to `d`, where `d` is a subtype of `a`
and `b` one of `c`. The chain from `c` to `d` is added after the row of the first converter, meets
it in its own row, and is chained with it to lead from `c` to `b`. The chain from `a` to `d` is only
added when the converters are closed once more. -/
theorem close_build_crossed :
    let h : Hierarchy := ⟨[(.host "d", .host "a"), (.host "b", .host "c")]⟩
    let registered := [single (.host "a") (.host "b") {} some,
      single (.host "c") (.host "m") {} some, single (.host "m") (.host "d") {} some,
      single (.host "a") (.host "m") ⟨true, true, false⟩ some,
      single (.host "m") (.host "b") ⟨true, true, false⟩ some]
    ((build h registered).edges.map fun e => (e.source, e.target)) =
        [(.host "a", .host "b"), (.host "c", .host "m"), (.host "m", .host "d"),
          (.host "a", .host "m"), (.host "m", .host "b"), (.host "c", .host "d"),
          (.host "c", .host "b")] ∧
      ((close h (build h registered).edges).map fun e => (e.source, e.target)) =
        ((build h registered).edges.map fun e => (e.source, e.target)) ++
          [(.host "a", .host "d")] := by
  decide

end Graph

end ScriptStore.Types
