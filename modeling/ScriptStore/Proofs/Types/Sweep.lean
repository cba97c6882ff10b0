import Mathlib.Data.Finset.Prod
import Mathlib.Data.Prod.Lex
import Mathlib.Logic.Relation
import ScriptStore.Proofs.Types.Closure

/-!
# The loops of chaining end

Closing runs two loops up to the end of a list that they append to. `Turn` is one turn of these
loops as they are, with no other limit than the list. That they end is a matter of the pairs of a
source and a target between which nothing leads yet (`openPairs`): a chain leads from a source to a
target that were there before, so that there are no other pairs than at first, and its own pair was
open and is so no more. Between two chains the loops only move on. So there is no endless run, from
wherever the loops are started (`wellFounded_turn`), and the one from the beginning of a list ends
with the list that closing gives (`turns_close`).

No more chains are made than there were open pairs, each leads somewhere new, and each gets a number
of its own (`Graph.build_sweeps`).
-/

namespace ScriptStore.Types

open Relation (ReflTransGen)

namespace Converter

variable {h : Hierarchy} {edges now : List Converter} {a b c e : Converter}

/-! ## Open pairs -/

/-- The pairs of a source and a target. -/
def endPairs (edges : List Converter) : Finset (Kind × Kind) :=
  (edges.map (·.source)).toFinset ×ˢ (edges.map (·.target)).toFinset

/-- The pairs of a source and a target between which nothing leads yet. -/
def openPairs (h : Hierarchy) (edges : List Converter) : Finset (Kind × Kind) :=
  (endPairs edges).filter fun p => covers h edges p.1 p.2 = false

theorem mem_endPairs {p : Kind × Kind} :
    p ∈ endPairs edges ↔ p.1 ∈ edges.map (·.source) ∧ p.2 ∈ edges.map (·.target) := by
  rw [endPairs, Finset.mem_product, List.mem_toFinset, List.mem_toFinset]

/-- A chain has the source of its first converter and the target of its second. -/
theorem endPairs_append (ha : a ∈ edges) (hb : b ∈ edges) (sequence : Nat) :
    endPairs (edges ++ [a.andThen b sequence]) = endPairs edges := by
  ext p
  rw [mem_endPairs, mem_endPairs, List.map_append, List.map_append, List.mem_append, List.mem_append,
    List.map_singleton, List.map_singleton, List.mem_singleton, List.mem_singleton]
  have hsource : p.1 = a.source → p.1 ∈ edges.map (·.source) := fun heq =>
    heq ▸ List.mem_map_of_mem ha
  have htarget : p.2 = b.target → p.2 ∈ edges.map (·.target) := fun heq =>
    heq ▸ List.mem_map_of_mem hb
  exact and_congr (or_iff_left_of_imp hsource) (or_iff_left_of_imp htarget)

/-- **A chain closes a pair and opens none.** -/
theorem card_openPairs_append_lt (ha : a ∈ edges) (hb : b ∈ edges)
    (hab : chainable h edges a b = true) (sequence : Nat) :
    (openPairs h (edges ++ [a.andThen b sequence])).card < (openPairs h edges).card := by
  have hown : (a.source, b.target) ∈ openPairs h edges :=
    Finset.mem_filter.2 ⟨mem_endPairs.2 ⟨List.mem_map_of_mem ha, List.mem_map_of_mem hb⟩,
      (chainable_iff.1 hab).2⟩
  have hclosed : (a.source, b.target) ∉ openPairs h (edges ++ [a.andThen b sequence]) := by
    intro hmem
    have hopen := (Finset.mem_filter.1 hmem).2
    rw [show covers h _ a.source b.target = true from covered_append h edges a b sequence] at hopen
    cases hopen
  have hsub : openPairs h (edges ++ [a.andThen b sequence]) ⊆ openPairs h edges := by
    intro p hp
    obtain ⟨hends, hopen⟩ := Finset.mem_filter.1 hp
    rw [endPairs_append ha hb] at hends
    refine Finset.mem_filter.2 ⟨hends, Bool.eq_false_iff.2 fun hcovers => ?_⟩
    exact Bool.eq_false_iff.1 hopen (covers_mono (List.subset_append_left _ _) hcovers)
  exact Finset.card_lt_card ((Finset.ssubset_iff_of_subset hsub).2 ⟨_, hown, hclosed⟩)

/-- What is added uses up open pairs. -/
theorem Grows.length_add_card_le (hnow : Grows h edges now) :
    now.length + (openPairs h now).card ≤ edges.length + (openPairs h edges).card := by
  induction hnow with
  | refl => exact Nat.le_refl _
  | add sequence _ ha hb hab ih =>
    have hlt := card_openPairs_append_lt ha hb hab sequence
    rw [List.length_append, List.length_singleton]
    omega

/-- `c` leads somewhere that `e` does not lead. -/
def Unlike (h : Hierarchy) (e c : Converter) : Prop :=
  ¬ (h.related e.source c.source = true ∧ h.related e.target c.target = true)

theorem unlike_of_chainable (hab : chainable h edges a b = true) (he : e ∈ edges) (sequence : Nat) :
    Unlike h e (a.andThen b sequence) := fun hends =>
  Bool.eq_false_iff.1 (chainable_iff.1 hab).2 (covers_iff.2 ⟨e, he, hends⟩)

/-- What is added is unlike all that stands before it. -/
theorem Grows.unlike (hnow : Grows h edges now) {i k : Nat} (hk : edges.length ≤ k) (hik : i < k)
    (he : now[i]? = some e) (hc : now[k]? = some c) : Unlike h e c := by
  induction hnow generalizing i k e c with
  | refl =>
    rw [List.getElem?_eq_none hk] at hc
    cases hc
  | @add now a b sequence _ _ _ hab ih =>
    obtain ⟨hlt, -⟩ := List.getElem?_eq_some_iff.1 hc
    rw [List.length_append, List.length_singleton] at hlt
    have hi : i < now.length := by omega
    rw [List.getElem?_append_left hi] at he
    rcases Nat.lt_or_eq_of_le (Nat.le_of_lt_succ hlt) with hold | rfl
    · rw [List.getElem?_append_left hold] at hc
      exact ih hk hik he hc
    · rw [List.getElem?_concat_length] at hc
      cases hc
      exact unlike_of_chainable hab (List.mem_of_getElem? he) sequence

/-! ## Turns -/

/-- Where the loops are: the converters so far, and the places of the two that meet next. -/
structure Sweep where
  edges : List Converter
  row : Nat
  column : Nat

/-- One turn of the loops: two converters meet, or the next row begins. -/
inductive Turn (h : Hierarchy) : Sweep → Sweep → Prop
  | meet {edges : List Converter} {i j : Nat} (hi : i < edges.length) (hj : j < edges.length) :
      Turn h ⟨edges, i, j⟩ ⟨complete h edges i j, i, j + 1⟩
  | next {edges : List Converter} {i j : Nat} (hi : i < edges.length) (hj : edges.length ≤ j) :
      Turn h ⟨edges, i, j⟩ ⟨edges, i + 1, 0⟩

/-- What a meeting does, in terms of the list alone. -/
theorem complete_eq_or {i j : Nat} (hi : i < edges.length) (hj : j < edges.length) :
    complete h edges i j = edges ∨ ∃ a ∈ edges, ∃ b ∈ edges, chainable h edges a b = true ∧
      complete h edges i j = edges ++ [a.andThen b (nextSequence edges)] := by
  have ha : edges[i] ∈ edges := List.getElem_mem hi
  have hb : edges[j] ∈ edges := List.getElem_mem hj
  rcases complete_cases (h := h) (List.getElem?_eq_getElem hi) (List.getElem?_eq_getElem hj) with
    ⟨hab, heq⟩ | ⟨-, hba, heq⟩ | ⟨-, -, heq⟩
  · exact .inr ⟨_, ha, _, hb, hab, heq⟩
  · exact .inr ⟨_, hb, _, ha, hba, heq⟩
  · exact .inl heq

/-- What is left to do: first open pairs, then rows, then converters in the row. -/
def Sweep.rest (h : Hierarchy) (s : Sweep) : Nat ×ₗ Nat ×ₗ Nat :=
  toLex ((openPairs h s.edges).card, toLex (s.edges.length - s.row, s.edges.length - s.column))

theorem rest_lt_of_turn {s t : Sweep} (hturn : Turn h s t) : t.rest h < s.rest h := by
  cases hturn with
  | @meet edges i j hi hj =>
    rcases complete_eq_or (h := h) hi hj with heq | ⟨a, ha, b, hb, hab, heq⟩
    · -- nothing is added, and the loops are one place further
      rw [heq]
      exact Prod.Lex.right _ (Prod.Lex.right _ (by dsimp only; omega))
    · -- the list is longer, so only the open pairs count
      rw [heq]
      exact Prod.Lex.left _ _ (card_openPairs_append_lt ha hb hab _)
  | next hi hj => exact Prod.Lex.right _ (Prod.Lex.left _ _ (by dsimp only; omega))

/-- **The loops end, wherever they start.** -/
theorem wellFounded_turn (h : Hierarchy) : WellFounded fun t s : Sweep => Turn h s t :=
  Subrelation.wf rest_lt_of_turn (InvImage.wf (Sweep.rest h) wellFounded_lt)

/-! ## The whole run -/

theorem length_le_complete (h : Hierarchy) (edges : List Converter) (i j : Nat) :
    edges.length ≤ (complete h edges i j).length :=
  (isPrefix_complete h edges i j).length_le

/-- A row is gone through to its end. -/
theorem turns_completeRow {i fuel j : Nat} (hi : i < edges.length) (hj : j ≤ edges.length)
    (hfuel : (completeRow h i fuel j edges).length ≤ j + fuel) :
    ReflTransGen (Turn h) ⟨edges, i, j⟩
      ⟨completeRow h i fuel j edges, i, (completeRow h i fuel j edges).length⟩ := by
  induction fuel generalizing j edges with
  | zero =>
    rw [completeRow] at hfuel ⊢
    obtain rfl : j = edges.length := by omega
    exact .refl
  | succ fuel ih =>
    rw [completeRow] at hfuel ⊢
    split at hfuel
    · next hlt =>
        rw [if_pos hlt]
        have hgrown := length_le_complete h edges i j
        exact .head (.meet hi hlt) (ih (by omega) (by omega) (by omega))
    · next hge =>
        rw [if_neg hge]
        obtain rfl : j = edges.length := by omega
        exact .refl

theorem turns_completeRows {limit fuel i : Nat} (hi : i ≤ edges.length)
    (hlimit : (completeRows h limit fuel i edges).length ≤ limit)
    (hfuel : (completeRows h limit fuel i edges).length ≤ i + fuel) :
    ReflTransGen (Turn h) ⟨edges, i, 0⟩
      ⟨completeRows h limit fuel i edges, (completeRows h limit fuel i edges).length, 0⟩ := by
  induction fuel generalizing i edges with
  | zero =>
    rw [completeRows] at hfuel ⊢
    obtain rfl : i = edges.length := by omega
    exact .refl
  | succ fuel ih =>
    rw [completeRows] at hlimit hfuel ⊢
    split at hfuel
    · next hlt =>
        rw [if_pos hlt] at hlimit ⊢
        have hrow := (grows_completeRow h i limit 0 edges).isPrefix.length_le
        have hrows := (grows_completeRows h limit fuel (i + 1)
          (completeRow h i limit 0 edges)).isPrefix.length_le
        have hshort : (completeRow h i limit 0 edges).length ≤ 0 + limit := by omega
        have hthrough := turns_completeRow hlt (Nat.zero_le _) hshort
        have hnext : Turn h ⟨completeRow h i limit 0 edges, i, _⟩ _ :=
          .next (hlt.trans_le hrow) (Nat.le_refl _)
        exact (hthrough.tail hnext).trans (ih (by omega) hlimit (by omega))
    · next hge =>
        rw [if_neg hge]
        obtain rfl : i = edges.length := by omega
        exact .refl

/-- **Closing is what the loops do.** -/
theorem turns_close (h : Hierarchy) (edges : List Converter) :
    ReflTransGen (Turn h) ⟨edges, 0, 0⟩ ⟨close h edges, (close h edges).length, 0⟩ := by
  have hle := (grows_close h edges).length_le
  exact turns_completeRows (Nat.zero_le _) hle (by rw [Nat.zero_add]; exact hle)

/-! ## Numbers -/

theorem lt_nextSequence (he : e ∈ edges) : e.sequence < nextSequence edges := by
  -- the maximum so far never gets smaller, and takes in every number that it passes
  have hfold : ∀ (edges : List Converter) (n : Nat),
      n ≤ edges.foldl (fun n e => max n (e.sequence + 1)) n ∧
        ∀ e ∈ edges, e.sequence < edges.foldl (fun n e => max n (e.sequence + 1)) n := by
    intro edges
    induction edges with
    | nil => exact fun n => ⟨Nat.le_refl n, nofun⟩
    | cons d edges ih =>
      intro n
      obtain ⟨hle, hall⟩ := ih (max n (d.sequence + 1))
      rw [List.foldl_cons]
      exact ⟨by omega, List.forall_mem_cons.2 ⟨by omega, hall⟩⟩
  exact (hfold edges 0).2 e he

/-- A turn gives what it adds a number of its own. -/
theorem nodup_sequence_of_turn {s t : Sweep} (hturn : Turn h s t)
    (hs : (s.edges.map (·.sequence)).Nodup) : (t.edges.map (·.sequence)).Nodup := by
  cases hturn with
  | @meet edges i j hi hj =>
    rcases complete_eq_or (h := h) hi hj with heq | ⟨a, -, b, -, -, heq⟩
    · rw [heq]
      exact hs
    · rw [heq, List.map_append, List.map_singleton]
      refine List.nodup_append.2 ⟨hs, List.nodup_singleton _, ?_⟩
      rintro n hn _ hnew rfl
      obtain ⟨e, he, rfl⟩ := List.mem_map.1 hn
      exact Nat.ne_of_lt (lt_nextSequence he) (List.mem_singleton.1 hnew)
  | next => exact hs

theorem nodup_sequence_of_turns {s t : Sweep} (hturns : ReflTransGen (Turn h) s t)
    (hs : (s.edges.map (·.sequence)).Nodup) : (t.edges.map (·.sequence)).Nodup := by
  induction hturns with
  | refl => exact hs
  | tail _ hturn ih => exact nodup_sequence_of_turn hturn ih

/-! ## The converters at the start -/

theorem insert_perm (h : Hierarchy) (c : Converter) (edges : List Converter) :
    (insert h c edges).Perm (c :: edges) := by
  induction edges with
  | nil => exact .refl _
  | cons e edges ih =>
    rw [insert]
    split
    · exact .refl _
    · exact (ih.cons e).trans (.swap c e edges)

theorem foldl_insert_perm (h : Hierarchy) (cs edges : List Converter) :
    (cs.foldl (fun edges c => insert h c edges) edges).Perm (cs ++ edges) := by
  induction cs generalizing edges with
  | nil => exact .refl _
  | cons c cs ih =>
    rw [List.foldl_cons]
    exact (ih _).trans (((insert_perm h c edges).append_left cs).trans List.perm_middle)

end Converter

namespace Graph

open Converter

/-- The converters that chaining starts from: those that were registered, numbered, and put in
order. -/
def start (h : Hierarchy) (registered : List Converter) : List Converter :=
  (registered.zipIdx.map fun r => { r.1 with sequence := r.2 }).foldl
    (fun edges c => Converter.insert h c edges) []

theorem grows_build (h : Hierarchy) (registered : List Converter) :
    Grows h (start h registered) (build h registered).edges := grows_close h (start h registered)

theorem start_perm (h : Hierarchy) (registered : List Converter) :
    (start h registered).Perm (registered.zipIdx.map fun r => { r.1 with sequence := r.2 }) := by
  have hperm := foldl_insert_perm h
    (registered.zipIdx.map fun r => { r.1 with sequence := r.2 }) []
  rwa [List.append_nil] at hperm

/-- Numbers aside, the converters at the start are the registered ones in another order. -/
theorem map_start_perm {α : Type} (f : Converter → α) (hf : ∀ c n, f { c with sequence := n } = f c)
    (h : Hierarchy) (registered : List Converter) :
    ((start h registered).map f).Perm (registered.map f) := by
  have hperm := (start_perm h registered).map f
  rw [List.map_map] at hperm
  have hsame : (f ∘ fun r : Converter × Nat => { r.1 with sequence := r.2 }) = f ∘ Prod.fst :=
    funext fun r => hf r.1 r.2
  rwa [hsame, ← List.map_map, List.zipIdx_map_fst] at hperm

theorem length_start (h : Hierarchy) (registered : List Converter) :
    (start h registered).length = registered.length := by
  rw [(start_perm h registered).length_eq, List.length_map, List.length_zipIdx]

theorem nodup_sequence_start (h : Hierarchy) (registered : List Converter) :
    ((start h registered).map (·.sequence)).Nodup := by
  refine ((start_perm h registered).map _).nodup_iff.2 ?_
  rw [List.map_map]
  exact (List.zipIdx_map_snd 0 registered).symm ▸ List.nodup_range'

/-- **Chaining ends, and never repeats itself.** Its loops have no endless run, and the run from the
registered converters ends with the graph. What it adds stands behind these, and leads from a source
to a target such that no converter before it leads from a relative of the one to a relative of the
other. So it adds at most one converter for every pair of a source and a target, and the numbers of
all are different. -/
theorem build_sweeps (h : Hierarchy) (registered : List Converter) :
    let edges := (build h registered).edges
    WellFounded (fun t s : Sweep => Turn h s t) ∧
    ReflTransGen (Turn h) ⟨start h registered, 0, 0⟩ ⟨edges, edges.length, 0⟩ ∧
    start h registered <+: edges ∧
    (∀ t, ¬ Turn h ⟨edges, edges.length, 0⟩ t) ∧
    (∀ (i k : Nat) (e c : Converter), registered.length ≤ k → i < k → edges[i]? = some e →
      edges[k]? = some c →
        ¬ (h.related e.source c.source = true ∧ h.related e.target c.target = true)) ∧
    edges.length ≤ registered.length +
      (registered.map (·.source)).toFinset.card * (registered.map (·.target)).toFinset.card ∧
    (edges.map (·.sequence)).Nodup := by
  intro edges
  have hgrows : Grows h (start h registered) edges := grows_build h registered
  have hturns : ReflTransGen (Turn h) ⟨start h registered, 0, 0⟩ ⟨edges, edges.length, 0⟩ :=
    turns_close h _
  refine ⟨wellFounded_turn h, hturns, hgrows.isPrefix, ?_, ?_, ?_, ?_⟩
  · rintro t (⟨hi, -⟩ | ⟨hi, -⟩) <;> exact Nat.lt_irrefl _ hi
  · intro i k e c hk hik he hc
    rw [← length_start h registered] at hk
    exact hgrows.unlike hk hik he hc
  · -- the ends at the start are those of the registered converters
    have hsources : ((start h registered).map (·.source)).toFinset
        = (registered.map (·.source)).toFinset :=
      List.toFinset_eq_of_perm _ _ (map_start_perm _ (fun _ _ => rfl) h registered)
    have htargets : ((start h registered).map (·.target)).toFinset
        = (registered.map (·.target)).toFinset :=
      List.toFinset_eq_of_perm _ _ (map_start_perm _ (fun _ _ => rfl) h registered)
    have hopen : (openPairs h (start h registered)).card ≤ (endPairs (start h registered)).card :=
      Finset.card_filter_le _ _
    rw [endPairs, Finset.card_product, hsources, htargets] at hopen
    have hle := hgrows.length_add_card_le
    rw [length_start] at hle
    omega
  · exact nodup_sequence_of_turns hturns (nodup_sequence_start h registered)

end Graph

end ScriptStore.Types
