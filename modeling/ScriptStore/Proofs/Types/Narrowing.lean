import ScriptStore.Proofs.Types.Chaining
import ScriptStore.Proofs.Types.Hierarchy

/-!
# Narrow converters come first

A converter is put in front of the first one that it narrows. That alone says nothing about the
converters that narrow it. They stand before it all the same, because what narrows it also narrows
the one it was put in front of, and was in the right place already (`Ordered.insert`). Chains are
only appended, but a chain that narrows a converter leads between relatives of the ends of that
converter, and such a chain is not made (`Ordered.grows`).

So the list of a graph is ordered, and the first converter in it that fits is a narrowest one
(`Graph.build_narrowest_first`).
-/

namespace ScriptStore.Types

namespace Converter

variable {h : Hierarchy} {edges now : List Converter} {a b c e : Converter}

/-! ## Narrower converters -/

/-- `a` and `b` lead from the same kind to the same kind. -/
def SameEnds (a b : Converter) : Prop := a.source = b.source ∧ a.target = b.target

theorem SameEnds.symm (hab : SameEnds a b) : SameEnds b a := ⟨hab.1.symm, hab.2.symm⟩

/-- What `a` takes, `b` takes too, and what `b` gives may stand where what `a` gives is expected. -/
structure Within (h : Hierarchy) (a b : Converter) : Prop where
  source : h.assignable b.source a.source = true
  target : h.assignable a.target b.target = true

theorem narrows_iff : a.narrows h b = true ↔ Within h a b ∧ ¬ SameEnds a b := by
  simp only [narrows, Bool.and_eq_true, bne_iff_ne, ne_eq, Prod.mk.injEq, SameEnds]
  constructor
  · rintro ⟨⟨hends, hsource⟩, htarget⟩
    exact ⟨⟨hsource, htarget⟩, fun hsame => hends ⟨hsame.1.symm, hsame.2.symm⟩⟩
  · rintro ⟨⟨hsource, htarget⟩, hends⟩
    exact ⟨⟨fun hsame => hends ⟨hsame.1.symm, hsame.2.symm⟩, hsource⟩, htarget⟩

theorem SameEnds.within (hab : SameEnds a b) : Within h a b := by
  obtain ⟨hsource, htarget⟩ := hab
  refine ⟨?_, ?_⟩
  · rw [hsource]
    exact h.assignable_self b.source
  · rw [htarget]
    exact h.assignable_self b.target

section

variable (hh : h.Declared)

include hh

theorem Within.trans (hab : Within h a b) (hbc : Within h b c) : Within h a c :=
  ⟨hh.assignable_trans hbc.source hab.source, hh.assignable_trans hab.target hbc.target⟩

theorem Within.sameEnds (hab : Within h a b) (hba : Within h b a) : SameEnds a b :=
  ⟨hh.assignable_antisymm hba.source hab.source, hh.assignable_antisymm hab.target hba.target⟩

/-- What is no wider than a converter that narrows another one narrows that one too. -/
theorem narrows_of_within (hab : Within h a b) (hbc : b.narrows h c = true) :
    a.narrows h c = true := by
  obtain ⟨hwithin, hends⟩ := narrows_iff.1 hbc
  refine narrows_iff.2 ⟨hab.trans hh hwithin, fun hsame => hends ?_⟩
  -- if `a` had the ends of `c`, then `b` would lie between the two
  exact hwithin.sameEnds hh (hsame.symm.within.trans hh hab)

end

/-! ## Ordered lists -/

/-- No converter stands behind one that it narrows, and those between the same ends stand in the
order of their numbers. -/
def Ordered (h : Hierarchy) (edges : List Converter) : Prop :=
  edges.Pairwise fun a b => ¬ b.narrows h a = true ∧ (SameEnds a b → a.sequence < b.sequence)

/-- **A converter that is put in front of the first one it narrows stands where it should.** -/
theorem Ordered.insert (hh : h.Declared) (hedges : Ordered h edges)
    (hnew : ∀ e ∈ edges, e.sequence < c.sequence) : Ordered h (insert h c edges) := by
  induction edges with
  | nil => exact List.pairwise_singleton _ c
  | cons e rest ih =>
    obtain ⟨hfirst, hrest⟩ := List.pairwise_cons.1 hedges
    obtain ⟨hnewFirst, hnewRest⟩ := List.forall_mem_cons.1 hnew
    rw [Converter.insert]
    split
    · next hnarrows =>
        -- nothing from `e` on is within `c`, or it would narrow `e`
        have hoff : ∀ d ∈ e :: rest, ¬ Within h d c := by
          intro d hd hwithin
          have hd' := narrows_of_within hh hwithin hnarrows
          rcases List.mem_cons.1 hd with rfl | hd
          · exact (narrows_iff.1 hd').2 ⟨rfl, rfl⟩
          · exact (hfirst d hd).1 hd'
        refine List.pairwise_cons.2 ⟨?_, hedges⟩
        intro d hd
        refine ⟨?_, ?_⟩
        · intro hdc
          exact hoff d hd (narrows_iff.1 hdc).1
        · intro hsame
          exact absurd hsame.symm.within (hoff d hd)
    · next hnarrows =>
        refine List.pairwise_cons.2 ⟨?_, ih hrest hnewRest⟩
        intro d hd
        rcases mem_insert.1 hd with rfl | hd
        · exact ⟨hnarrows, fun _ => hnewFirst⟩
        · exact hfirst d hd

/-- Putting in converters that are numbered from `n` on keeps a list ordered. -/
theorem Ordered.insertAll (hh : h.Declared) (cs : List Converter) {n : Nat}
    (hedges : Ordered h edges) (hbelow : ∀ e ∈ edges, e.sequence < n) :
    Ordered h (((cs.zipIdx n).map fun (c, i) => { c with sequence := i }).foldl
      (fun edges c => Converter.insert h c edges) edges) := by
  induction cs generalizing edges n with
  | nil => exact hedges
  | cons c cs ih =>
    rw [List.zipIdx_cons, List.map_cons, List.foldl_cons]
    apply ih (hedges.insert hh hbelow)
    intro e he
    rcases mem_insert.1 he with rfl | he
    · exact Nat.lt_succ_self n
    · exact Nat.lt_succ_of_lt (hbelow e he)

/-- A chain is only made where no relative of it is, so it narrows nothing that stands before it. -/
theorem Ordered.grows (hedges : Ordered h edges) (hnow : Grows h edges now) : Ordered h now := by
  induction hnow with
  | refl => exact hedges
  | @add now a b sequence _ _ _ hab ih =>
    have hoff : ∀ e ∈ now, ¬ Within h (a.andThen b sequence) e := by
      intro e he hwithin
      have hsource : h.related e.source a.source = true :=
        Hierarchy.related_of_assignable hwithin.source
      have htarget : h.related e.target b.target = true :=
        (h.related_comm _ _).trans (Hierarchy.related_of_assignable hwithin.target)
      have hcovers := covers_iff.2 ⟨e, he, hsource, htarget⟩
      rw [(chainable_iff.1 hab).2] at hcovers
      cases hcovers
    refine List.pairwise_append.2 ⟨ih, List.pairwise_singleton _ _, ?_⟩
    intro e he d hd
    rw [List.mem_singleton.1 hd]
    refine ⟨?_, ?_⟩
    · intro hnarrows
      exact hoff e he (narrows_iff.1 hnarrows).1
    · intro hsame
      exact absurd hsame.symm.within (hoff e he)

/-! ## What the order says -/

section

variable (hedges : Ordered h edges)

include hedges

theorem Ordered.at_places {i j : Nat} (hij : i < j) (ha : edges[i]? = some a)
    (hb : edges[j]? = some b) :
    ¬ b.narrows h a = true ∧ (SameEnds a b → a.sequence < b.sequence) := by
  obtain ⟨hi, rfl⟩ := List.getElem?_eq_some_iff.1 ha
  obtain ⟨hj, rfl⟩ := List.getElem?_eq_some_iff.1 hb
  exact List.pairwise_iff_getElem.1 hedges i j hi hj hij

theorem Ordered.lt_of_narrows {i j : Nat} (ha : edges[i]? = some a) (hb : edges[j]? = some b)
    (hab : a.narrows h b = true) : i < j := by
  rcases Nat.lt_trichotomy i j with hij | rfl | hji
  · exact hij
  · obtain rfl : a = b := Option.some.inj (ha.symm.trans hb)
    exact absurd ⟨rfl, rfl⟩ (narrows_iff.1 hab).2
  · exact absurd hab (hedges.at_places hji hb ha).1

theorem Ordered.lt_iff_sequence_lt {i j : Nat} (ha : edges[i]? = some a) (hb : edges[j]? = some b)
    (hsame : SameEnds a b) : i < j ↔ a.sequence < b.sequence := by
  constructor
  · intro hij
    exact (hedges.at_places hij ha hb).2 hsame
  · intro hlt
    rcases Nat.lt_trichotomy i j with hij | rfl | hji
    · exact hij
    · obtain rfl : a = b := Option.some.inj (ha.symm.trans hb)
      exact absurd hlt (Nat.lt_irrefl _)
    · have := (hedges.at_places hji hb ha).2 hsame.symm
      omega

/-- The first converter with a property has all others with that property behind it. -/
theorem Ordered.of_find? {p : Converter → Bool} (hfind : edges.find? p = some e) {d : Converter}
    (hd : d ∈ edges) (hp : p d = true) :
    ¬ d.narrows h e = true ∧ (SameEnds d e → d = e ∨ e.sequence < d.sequence) := by
  obtain ⟨-, before, later, rfl, hbefore⟩ := List.find?_eq_some_iff_append.1 hfind
  rcases List.mem_append.1 hd with hd | hd
  · -- what stands before the first one does not have the property
    have hnot := hbefore d hd
    rw [hp] at hnot
    cases hnot
  · rcases List.mem_cons.1 hd with rfl | hd
    · refine ⟨?_, ?_⟩
      · intro hself
        exact (narrows_iff.1 hself).2 ⟨rfl, rfl⟩
      · intro _
        exact .inl rfl
    · obtain ⟨-, hfrom, -⟩ := List.pairwise_append.1 hedges
      obtain ⟨hnarrows, hsequence⟩ := (List.pairwise_cons.1 hfrom).1 d hd
      refine ⟨hnarrows, ?_⟩
      intro hsame
      exact .inr (hsequence hsame.symm)

end

end Converter

namespace Graph

open Converter

variable {h : Hierarchy} {registered : List Converter}

theorem ordered_build (hh : h.Declared) (registered : List Converter) :
    Ordered h (build h registered).edges := by
  have hnone : Ordered h [] := List.Pairwise.nil
  have hinserted := hnone.insertAll hh registered (n := 0)
    fun e he => absurd he List.not_mem_nil
  exact hinserted.grows (grows_close h _)

/-- What was registered is in the graph, numbered in the order of registration. -/
theorem mem_build_of_registered {k : Nat} {r : Converter} (hr : registered[k]? = some r) :
    { r with sequence := k } ∈ (build h registered).edges := by
  apply (grows_close h _).isPrefix.subset
  refine mem_foldl_insert.2 (.inl (List.mem_map.2 ⟨(r, k), ?_, rfl⟩))
  exact List.mk_mem_zipIdx_iff_getElem?.2 hr

/-- `e` is the converter to take: it fits, no other one that fits narrows it, and of those between
its ends it was registered first. -/
structure Narrowest (g : Graph) (source target : Kind) (e : Converter) : Prop where
  mem : e ∈ g.edges
  fits : g.fits source target e = true
  narrowest : ∀ d ∈ g.edges, g.fits source target d = true → ¬ d.narrows g.hierarchy e = true
  first : ∀ d ∈ g.edges, SameEnds d e → d = e ∨ e.sequence < d.sequence

theorem narrowest_of_fitting? (hh : h.Declared) {source target : Kind} {e : Converter}
    (he : (build h registered).fitting? source target = some e) :
    Narrowest (build h registered) source target e := by
  have hordered := ordered_build hh registered
  have hfits := List.find?_some he
  refine ⟨List.mem_of_find?_eq_some he, hfits, ?_, ?_⟩
  · intro d hd hdfits
    exact (hordered.of_find? he hd hdfits).1
  · intro d hd hsame
    -- whatever has the same ends fits as well
    have hdfits : (build h registered).fits source target d = true := by
      unfold fits at hfits ⊢
      rw [hsame.1, hsame.2]
      exact hfits
    exact (hordered.of_find? he hd hdfits).2 hsame

/-- **In a graph every converter stands before those that it narrows, and converters between the
same ends stand in the order of registration. The first converter that fits, which is also what a
conversion uses, is therefore a narrowest one**, and the first registered among those with its
ends. -/
theorem build_narrowest_first (hh : h.Declared) (registered : List Converter) :
    (∀ (i j : Nat) (a b : Converter), (build h registered).edges[i]? = some a →
      (build h registered).edges[j]? = some b →
        (a.narrows h b = true → i < j) ∧ (SameEnds a b → (i < j ↔ a.sequence < b.sequence))) ∧
    (∀ (k : Nat) (r : Converter), registered[k]? = some r →
      { r with sequence := k } ∈ (build h registered).edges) ∧
    ∀ source target : Kind,
      (∀ e, (build h registered).fitting? source target = some e →
        Narrowest (build h registered) source target e ∧
          (build h registered).converter? source target = some e.convert) ∧
      ((build h registered).fitting? source target = none →
        ∀ d ∈ (build h registered).edges, ¬ (build h registered).fits source target d = true) := by
  have hordered := ordered_build hh registered
  refine ⟨?_, ?_, ?_⟩
  · intro i j a b ha hb
    exact ⟨hordered.lt_of_narrows ha hb, hordered.lt_iff_sequence_lt ha hb⟩
  · intro k r hr
    exact mem_build_of_registered hr
  · intro source target
    refine ⟨?_, ?_⟩
    · intro e he
      refine ⟨narrowest_of_fitting? hh he, ?_⟩
      rw [converter?, he]
    · intro hnone
      exact List.find?_eq_none.1 hnone

/-- Three converters to texts: one of numbers, and two of integers that are registered after it. -/
def toTexts : List Converter :=
  [single .number .string {} some, single .integer .string {} some,
    single .integer .string {} fun _ => none]

/-- The converters of integers stand before that of numbers, and the first registered of the two is
taken. -/
theorem build_narrowest_first_integers :
    let h : Hierarchy := ⟨[(.integer, .number)]⟩
    h.Declared ∧ (build h toTexts).edges.map (·.sequence) = [1, 2, 0] ∧
      ∃ e, e.sequence = 1 ∧ Narrowest (build h toTexts) .integer .string e ∧
        (build h toTexts).converter? .integer .string = some e.convert := by
  intro h
  have hh : h.Declared := .declare .empty (rfl : Hierarchy.declare {} .integer .number = .ok h)
  have hsequence : ((build h toTexts).fitting? .integer .string).map (·.sequence) = some 1 := by
    decide
  obtain ⟨e, he, hone⟩ := Option.map_eq_some_iff.1 hsequence
  obtain ⟨-, -, hfitting⟩ := build_narrowest_first hh toTexts
  exact ⟨hh, by decide, e, hone, (hfitting .integer .string).1 e he⟩

end Graph

end ScriptStore.Types
