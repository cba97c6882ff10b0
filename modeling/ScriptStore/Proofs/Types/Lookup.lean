import ScriptStore.Proofs.Types.Sweep

/-!
# Where a lookup finds a converter

A lookup goes over the edges three times: for one that fits, for one that is too wide at one end, and
for one that is too wide at both. Taken together these are all the ways in which the ends of an edge
can be related to what is asked for. So a lookup finds something if and only if chaining would not
chain anything there (`Graph.isSome_converter?`), and whatever is covered can be converted.

Two registered converters meet twice, once in the row of either, because both are in the list when
the loops start. So each order that can be chained is covered (`Converter.covered_close`). Between
converters of which one was added later the second order may be left open; registered ones are
always looked up with success (`Graph.isSome_converter?_of_registered`).
-/

namespace ScriptStore.Types

namespace Converter

variable {h : Hierarchy} {edges : List Converter} {a b : Converter}

/-- Two converters that were there from the start are chained, or the chain is needless. -/
theorem covered_close (ha : a ∈ edges) (hb : b ∈ edges) (hab : Composable h a b) :
    Covered h (close h edges) a b := by
  obtain ⟨k, hk⟩ := List.mem_iff_getElem?.1 ha
  obtain ⟨m, hm⟩ := List.mem_iff_getElem?.1 hb
  obtain ⟨hklt, -⟩ := List.getElem?_eq_some_iff.1 hk
  obtain ⟨hmlt, -⟩ := List.getElem?_eq_some_iff.1 hm
  have hclosed : k < (close h edges).length := hklt.trans_le (grows_close h edges).isPrefix.length_le
  -- the row of `a` goes over all the others, wherever they stand
  obtain ⟨mid, hmid, -, hvisit⟩ := exists_visit (.inr hmlt) hclosed
  have hkmid := (getElem?_of_isPrefix hmid hklt).symm.trans hk
  have hmmid := (getElem?_of_isPrefix hmid hmlt).symm.trans hm
  exact covers_mono hvisit.subset (covered_complete hkmid hmmid hab)

end Converter

namespace Graph

open Converter

/-- An edge that is too wide at one end can be used with a check. -/
theorem isSome_wideAtOneEnd? (g : Graph) (source target : Kind) (e : Converter) :
    (g.wideAtOneEnd? source target e).isSome =
      (g.hierarchy.assignable e.source source && g.hierarchy.assignable e.target target ||
        g.hierarchy.assignable source e.source && g.hierarchy.assignable target e.target) := by
  unfold wideAtOneEnd?
  dsimp only
  split
  · next hwide => rw [hwide, Bool.true_or, Option.isSome_some]
  · next hnarrow =>
      rw [Bool.eq_false_iff.2 hnarrow, Bool.false_or]
      split
      · next hwide => rw [hwide, Option.isSome_some]
      · next hopen => rw [Bool.eq_false_iff.2 hopen, Option.isSome_none]

/-- The three searches of a lookup, one after the other. -/
theorem isSome_converter?_eq (g : Graph) (source target : Kind) :
    (g.converter? source target).isSome =
      ((g.fitting? source target).isSome ||
        ((g.edges.findSome? (g.wideAtOneEnd? source target)).isSome ||
          (g.edges.find? fun e => g.hierarchy.assignable source e.source &&
            g.hierarchy.assignable e.target target).isSome)) := by
  unfold converter?
  cases g.fitting? source target with
  | some e => rfl
  | none =>
    cases g.edges.findSome? (g.wideAtOneEnd? source target) with
    | some f => rfl
    | none => exact Option.isSome_map

/-- **A lookup finds a converter wherever an edge leads between relatives.** -/
theorem isSome_converter? (g : Graph) (source target : Kind) :
    (g.converter? source target).isSome = covers g.hierarchy g.edges source target := by
  rw [isSome_converter?_eq, fitting?, List.isSome_find?, List.isSome_findSome?, List.isSome_find?,
    covers, Bool.eq_iff_iff]
  simp only [Bool.or_eq_true, List.any_eq_true, ← exists_or, ← and_or_left, isSome_wideAtOneEnd?, fits,
    Hierarchy.related, Bool.and_eq_true]
  refine exists_congr fun e => and_congr_right fun _ => ?_
  -- the two ends of an edge may each be related in two ways
  tauto

variable {h : Hierarchy} {registered : List Converter} {a b : Converter}

/-- Numbers aside, what is registered is there when chaining starts. -/
theorem exists_mem_start (ha : a ∈ registered) :
    ∃ n, { a with sequence := n } ∈ start h registered := by
  obtain ⟨n, hn⟩ := List.mem_iff_getElem?.1 ha
  have hmem : (a, n) ∈ registered.zipIdx := List.mem_zipIdx_iff_getElem?.2 hn
  exact ⟨n, (start_perm h registered).mem_iff.2 (List.mem_map.2 ⟨(a, n), hmem, rfl⟩)⟩

/-- **Registered converters convert transitively.** If one may come before the other, takes its values
to where that one takes them from, and does not start where that one ends, values of the source of
the first can be converted to the target of the second. -/
theorem isSome_converter?_of_registered (ha : a ∈ registered) (hb : b ∈ registered)
    (hfits : h.assignable b.source a.target = true)
    (hright : a.restrictions.noRightChaining = false)
    (hleft : b.restrictions.noLeftChaining = false) (hends : a.source ≠ b.target) :
    ((build h registered).converter? a.source b.target).isSome = true := by
  obtain ⟨n, hna⟩ := exists_mem_start (h := h) ha
  obtain ⟨m, hmb⟩ := exists_mem_start (h := h) hb
  have hcovered : Covered h (close h (start h registered)) _ _ :=
    covered_close hna hmb ⟨hright, hleft, hfits, hends⟩
  rw [isSome_converter?]
  exact hcovered

/-- Cats are pets, and texts are names. Numbers are made into cats, and pets have names, but the two are
not chained: there is a converter from integers to texts already, which is found in place of the
chain. -/
theorem isSome_converter?_of_registered_pets :
    let h : Hierarchy := ⟨[(.integer, .number), (.host "cat", .host "pet"), (.string, .host "name")]⟩
    let registered := [single (.host "pet") (.host "name") {} some,
      single .integer .string ⟨true, true, false⟩ some, single .number (.host "cat") {} some]
    (build h registered).edges.length = 3 ∧
      ((build h registered).converter? .number (.host "name")).isSome = true := by
  intro h registered
  refine ⟨by decide, ?_⟩
  exact @isSome_converter?_of_registered h registered (single .number (.host "cat") {} some)
    (single (.host "pet") (.host "name") {} some) (.tail _ (.tail _ (.head _))) (.head _) (by decide)
    rfl rfl (by decide)

end Graph

end ScriptStore.Types
