import Mathlib
import ScriptStore.Proofs.Types.Keeping

/-!
# The nearest info of a kind

The info of a kind that may not be registered itself is looked for in the order of trial, and the
first that covers the kind is taken. In this order no info stands before that of a subtype of its
kind, whatever the hints say and however many supertypes a kind has. So an info that covers the kind
and is narrower than the one found would have been found before it (`Registry.not_narrower`), and a
registered kind finds its own info, since all others that cover it are behind
(`Registry.nearest?_kind`).
-/

namespace ScriptStore.Types

open Relation (ReflTransGen)

namespace Draft

variable {d : Draft} {r : Registry} {settings : Settings}

/-- A registry has the infos of its draft and no others. -/
theorem mem_infos_iff (hd : ReflTransGen Step { settings } d) (hr : r.BuiltFrom d) {info : ClassInfo} :
    info ∈ r.infos ↔ info ∈ d.infos := by
  have hcodes : (d.infos.map (·.code)).Nodup := codes_of_steps hd List.nodup_nil
  obtain ⟨r₀, hbuild, hr₀⟩ := hr
  rw [hr₀]
  exact ⟨(build_eq_ok hbuild).2.1 info, mem_of_build hbuild hcodes⟩

/-- No info stands before that of a subtype. -/
theorem pairwise_infos (hr : r.BuiltFrom d) :
    r.infos.Pairwise fun a b => r.hierarchy.assignable a.kind b.kind = false := by
  obtain ⟨r₀, hbuild, hr₀⟩ := hr
  rw [hr₀]
  exact (build_eq_ok hbuild).2.2

end Draft

namespace Registry

variable {r : Registry} {k : Kind} {info other : ClassInfo}

theorem nearest?_eq_none_iff :
    r.nearest? k = none ↔ ∀ info ∈ r.infos, r.hierarchy.assignable info.kind k = false := by
  simp only [nearest?, List.find?_eq_none, Bool.not_eq_true]

/-- Of the infos that cover a kind, the nearest one stands first. -/
theorem eq_or_behind_of_nearest? (h : r.nearest? k = some info) :
    info ∈ r.infos ∧ r.hierarchy.assignable info.kind k = true ∧
      ∃ before behind, r.infos = before ++ info :: behind ∧
        ∀ other ∈ r.infos, r.hierarchy.assignable other.kind k = true →
          other = info ∨ other ∈ behind := by
  obtain ⟨hcovers, before, behind, hsplit, hbefore⟩ := List.find?_eq_some_iff_append.1 h
  refine ⟨List.mem_of_find?_eq_some h, hcovers, before, behind, hsplit, fun other hother hk => ?_⟩
  rw [hsplit] at hother
  rcases List.mem_append.1 hother with hother | hother
  · have hskipped := hbefore other hother
    rw [hk] at hskipped
    cases hskipped
  · exact List.mem_cons.1 hother

section

variable (horder : r.infos.Pairwise fun a b => r.hierarchy.assignable a.kind b.kind = false)

include horder

/-- What covers the kind too is the nearest info itself, or its kind is no subtype. -/
theorem not_narrower (h : r.nearest? k = some info) (hother : other ∈ r.infos)
    (hk : r.hierarchy.assignable other.kind k = true) :
    other = info ∨ r.hierarchy.assignable info.kind other.kind = false := by
  obtain ⟨-, -, before, behind, hsplit, hplace⟩ := eq_or_behind_of_nearest? h
  refine (hplace other hother hk).imp_right fun hbehind => ?_
  rw [hsplit] at horder
  exact (List.pairwise_cons.1 (List.pairwise_append.1 horder).2.1).1 other hbehind

/-- A registered kind finds its own info. -/
theorem nearest?_kind (hinfo : info ∈ r.infos) : r.nearest? info.kind = some info := by
  have hself := r.hierarchy.assignable_self info.kind
  cases hfound : r.nearest? info.kind with
  | none =>
    rw [nearest?_eq_none_iff.1 hfound info hinfo] at hself
    cases hself
  | some found =>
    rcases not_narrower horder hfound hinfo hself with rfl | hnot
    · rfl
    · -- what was found covers the kind of the info
      rw [(eq_or_behind_of_nearest? hfound).2.1] at hnot
      cases hnot

end

/-- **The info that is found for a kind is a most specific one.** In a registry that was built, a kind
finds no info if and only if no registered type covers it. The info that it finds is registered and
covers it, and no other registered type that covers it is a strict subtype of the one found. A kind that
is registered finds its own info. -/
theorem nearest?_most_specific {settings : Settings} {d : Draft}
    (hd : ReflTransGen Draft.Step { settings } d) (hr : r.BuiltFrom d) (k : Kind) :
    (r.nearest? k = none ↔ ∀ info ∈ d.infos, d.hierarchy.assignable info.kind k = false) ∧
    (∀ info, r.nearest? k = some info →
      info ∈ d.infos ∧ d.hierarchy.assignable info.kind k = true ∧
      ∀ other ∈ d.infos, d.hierarchy.assignable other.kind k = true →
        ¬ (other.kind ≠ info.kind ∧ d.hierarchy.assignable info.kind other.kind = true)) ∧
    ∀ info ∈ d.infos, info.kind = k → r.nearest? k = some info := by
  have horder := Draft.pairwise_infos hr
  simp only [← Draft.mem_infos_iff hd hr, ← hr.spec.1]
  refine ⟨nearest?_eq_none_iff, fun info hinfo => ?_, ?_⟩
  · obtain ⟨hmem, hcovers, -⟩ := eq_or_behind_of_nearest? hinfo
    refine ⟨hmem, hcovers, fun other hother hk hstrict => ?_⟩
    rcases not_narrower horder hinfo hother hk with rfl | hnot
    · exact hstrict.1 rfl
    · rw [hstrict.2] at hnot
      cases hnot
  · rintro info hinfo rfl
    exact nearest?_kind horder hinfo

namespace Toys

def animal : ClassInfo := { kind := .host "animal", code := "animal", name := "animal" }

/-- A toy wants to stand before the animals. -/
def toy : ClassInfo := { kind := .host "toy", code := "toy", name := "toy", before := ["animal"] }

def pet : ClassInfo := { kind := .host "pet", code := "pet", name := "pet", after := ["toy"] }

/-- Cats are pets and toys, and pets are animals. -/
def declared : Hierarchy :=
  ⟨[(.host "cat", .host "toy"), (.host "cat", .host "pet"), (.host "pet", .host "animal")]⟩

def draft : Draft := { settings := {}, hierarchy := declared, infos := [animal, toy, pet] }

theorem steps_draft : ReflTransGen Draft.Step { settings := {} } draft := by
  have hcat : Draft.declareSubtype { settings := {} } (.host "cat") (.host "toy")
      = .ok { settings := {}, hierarchy := ⟨[(.host "cat", .host "toy")]⟩ } := rfl
  have hcat' : Draft.declareSubtype { settings := {}, hierarchy := ⟨[(.host "cat", .host "toy")]⟩ }
      (.host "cat") (.host "pet") = .ok { settings := {}, hierarchy := ⟨[(.host "cat", .host "toy"),
        (.host "cat", .host "pet")]⟩ } := rfl
  have hpet : Draft.declareSubtype { settings := {}, hierarchy := ⟨[(.host "cat", .host "toy"),
      (.host "cat", .host "pet")]⟩ } (.host "pet") (.host "animal")
        = .ok { settings := {}, hierarchy := declared } := rfl
  refine .head (.declareSubtype hcat) (.head (.declareSubtype hcat') (.head (.declareSubtype hpet) ?_))
  have hanimal : (Draft.register { settings := {}, hierarchy := declared } animal).value
      = .ok { settings := {}, hierarchy := declared, infos := [animal] } := rfl
  have htoy : (Draft.register { settings := {}, hierarchy := declared, infos := [animal] } toy).value
      = .ok { settings := {}, hierarchy := declared, infos := [animal, toy] } := rfl
  have hdraft : (Draft.register { settings := {}, hierarchy := declared, infos := [animal, toy] }
      pet).value = .ok draft := rfl
  exact .head (.register hanimal) (.head (.register htoy) (.single (.register hdraft)))

/-- The types in the order of trial. -/
def registry : Registry := ⟨{}, declared, [toy, pet, animal], .build declared []⟩

theorem builtFrom_draft : registry.BuiltFrom draft := ⟨registry, rfl, rfl⟩

/-- Cats are not registered; what they find is not the animals, which were registered first, and
nothing that is registered and covers them is narrower. Pets find their own info, and nothing covers
integers. -/
theorem nearest?_most_specific_cats :
    (∃ info, registry.nearest? (.host "cat") = some info ∧ info.code = "toy" ∧
      ∀ other ∈ draft.infos, declared.assignable other.kind (.host "cat") = true →
        ¬ (other.kind ≠ info.kind ∧ declared.assignable info.kind other.kind = true)) ∧
      registry.nearest? (.host "pet") = some pet ∧ registry.nearest? .integer = none := by
  obtain ⟨-, hcat, -⟩ := nearest?_most_specific steps_draft builtFrom_draft (.host "cat")
  obtain ⟨-, -, hpet⟩ := nearest?_most_specific steps_draft builtFrom_draft (.host "pet")
  obtain ⟨hinteger, -, -⟩ := nearest?_most_specific steps_draft builtFrom_draft .integer
  have hfound : registry.nearest? (.host "cat") = some toy := rfl
  have huncovered : ∀ info ∈ draft.infos, draft.hierarchy.assignable info.kind .integer = false := by
    simp only [draft, List.forall_mem_cons]
    exact ⟨rfl, rfl, rfl, fun info hinfo => absurd hinfo List.not_mem_nil⟩
  exact ⟨⟨toy, hfound, rfl, (hcat toy hfound).2.2⟩, hpet pet (.tail _ (.tail _ (.head _))) rfl,
    hinteger.2 huncovered⟩

end Toys

end Registry

end ScriptStore.Types
