import Mathlib
import ScriptStore.Proofs.Types.Builtin
import ScriptStore.Proofs.Types.ClassOrder
import ScriptStore.Proofs.Types.Resaving

/-!
# Built-in values are kept

Whatever else is put into a draft after the built-in types, it takes nothing away: their infos stay,
and no other info gets one of their code names. When the registry is built all infos are placed, each
after those of its subtypes. So an info that covers the kind of a built-in type stands behind the info
of that type, however many were put in front of it, and a value of the type is saved by its own
serializer (`Registry.keeps_of_mem`). Each of the serializers stores every value of its kind; only
strings may be too long.
-/

namespace ScriptStore.Types

open Relation (ReflTransGen)

/-! ## Drafts that grow -/

/-- One more thing is put into a draft. -/
inductive Draft.Step (d : Draft) : Draft → Prop
  | register {d' : Draft} {info : ClassInfo} (hd' : (d.register info).value = .ok d') : Step d d'
  | declareSubtype {d' : Draft} {sub sup : Kind} (hd' : d.declareSubtype sub sup = .ok d') : Step d d'
  | addConverter (c : Converter) : Step d (d.addConverter c)

namespace Draft

variable {d d' : Draft}

theorem Step.infos_subset (h : d.Step d') : d.infos ⊆ d'.infos := by
  cases h with
  | register hd' =>
    rcases register_cases hd' with rfl | ⟨-, -, rfl⟩
    · exact List.Subset.refl _
    · exact List.subset_append_left _ _
  | declareSubtype hd' =>
    rw [Builtin.infos_declareSubtype hd']
    exact List.Subset.refl _
  | addConverter c => exact List.Subset.refl _

/-- No step gives two infos one code name. -/
theorem Step.codes (h : d.Step d') (hcodes : (d.infos.map (·.code)).Nodup) :
    (d'.infos.map (·.code)).Nodup := by
  cases h with
  | @register _ info hd' =>
    rcases register_cases hd' with rfl | ⟨hnew, -, rfl⟩
    · exact hcodes
    · rw [duplicate?_eq_none] at hnew
      rw [List.map_append, List.map_singleton, List.nodup_append]
      refine ⟨hcodes, List.nodup_singleton _, fun code hcode other hother => ?_⟩
      obtain ⟨earlier, hearlier, rfl⟩ := List.mem_map.1 hcode
      rw [List.mem_singleton.1 hother]
      exact (hnew earlier hearlier).1
  | declareSubtype hd' =>
    rw [Builtin.infos_declareSubtype hd']
    exact hcodes
  | addConverter c => exact hcodes

theorem infos_subset_of_steps (h : ReflTransGen Step d d') : d.infos ⊆ d'.infos := by
  induction h with
  | refl => exact List.Subset.refl _
  | tail _ hstep ih => exact List.Subset.trans ih hstep.infos_subset

theorem codes_of_steps (h : ReflTransGen Step d d') (hcodes : (d.infos.map (·.code)).Nodup) :
    (d'.infos.map (·.code)).Nodup := by
  induction h with
  | refl => exact hcodes
  | tail _ hstep ih => exact hstep.codes ih

/-- A registry has all infos of its draft. -/
theorem mem_of_build {r : Registry} (hbuild : d.build = .ok r)
    (hcodes : (d.infos.map (·.code)).Nodup) {info : ClassInfo} (h : info ∈ d.infos) :
    info ∈ r.infos := by
  have hperm := ((ClassOrder.sort_eq_ok_iff_greedy hcodes).1 (build_spec hbuild).1).1
  exact hperm.mem_iff.2 h

end Draft

/-! ## What a registry keeps -/

namespace Registry

variable {r : Registry}

/-- A value is saved under a code name, and what was saved is loaded as that value. -/
def Keeps (r : Registry) (v : Value) (code : String) : Prop :=
  ∃ data, (r.serialize v).value = some ⟨code, data⟩ ∧ (r.load ⟨code, data⟩).value = some v

/-- A registered type that is saved as it is, by a faithful serializer, keeps the values that this
can store. -/
theorem keeps_of_mem (hcodes : (r.infos.map (·.code)).Nodup)
    (horder : r.infos.Pairwise fun a b => r.hierarchy.assignable a.kind b.kind = false)
    {info : ClassInfo} (h : info ∈ r.infos) (hself : info.serializeAs = none) {s : Serializer}
    (hs : info.serializer = some s) (hfaithful : s.Faithful) {v : Value} (hv : v.kind = info.kind)
    (hstores : s.Stores v info.code) : r.Keeps v info.code := by
  obtain ⟨e, data, hencode, hdata⟩ := hstores
  have hplan := plan?_eq horder h hself hs hv
  have hsaved : (r.serialize v).value = some ⟨info.code, data⟩ := by
    rw [serialize, hplan]
    exact Plan.value_save.2 ⟨e, hencode, hdata, rfl⟩
  exact ⟨data, hsaved, load_of_plan? hcodes hplan hfaithful hsaved⟩

end Registry

namespace Builtin

variable {settings : Settings} {d : Draft} {r : Registry}

theorem exists_mem_zipWith {types : List (Kind × String × List Attribute)}
    {patterns : List (List Pattern)} (hcount : patterns.length = types.length)
    {t : Kind × String × List Attribute} (ht : t ∈ types) :
    ∃ ps, infoOf t ps ∈ List.zipWith infoOf types patterns := by
  obtain ⟨i, hi, rfl⟩ := List.mem_iff_getElem.1 ht
  have hlength : i < (List.zipWith infoOf types patterns).length := by
    rw [List.length_zipWith]
    omega
  refine ⟨patterns[i], ?_⟩
  rw [← List.getElem_zipWith (h := hlength)]
  exact List.getElem_mem hlength

/-- Every built-in type is still registered in what becomes of their draft. -/
theorem exists_mem_of_steps (hd : ReflTransGen Draft.Step (register { settings }).value.2 d)
    (hr : r.BuiltFrom d) {t : Kind × String × List Attribute} (ht : t ∈ types) :
    ∃ ps, infoOf t ps ∈ r.infos := by
  obtain ⟨patterns, hcount, hregister⟩ := register_empty settings
  rw [hregister] at hd
  have hcodes : ((draft settings patterns).infos.map (·.code)).Nodup := by
    have hmap : (List.zipWith infoOf types patterns).map (·.code) = types.map (·.2.1) := by
      refine List.ext_getElem (by simp [hcount]) fun i _ _ => ?_
      simp [infoOf, code_described]
    change ((List.zipWith infoOf types patterns).map (·.code)).Nodup
    rw [hmap]
    decide
  obtain ⟨ps, hps⟩ := exists_mem_zipWith hcount ht
  obtain ⟨r₀, hbuild, hr₀⟩ := hr
  rw [hr₀]
  exact ⟨ps, Draft.mem_of_build hbuild (Draft.codes_of_steps hd hcodes)
    (Draft.infos_subset_of_steps hd hps)⟩

/-- A registry keeps what the serializer of a built-in type can store. -/
theorem keeps_of_types (hd : ReflTransGen Draft.Step (register { settings }).value.2 d)
    (hr : r.BuiltFrom d) {t : Kind × String × List Attribute} (ht : t ∈ types) {s : Serializer}
    (hs : (described t).serializer = some s) {v : Value} (hv : v.kind = t.1)
    (hstores : s.Stores v t.2.1) : r.Keeps v t.2.1 := by
  obtain ⟨ps, hmem⟩ := exists_mem_of_steps hd hr ht
  obtain ⟨hself, hfaithful⟩ := serializers_of_types t ht
  have hcode : (infoOf t ps).code = t.2.1 := code_described t
  have hkind : (infoOf t ps).kind = t.1 := kind_described t
  obtain ⟨r₀, hbuild, hr₀⟩ := hr
  obtain ⟨hcodes, -, horder⟩ := Draft.build_eq_ok hbuild
  rw [hr₀] at hmem ⊢
  rw [← hcode] at hstores ⊢
  exact Registry.keeps_of_mem hcodes horder hmem hself hs (hfaithful s hs) (hv.trans hkind.symm)
    hstores

/-- **Values of built-in types can be saved and are loaded as they were**, with whatever types,
subtypes and converters their draft was extended. Each is saved under the code name of its type.
Registering the types themselves does not fail. -/
theorem values_are_kept (hd : ReflTransGen Draft.Step (register { settings }).value.2 d)
    (hr : r.BuiltFrom d) :
    (register { settings }).value.1 = none ∧
    (∀ n, r.Keeps (.integer n) "integer") ∧ (∀ bits, r.Keeps (.double bits) "double") ∧
    (∀ b, r.Keeps (.boolean b) "boolean") ∧
    (∀ s, (Text.toBytes s).length < 2 ^ 31 → r.Keeps (.string s) "string") ∧
    ∀ t, r.Keeps (.timespan t) "timespan" := by
  have hkeeps : ∀ {t}, t ∈ types → ∀ {s}, (described t).serializer = some s → ∀ {v : Value},
      v.kind = t.1 → s.Stores v t.2.1 → r.Keeps v t.2.1 := keeps_of_types hd hr
  refine ⟨?_, fun n => ?_, fun bits => ?_, fun b => ?_, fun s hs => ?_, fun t => ?_⟩
  · obtain ⟨patterns, -, hregister⟩ := register_empty settings
    rw [hregister]
  · exact hkeeps (List.getElem_mem (show 2 < types.length by decide)) rfl rfl
      (integerSerializer_stores n "integer")
  · exact hkeeps (List.getElem_mem (show 3 < types.length by decide)) rfl rfl
      (doubleSerializer_stores bits "double")
  · exact hkeeps (List.getElem_mem (show 4 < types.length by decide)) rfl rfl
      (booleanSerializer_stores b "boolean")
  · exact hkeeps (List.getElem_mem (show 5 < types.length by decide)) rfl rfl
      (stringSerializer_stores hs "string")
  · exact hkeeps (List.getElem_mem (show 6 < types.length by decide)) rfl rfl
      (timespanSerializer_stores t)

/-- A kind of integers, which stands in front of the integers. -/
def coinInfo : ClassInfo where
  kind := .host "coin"
  code := "coin"
  name := "coin"
  before := ["string"]
  serializer := some integerSerializer

/-- The draft in which coins are integers. -/
def withCoins (d : Draft) : Draft :=
  { d with hierarchy := ⟨d.hierarchy.declared ++ [(.host "coin", .integer)]⟩ }

theorem values_are_kept_coins :
    ∃ (d : Draft) (r : Registry), ReflTransGen Draft.Step (register { settings := {} }).value.2 d ∧
      r.BuiltFrom d ∧
      r.infos.map (·.code)
        = ["double", "boolean", "timespan", "coin", "integer", "number", "string", "object"] ∧
      r.Keeps (.integer 3) "integer" ∧ r.Keeps (.string "é") "string" := by
  obtain ⟨patterns, hcount, hregister⟩ := register_empty {}
  rcases patterns with _ | ⟨a, _ | ⟨b, _ | ⟨c, _ | ⟨d, _ | ⟨e, _ | ⟨f, _ | ⟨g, _ | _⟩⟩⟩⟩⟩⟩⟩ <;>
    cases hcount
  generalize hd₀ : draft {} [a, b, c, d, e, f, g] = d₀ at hregister
  have hdeclared : d₀.declareSubtype (.host "coin") .integer = .ok (withCoins d₀) := by
    rw [← hd₀]
    rfl
  have hregistered : ((withCoins d₀).register coinInfo).value
      = .ok { withCoins d₀ with infos := d₀.infos ++ [coinInfo] } := by
    rw [← hd₀]
    rfl
  have hsteps : ReflTransGen Draft.Step (register { settings := {} }).value.2
      { withCoins d₀ with infos := d₀.infos ++ [coinInfo] } := by
    rw [hregister]
    exact (ReflTransGen.single (.declareSubtype hdeclared)).tail (.register hregistered)
  have hsorted : { withCoins d₀ with infos := d₀.infos ++ [coinInfo] }.build.toOption.map
      (fun r : Registry => r.infos.map ClassInfo.code)
        = some ["double", "boolean", "timespan", "coin", "integer", "number", "string", "object"] := by
    rw [← hd₀]
    cbv
  obtain ⟨r, hbuild, hcodes⟩ : ∃ r,
      { withCoins d₀ with infos := d₀.infos ++ [coinInfo] }.build = .ok r ∧ r.infos.map (·.code)
        = ["double", "boolean", "timespan", "coin", "integer", "number", "string", "object"] := by
    cases hbuild : { withCoins d₀ with infos := d₀.infos ++ [coinInfo] }.build with
    | error e =>
        rw [hbuild] at hsorted
        cases hsorted
    | ok r =>
        rw [hbuild] at hsorted
        exact ⟨r, rfl, Option.some.inj hsorted⟩
  have hr : r.BuiltFrom { withCoins d₀ with infos := d₀.infos ++ [coinInfo] } := ⟨r, hbuild, rfl⟩
  obtain ⟨-, hintegers, -, -, hstrings, -⟩ := values_are_kept hsteps hr
  exact ⟨_, r, hsteps, hr, hcodes, hintegers 3, hstrings "é" (by decide)⟩

end Builtin

end ScriptStore.Types
