import ScriptStore.Proofs.Types.Hierarchy
import ScriptStore.Proofs.Types.Saving

/-!
# Registries that were built

A draft starts empty; infos that are made of attributes are registered in it, subtypes are declared
and converters added. Whatever registry is built from it, no two of its types have one code name, and
every code name can be written wherever variables are kept. So if its serializers are faithful, what
it saves can be loaded again, whether a type is saved as it is or as another one
(`Registry.Built.loadsAs`).
-/

namespace ScriptStore.Types

/-- The drafts that can be made. -/
inductive Draft.Made : Draft → Prop
  | start (settings : Settings) : Made { settings }
  | register {d d' : Draft} {kind : Kind} {code : String} {attributes : List Attribute}
      {info : ClassInfo} (h : Made d) (hinfo : ClassInfo.ofAttributes kind code attributes = .ok info)
      (hd' : (d.register info).value = .ok d') : Made d'
  | declareSubtype {d d' : Draft} {sub sup : Kind} (h : Made d)
      (hd' : d.declareSubtype sub sup = .ok d') : Made d'
  | addConverter {d : Draft} (h : Made d) (c : Converter) : Made (d.addConverter c)

/-- The registries that can be built. Their settings may be changed afterwards. -/
def Registry.Built (r : Registry) : Prop :=
  ∃ (d : Draft) (r₀ : Registry), d.Made ∧ d.build = .ok r₀ ∧ r = { r₀ with settings := r.settings }

/-- Whether a registry was built from a draft. -/
def Registry.BuiltFrom (r : Registry) (d : Draft) : Prop :=
  ∃ r₀, d.build = .ok r₀ ∧ r = { r₀ with settings := r.settings }

/-- Whether a registry saves some value so, under a code name that no deletion has. -/
def Registry.Makes (r : Registry) (saved : Saved) : Prop :=
  (∃ v, (r.serialize v).value = some saved) ∧ saved.code ≠ Storage.FlatFile.deletedType

theorem ClassInfo.isCode_of_ofAttributes {kind : Kind} {code : String} {attributes : List Attribute}
    {info : ClassInfo} (h : ofAttributes kind code attributes = .ok info) :
    isCode info.code = true := by
  have hlike : info.code = code :=
    (savesLike_of_ofAttributes (t := (kind, code, attributes)) h).code.trans
      (Builtin.code_described (kind, code, attributes))
  rw [hlike]
  cases hcode : isCode code with
  | true => rfl
  | false =>
    unfold ofAttributes at h
    rw [hcode] at h
    cases h

/-- All code names in a draft can be written wherever variables are kept. -/
theorem Draft.Made.coded {d : Draft} (h : d.Made) :
    ∀ info ∈ d.infos, isCode info.code = true ∧ info.code.utf8ByteSize ≤ maxCodeLength := by
  induction h with
  | start settings => exact fun info hinfo => absurd hinfo List.not_mem_nil
  | register h hinfo hd' ih =>
    intro other hother
    rcases Draft.register_eq_ok hd' other hother with hold | ⟨rfl, hlength⟩
    · exact ih other hold
    · exact ⟨ClassInfo.isCode_of_ofAttributes hinfo, hlength⟩
  | declareSubtype h hd' ih =>
    rw [Builtin.infos_declareSubtype hd']
    exact ih
  | addConverter h c ih => exact ih

/-- What is declared in a draft was declared one by one. -/
theorem Draft.Made.declared {d : Draft} (h : d.Made) : d.hierarchy.Declared := by
  induction h with
  | start settings => exact .empty
  | register _ _ hd' ih =>
    rcases Draft.register_cases hd' with rfl | ⟨-, -, rfl⟩
    · exact ih
    · exact ih
  | @declareSubtype d d' sub sup _ hd' ih =>
    rw [Draft.declareSubtype] at hd'
    cases hdeclare : d.hierarchy.declare sub sup with
    | error e => rw [hdeclare] at hd'; cases hd'
    | ok hierarchy =>
      rw [hdeclare] at hd'
      cases hd'
      exact .declare ih hdeclare
  | addConverter _ c ih => exact ih

theorem Registry.BuiltFrom.spec {r : Registry} {d : Draft} (h : r.BuiltFrom d) :
    r.hierarchy = d.hierarchy ∧ r.graph = .build d.hierarchy d.converters := by
  obtain ⟨r₀, hbuild, hr⟩ := h
  rw [hr]
  exact (Draft.build_spec hbuild).2

namespace Registry.Built

variable {r : Registry} (hr : r.Built)

include hr

theorem codes : (r.infos.map (·.code)).Nodup := by
  obtain ⟨d, r₀, _, hbuild, hr₀⟩ := hr
  rw [hr₀]
  exact (Draft.build_eq_ok hbuild).1

theorem coded {info : ClassInfo} (h : info ∈ r.infos) :
    isCode info.code = true ∧ info.code.utf8ByteSize ≤ maxCodeLength := by
  obtain ⟨d, r₀, hmade, hbuild, hr₀⟩ := hr
  rw [hr₀] at h
  exact hmade.coded info ((Draft.build_eq_ok hbuild).2.1 info h)

/-- What is saved has the code name of a type. -/
theorem coded_of_serialize {v : Value} {saved : Saved} (h : (r.serialize v).value = some saved) :
    isCode saved.code = true ∧ saved.code.utf8ByteSize ≤ maxCodeLength := by
  obtain ⟨p, hplan, e, _, _, hsaved⟩ := serialize_eq_some h
  obtain ⟨info, hmem, hinfo, -⟩ := exists_info_of_plan? hplan
  rw [hsaved, ← hinfo]
  exact hr.coded hmem

/-- **What is saved is loaded as the value that was encoded**, under any code name but the one that
stands for a deletion. -/
theorem loadsAs (hserializers : ∀ info ∈ r.infos, ∀ s ∈ info.serializer, s.Faithful) {v : Value}
    {saved : Saved} (h : (r.serialize v).value = some saved)
    (hcode : saved.code ≠ Storage.FlatFile.deletedType) :
    ∃ p, r.plan? v = some p ∧ r.LoadsAs saved p.value := by
  obtain ⟨p, hplan, -⟩ := serialize_eq_some h
  obtain ⟨info, hmem, -, hserializer⟩ := exists_info_of_plan? hplan
  obtain ⟨hisCode, hlength⟩ := hr.coded_of_serialize h
  exact ⟨p, hplan, hisCode, hlength, hcode,
    load_of_plan? hr.codes hplan (hserializers info hmem _ hserializer) h⟩

end Registry.Built

end ScriptStore.Types
