import ScriptStore.Proofs.Codec.Stored
import ScriptStore.Proofs.Storage.Work
import ScriptStore.Storage.FlatFile
import ScriptStore.Types.Builtin

/-!
# Saved values are loaded back

A serializer is faithful if whatever it encodes is decoded to the value that was encoded. A registry
is faithful if all its types are saved by faithful serializers of their own. What such a registry
saves it also loads (`Registry.Faithful.loadsAs`). Registries of built-in types are faithful
(`Registry.OfBuiltin.faithful`), and the one that has all of them is such a registry
(`Builtin.ofBuiltin_of_build`).
-/

namespace ScriptStore

namespace Types

/-! ## Faithful registries -/

/-- Whatever is encoded is decoded to the value that was encoded. -/
structure Serializer.Faithful (s : Serializer) : Prop where
  distinctFields : ∀ {v e}, s.encode v = .ok e → e.DistinctFields
  decode_of_encode : ∀ {v e}, s.encode v = .ok e → s.decode e = .ok v

/-- The values of a type are saved by a faithful serializer if they are saved at all, and the code
name can stand wherever one has to be written. -/
structure ClassInfo.Faithful (info : ClassInfo) : Prop where
  isCode : isCode info.code = true
  length_le : info.code.utf8ByteSize ≤ maxCodeLength
  unreserved : info.code ≠ Storage.FlatFile.deletedType
  serializeAs : info.serializeAs = none
  serializer : ∀ s ∈ info.serializer, s.Faithful

/-- All types are saved faithfully, each under a code name of its own. -/
structure Registry.Faithful (r : Registry) : Prop where
  codes : (r.infos.map (·.code)).Nodup
  infos : ∀ info ∈ r.infos, info.Faithful

namespace Registry

variable {r : Registry}

/-- Where code names are different, each leads to its own info. -/
theorem info?_eq (hcodes : (r.infos.map (·.code)).Nodup) {info : ClassInfo} (h : info ∈ r.infos) :
    r.info? info.code = some info := by
  unfold info?
  cases hfind : r.infos.find? fun other => other.code == info.code with
  | none => exact absurd (BEq.refl info.code) (List.find?_eq_none.1 hfind info h)
  | some other =>
    have hcode : other.code = info.code := by simpa using List.find?_some hfind
    have hother := List.mem_of_find?_eq_some hfind
    rw [List.inj_on_of_nodup_map hcodes hother h hcode]

/-- A plan saves the bytes of its value under its code name. -/
theorem Plan.value_save {p : Plan} {saved : Saved} :
    p.save.value = some saved ↔ ∃ e, p.serializer.encode p.value = .ok e ∧
      Codec.encodeStored e p.serializer.shape p.code = .ok saved.data ∧ saved.code = p.code := by
  unfold Plan.save
  constructor
  · intro h
    cases he : p.serializer.encode p.value with
    | error e => rw [he] at h; cases h
    | ok e =>
      rw [he] at h
      dsimp only [bind, Except.bind] at h
      split at h
      · next data hdata =>
          cases h
          exact ⟨e, rfl, hdata, rfl⟩
      · cases h
  · rintro ⟨e, he, hdata, hcode⟩
    rw [he]
    dsimp only [bind, Except.bind]
    rw [hdata, ← hcode]
    rfl

/-- A value is saved as planned. -/
theorem serialize_eq_some {v : Value} {saved : Saved} (h : (r.serialize v).value = some saved) :
    ∃ p, r.plan? v = some p ∧ ∃ e, p.serializer.encode p.value = .ok e ∧
      Codec.encodeStored e p.serializer.shape p.code = .ok saved.data ∧ saved.code = p.code := by
  unfold serialize at h
  cases hplan : r.plan? v with
  | none => rw [hplan] at h; cases h
  | some p =>
    rw [hplan] at h
    exact ⟨p, rfl, Plan.value_save.1 h⟩

/-- A plan takes code name and serializer from one of the types. -/
theorem exists_info_of_plan? {v : Value} {p : Plan} (h : r.plan? v = some p) :
    ∃ info ∈ r.infos, info.code = p.code ∧ info.serializer = some p.serializer := by
  unfold plan? at h
  obtain ⟨info, hinfo, h⟩ := Option.bind_eq_some_iff.1 h
  cases hredirect : info.serializeAs with
  | none =>
    rw [hredirect] at h
    obtain ⟨s, hs, h⟩ := Option.bind_eq_some_iff.1 h
    cases h
    exact ⟨info, List.mem_of_find?_eq_some hinfo, rfl, hs⟩
  | some target =>
    rw [hredirect] at h
    obtain ⟨other, hother, h⟩ := Option.bind_eq_some_iff.1 h
    obtain ⟨w, _, h⟩ := Option.bind_eq_some_iff.1 h
    obtain ⟨s, hs, h⟩ := Option.bind_eq_some_iff.1 h
    cases h
    exact ⟨other, List.mem_of_find?_eq_some hother, rfl, hs⟩

/-- **What was saved as planned is loaded as the value that was planned to be encoded**, if the
serializer is faithful. -/
theorem load_of_plan? (hcodes : (r.infos.map (·.code)).Nodup) {v : Value} {p : Plan}
    (hplan : r.plan? v = some p) (hp : p.serializer.Faithful) {saved : Saved}
    (h : (r.serialize v).value = some saved) : (r.load saved).value = some p.value := by
  obtain ⟨p', hplan', e, he, hdata, hcode⟩ := serialize_eq_some h
  obtain rfl : p' = p := Option.some.inj (hplan'.symm.trans hplan)
  obtain ⟨info, hmem, hinfo, hserializer⟩ := exists_info_of_plan? hplan
  have hstored := Codec.decodeStored_of_encodeStored (hp.distinctFields he) hdata
  have hdecode : (Codec.decodeStored saved.data p'.serializer.shape info.code
      >>= p'.serializer.decode) = .ok p'.value := by
    rw [hinfo, hstored]
    exact hp.decode_of_encode he
  rw [load, deserialize, hcode, ← hinfo, info?_eq hcodes hmem]
  simp only [hserializer]
  rw [hdecode]
  rfl

/-- Whether this is what is saved for a variable that has a value now, or none any more. -/
def Writes (r : Registry) : Option Value → Option Saved → Prop
  | some v, some saved => (r.serialize v).value = some saved
  | none, none => True
  | _, _ => False

/-- Whether a saved value can be written wherever variables are kept, and is loaded as `v`. -/
structure LoadsAs (r : Registry) (saved : Saved) (v : Value) : Prop where
  isCode : isCode saved.code = true
  length_le : saved.code.utf8ByteSize ≤ maxCodeLength
  unreserved : saved.code ≠ Storage.FlatFile.deletedType
  load : (r.load saved).value = some v

/-- Whether what is saved for a variable is loaded as the value that it has, if it has any. -/
def Recovers (r : Registry) : Option Value → Option Saved → Prop
  | some v, some saved => r.LoadsAs saved v
  | none, none => True
  | _, _ => False

/-- In a faithful registry values are planned to be saved themselves. -/
theorem Faithful.value_of_plan? (hr : r.Faithful) {v : Value} {p : Plan} (h : r.plan? v = some p) :
    p.value = v := by
  unfold plan? at h
  obtain ⟨info, hinfo, h⟩ := Option.bind_eq_some_iff.1 h
  rw [(hr.infos info (List.mem_of_find?_eq_some hinfo)).serializeAs] at h
  obtain ⟨s, _, h⟩ := Option.bind_eq_some_iff.1 h
  cases h
  rfl

/-- **What is saved can be loaded, and is the same then.** -/
theorem Faithful.loadsAs (hr : r.Faithful) {v : Value} {saved : Saved}
    (h : (r.serialize v).value = some saved) : r.LoadsAs saved v := by
  obtain ⟨p, hplan, e, _, _, hcode⟩ := serialize_eq_some h
  obtain ⟨info, hmem, hinfo, hserializer⟩ := exists_info_of_plan? hplan
  have hfaithful := hr.infos info hmem
  rw [← hinfo] at hcode
  refine ⟨hcode ▸ hfaithful.isCode, hcode ▸ hfaithful.length_le, hcode ▸ hfaithful.unreserved, ?_⟩
  rw [load_of_plan? hr.codes hplan (hfaithful.serializer _ hserializer) h, hr.value_of_plan? hplan]

theorem Faithful.recovers (hr : r.Faithful) {v : Option Value} {saved : Option Saved}
    (h : r.Writes v saved) : r.Recovers v saved := by
  cases v with
  | none =>
    cases saved with
    | none => trivial
    | some saved => exact h.elim
  | some v =>
    cases saved with
    | none => exact h.elim
    | some saved => exact hr.loadsAs h

/-- What is recovered is loaded. -/
theorem Recovers.load_eq {v : Option Value} {saved : Option Saved} (h : r.Recovers v saved) :
    (saved.bind fun saved => (r.load saved).value) = v := by
  cases v with
  | none =>
    cases saved with
    | none => rfl
    | some saved => exact h.elim
  | some v =>
    cases saved with
    | none => exact h.elim
    | some saved => exact h.load

end Registry

/-! ## The built-in types -/

theorem ClassInfo.foldl_withAttribute (attributes : List Attribute) (info : ClassInfo) :
    (attributes.foldl withAttribute info).kind = info.kind ∧
      (attributes.foldl withAttribute info).code = info.code := by
  induction attributes generalizing info with
  | nil => exact ⟨rfl, rfl⟩
  | cons a rest ih =>
    obtain ⟨hkind, hcode⟩ := ih (info.withAttribute a)
    rw [List.foldl_cons, hkind, hcode]
    cases a <;> exact ⟨rfl, rfl⟩

/-- What is described of a built-in type, apart from what users may write for it. -/
def Builtin.described (t : Kind × String × List Attribute) : ClassInfo :=
  t.2.2.foldl ClassInfo.withAttribute { kind := t.1, code := t.2.1, name := t.2.1 }

/-- Whether an info says of how values are saved what another one does. -/
structure ClassInfo.SavesLike (info other : ClassInfo) : Prop where
  kind : info.kind = other.kind
  code : info.code = other.code
  serializer : info.serializer = other.serializer
  serializeAs : info.serializeAs = other.serializeAs

/-- An info is what its attributes describe, with the patterns that were read. -/
theorem ClassInfo.eq_described {t : Kind × String × List Attribute} {info : ClassInfo}
    (h : ofAttributes t.1 t.2.1 t.2.2 = .ok info) :
    info = { Builtin.described t with patterns := info.patterns } := by
  unfold ofAttributes at h
  cases hcode : ScriptStore.Types.isCode t.2.1 with
  | false => rw [hcode] at h; cases h
  | true =>
    rw [hcode] at h
    cases hrepeated : firstRepeated? [] t.2.2 with
    | some what => rw [hrepeated] at h; cases h
    | none =>
      rw [hrepeated] at h
      simp only [Bool.not_true, Bool.false_eq_true, if_false] at h
      change (if _ then _ else _ : Except Error ClassInfo) = _ at h
      split at h
      · cases h
      · generalize ((userPatterns t.2.2).mapM _ : Except Error (List Pattern)) = patterns at h
        cases patterns with
        | error e => cases h
        | ok patterns =>
          cases h
          rfl

/-- What attributes say of how values are saved is taken over. -/
theorem ClassInfo.savesLike_of_ofAttributes {t : Kind × String × List Attribute} {info : ClassInfo}
    (h : ofAttributes t.1 t.2.1 t.2.2 = .ok info) : info.SavesLike (Builtin.described t) := by
  rw [eq_described h]
  exact ⟨rfl, rfl, rfl, rfl⟩

/-- Placing infos leaves no two of one code name, makes none up, and lets none stand before one that
it waits for. -/
theorem ClassOrder.place_spec (h : Hierarchy) (fuel : Nat) (rest : List ClassInfo) :
    ((place h fuel rest).1.map (·.code)).Nodup ∧ (∀ info ∈ (place h fuel rest).1, info ∈ rest) ∧
      (place h fuel rest).1.Pairwise fun a b => a.waitsFor h b = false := by
  induction fuel generalizing rest with
  | zero => simp [place]
  | succ fuel ih =>
    rw [place]
    split
    · simp
    · next info hfind =>
        obtain ⟨hcodes, hmem, hwaits⟩ := ih (rest.filter fun other => other.code != info.code)
        refine ⟨?_, fun other hother => ?_, List.pairwise_cons.2 ⟨fun other hother => ?_, hwaits⟩⟩
        · rw [List.map_cons, List.nodup_cons]
          refine ⟨fun hin => ?_, hcodes⟩
          obtain ⟨other, hother, hcode⟩ := List.mem_map.1 hin
          simpa [hcode] using (List.mem_filter.1 (hmem other hother)).2
        · rcases List.mem_cons.1 hother with rfl | hother
          · exact List.mem_of_find?_eq_some hfind
          · exact List.mem_of_mem_filter (hmem other hother)
        · -- the info that was placed waits for none of those still to be placed
          have hready : awaited h rest info = [] := by simpa using List.find?_some hfind
          have hnot := List.filter_eq_nil_iff.1 hready other
            (List.mem_of_mem_filter (hmem other hother))
          exact Bool.eq_false_iff.2 hnot

/-- A registry has the infos of its draft in order, its hierarchy, and the graph of its converters. -/
theorem Draft.build_spec {d : Draft} {r : Registry} (h : d.build = .ok r) :
    ClassOrder.sort d.hierarchy d.infos = .ok r.infos ∧ r.hierarchy = d.hierarchy ∧
      r.graph = .build d.hierarchy d.converters := by
  unfold build at h
  cases hsort : ClassOrder.sort d.hierarchy d.infos with
  | error e => rw [hsort] at h; cases h
  | ok infos =>
    rw [hsort] at h
    dsimp only [bind, Except.bind] at h
    split at h
    · cases h
    · cases h
      exact ⟨rfl, rfl, rfl⟩

/-- The infos of a registry are those that were registered, each after those of its subtypes. -/
theorem Draft.build_eq_ok {d : Draft} {r : Registry} (h : d.build = .ok r) :
    (r.infos.map (·.code)).Nodup ∧ (∀ info ∈ r.infos, info ∈ d.infos) ∧
      r.infos.Pairwise fun a b => r.hierarchy.assignable a.kind b.kind = false := by
  obtain ⟨hsort, hhierarchy, -⟩ := build_spec h
  obtain ⟨hcodes, hmem, hwaits⟩ := ClassOrder.place_spec d.hierarchy d.infos.length d.infos
  rw [ClassOrder.sort] at hsort
  split at hsort
  · next placed hplaced =>
      rw [hplaced] at hcodes hmem hwaits
      rw [← Except.ok.inj hsort, hhierarchy]
      refine ⟨hcodes, hmem, (hwaits.and (List.pairwise_map.1 hcodes)).imp ?_⟩
      intro a b hab
      have hne : (a.code != b.code) = true := bne_iff_ne.2 hab.2
      have hwait := hab.1
      rw [ClassInfo.waitsFor, hne, Bool.true_and] at hwait
      exact (Bool.or_eq_false_iff.1 hwait).2
  · cases hsort

/-- An info is new if none of the others has its code name or its kind. -/
theorem Draft.duplicate?_eq_none {d : Draft} {info : ClassInfo} :
    d.duplicate? info = none ↔ ∀ other ∈ d.infos, other.code ≠ info.code ∧ other.kind ≠ info.kind := by
  unfold duplicate?
  constructor
  · intro h other hother
    split at h
    · cases h
    · next hcode =>
        split at h
        · cases h
        · next hkind =>
            refine ⟨fun heq => List.find?_eq_none.1 hcode other hother (beq_iff_eq.2 heq), fun heq => ?_⟩
            exact hkind (List.any_eq_true.2 ⟨other, hother, beq_iff_eq.2 heq⟩)
  · intro h
    have hcode : (d.infos.find? fun other => other.code == info.code) = none :=
      List.find?_eq_none.2 fun other hother heq => (h other hother).1 (beq_iff_eq.1 heq)
    have hkind : (d.infos.any fun other => other.kind == info.kind) = false :=
      List.any_eq_false.2 fun other hother heq => (h other hother).2 (beq_iff_eq.1 heq)
    rw [hcode, hkind]
    rfl

/-- An info is ignored, or it is put behind the others, none of which has its code name or its
kind. -/
theorem Draft.register_cases {d d' : Draft} {info : ClassInfo}
    (h : (d.register info).value = .ok d') :
    d' = d ∨ d.duplicate? info = none ∧ info.code.utf8ByteSize ≤ maxCodeLength ∧
      d' = { d with infos := d.infos ++ [info] } := by
  unfold register at h
  split at h
  · split at h
    · cases h
    · cases h
      exact .inl rfl
  · next hnew =>
      split at h
      · cases h
      · next hlength =>
          cases h
          exact .inr ⟨hnew, Nat.not_lt.1 hlength, rfl⟩

theorem Draft.register_eq_ok {d d' : Draft} {info : ClassInfo}
    (h : (d.register info).value = .ok d') :
    ∀ other ∈ d'.infos, other ∈ d.infos ∨
      other = info ∧ info.code.utf8ByteSize ≤ maxCodeLength := by
  intro other hother
  rcases register_cases h with rfl | ⟨-, hlength, rfl⟩
  · exact .inl hother
  · rcases List.mem_append.1 hother with hother | hother
    · exact .inl hother
    · exact .inr ⟨List.mem_singleton.1 hother, hlength⟩

namespace Builtin

theorem mem_of_registerAll (types : List (Kind × String × List Attribute)) (d : Draft)
    {info : ClassInfo} (h : info ∈ (registerAll d types).value.2.infos) :
    info ∈ d.infos ∨ ∃ t ∈ types, ClassInfo.ofAttributes t.1 t.2.1 t.2.2 = .ok info := by
  induction types generalizing d with
  | nil => exact .inl h
  | cons t rest ih =>
    obtain ⟨kind, code, attributes⟩ := t
    rw [registerAll] at h
    cases hinfo : ClassInfo.ofAttributes kind code attributes with
    | error e => rw [hinfo] at h; exact .inl h
    | ok one =>
      rw [hinfo] at h
      dsimp only at h
      rw [Logged.value_bind] at h
      cases hd : (d.register one).value with
      | error e => rw [hd] at h; exact .inl h
      | ok d' =>
        rw [hd] at h
        rcases ih d' h with h | ⟨t, ht, hok⟩
        · rcases Draft.register_eq_ok hd info h with h | ⟨rfl, -⟩
          · exact .inl h
          · exact .inr ⟨_, .head _, hinfo⟩
        · exact .inr ⟨t, .tail _ ht, hok⟩

theorem infos_declareSubtype {d d' : Draft} {sub sup : Kind} (h : d.declareSubtype sub sup = .ok d') :
    d'.infos = d.infos := by
  unfold Draft.declareSubtype at h
  cases hdeclare : d.hierarchy.declare sub sup with
  | error e => rw [hdeclare] at h; cases h
  | ok hierarchy => rw [hdeclare] at h; cases h; rfl

theorem mem_of_register {d : Draft} {info : ClassInfo} (h : info ∈ (register d).value.2.infos) :
    info ∈ d.infos ∨ ∃ t ∈ types, ClassInfo.ofAttributes t.1 t.2.1 t.2.2 = .ok info := by
  unfold register at h
  split at h
  · exact .inl h
  · next d₁ h₁ =>
      split at h
      · exact .inl (infos_declareSubtype h₁ ▸ h)
      · next d₂ h₂ =>
          rw [← infos_declareSubtype h₁, ← infos_declareSubtype h₂]
          apply mem_of_registerAll types d₂
          rw [Logged.value_bind] at h
          split at h
          · next heq => rw [heq]; exact h
          · next heq => rw [heq]; exact h

/-! ### The serializers -/

theorem require_eq_ok {α : Type} {expected : Kind} {part : Value → Option α} {v : Value} {a : α}
    (h : require expected part v = .ok a) : part v = some a := by
  unfold require at h
  split at h
  · next heq => cases h; exact heq
  · cases h

theorem scalarSerializer_faithful {α : Type} {kind : Kind} {type : Codec.ScalarType}
    {ofValue? : Value → Option α} {toValue : α → Value} {write : α → Codec.Scalar}
    {read : Codec.Scalar → Option α} (hvalue : ∀ v a, ofValue? v = some a → toValue a = v)
    (hread : ∀ a, read (write a) = some a) :
    (scalarSerializer kind type ofValue? toValue write read).Faithful where
  distinctFields h := by
    obtain ⟨a, _, rfl⟩ := Codec.map_eq_ok h
    trivial
  decode_of_encode h := by
    obtain ⟨a, ha, rfl⟩ := Codec.map_eq_ok h
    rw [← hvalue _ a (require_eq_ok ha)]
    simp [scalarSerializer, understand, boxed?, hread, Except.map]

theorem integerSerializer_faithful : integerSerializer.Faithful :=
  scalarSerializer_faithful (by rintro (_ | _) _ ⟨⟩; rfl) fun _ => rfl

theorem stringSerializer_faithful : stringSerializer.Faithful where
  distinctFields h := by
    obtain ⟨s, _, rfl⟩ := Codec.map_eq_ok h
    trivial
  decode_of_encode {v _} h := by
    obtain ⟨s, hs, rfl⟩ := Codec.map_eq_ok h
    cases v <;> cases require_eq_ok hs
    rfl

theorem timespanSerializer_faithful : timespanSerializer.Faithful where
  distinctFields h := by
    obtain ⟨t, _, rfl⟩ := Codec.map_eq_ok h
    exact ⟨List.nodup_singleton _, trivial, trivial⟩
  decode_of_encode {v _} h := by
    obtain ⟨t, ht, rfl⟩ := Codec.map_eq_ok h
    cases v <;> cases require_eq_ok ht
    rfl

theorem codes_of_types : ∀ t ∈ types, isCode t.2.1 = true ∧ t.2.1.utf8ByteSize ≤ maxCodeLength ∧
    t.2.1 ≠ Storage.FlatFile.deletedType := by decide

theorem code_described (t : Kind × String × List Attribute) : (described t).code = t.2.1 :=
  (ClassInfo.foldl_withAttribute t.2.2 _).2

theorem kind_described (t : Kind × String × List Attribute) : (described t).kind = t.1 :=
  (ClassInfo.foldl_withAttribute t.2.2 _).1

theorem serializers_of_types : ∀ t ∈ types, (described t).serializeAs = none ∧
    ∀ s ∈ (described t).serializer, s.Faithful := by
  intro t ht
  simp only [types, List.mem_cons, List.not_mem_nil, or_false] at ht
  rcases ht with rfl | rfl | rfl | rfl | rfl | rfl | rfl
  · exact ⟨rfl, nofun⟩
  · exact ⟨rfl, nofun⟩
  · refine ⟨rfl, ?_⟩
    rintro s ⟨⟩
    exact integerSerializer_faithful
  · refine ⟨rfl, ?_⟩
    rintro s ⟨⟩
    exact scalarSerializer_faithful (by rintro (_ | _) _ ⟨⟩; rfl) fun _ => rfl
  · refine ⟨rfl, ?_⟩
    rintro s ⟨⟩
    exact scalarSerializer_faithful (by rintro (_ | _) _ ⟨⟩; rfl) fun _ => rfl
  · refine ⟨rfl, ?_⟩
    rintro s ⟨⟩
    exact stringSerializer_faithful
  · refine ⟨rfl, ?_⟩
    rintro s ⟨⟩
    exact timespanSerializer_faithful

end Builtin

/-- Whether a registry has built-in types only, saved the way they are, and each of them after its
subtypes. -/
structure Registry.OfBuiltin (r : Registry) : Prop where
  codes : (r.infos.map (·.code)).Nodup
  infos : ∀ info ∈ r.infos, ∃ t ∈ Builtin.types, info.SavesLike (Builtin.described t)
  order : r.infos.Pairwise fun a b => r.hierarchy.assignable a.kind b.kind = false

theorem Registry.OfBuiltin.faithful {r : Registry} (h : r.OfBuiltin) : r.Faithful := by
  refine ⟨h.codes, fun info hinfo => ?_⟩
  obtain ⟨t, ht, hlike⟩ := h.infos info hinfo
  obtain ⟨hcode, hlength, hreserved⟩ := Builtin.codes_of_types t ht
  obtain ⟨hserializeAs, hserializer⟩ := Builtin.serializers_of_types t ht
  have hinfo : info.code = t.2.1 := hlike.code.trans (Builtin.code_described t)
  exact ⟨hinfo ▸ hcode, hinfo ▸ hlength, hinfo ▸ hreserved, hlike.serializeAs.trans hserializeAs,
    hlike.serializer ▸ hserializer⟩

namespace Builtin

/-- **The registry in which the built-in types are registered is one of built-in types.** -/
theorem ofBuiltin_of_build {settings : Settings} {r : Registry}
    (h : (register { settings }).value.2.build = .ok r) : r.OfBuiltin := by
  obtain ⟨hcodes, hmem, horder⟩ := Draft.build_eq_ok h
  refine ⟨hcodes, fun info hinfo => ?_, horder⟩
  rcases mem_of_register (hmem info hinfo) with hnone | ⟨t, ht, hok⟩
  · cases hnone
  · exact ⟨t, ht, ClassInfo.savesLike_of_ofAttributes hok⟩

/-- The built-in types in a registry that knows none of the words users have for them. -/
def wordless : Registry :=
  let hierarchy : Hierarchy := ⟨[(.integer, .number), (.double, .number)]⟩
  { settings := {}, hierarchy, infos := types.reverse.map described,
    graph := .build hierarchy [toDouble] }

theorem ofBuiltin_wordless : wordless.OfBuiltin where
  codes := by decide
  infos := by
    intro info hinfo
    obtain ⟨t, ht, rfl⟩ := List.mem_map.1 hinfo
    exact ⟨t, List.mem_reverse.1 ht, rfl, rfl, rfl, rfl⟩
  order := by decide

end Builtin

end Types

end ScriptStore
