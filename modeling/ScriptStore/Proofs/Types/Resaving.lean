import ScriptStore.Proofs.Types.Saving

/-!
# Loaded values can be saved

A store may move a variable that it has loaded from one storage to another, for which the value has
to be saved. With built-in types this never fails (`Registry.OfBuiltin.serialize_of_load`): a value
that was loaded is of the kind of the type under whose code name it was found, the type that is
nearest to this kind is that same type, and its serializer encodes every value it can decode. Of all
built-in values only texts can be too long to be written, and those are not read either.
-/

namespace ScriptStore

namespace Types

open Codec (Encoded decodeStored encodeStored)

/-! ## Serializers -/

/-- Whether a serializer can store a value under a code name. -/
def Serializer.Stores (s : Serializer) (v : Value) (code : String) : Prop :=
  ∃ e data, s.encode v = .ok e ∧ encodeStored e s.shape code = .ok data

/-- Whatever a serializer decodes from stored bytes is of a kind, and can be stored again. -/
structure Serializer.Resaves (s : Serializer) (kind : Kind) (code : String) : Prop where
  kind : ∀ {e : Encoded} {v : Value}, s.decode e = .ok v → v.kind = kind
  encode : ∀ {data : Text.Bytes} {e : Encoded} {v : Value},
    decodeStored data s.shape code = .ok e → s.decode e = .ok v → s.Stores v code

namespace Builtin

theorem understand_eq_ok {α : Type} {part : Encoded → Option α} {e : Encoded} {a : α}
    (h : understand part e = .ok a) : part e = some a := by
  unfold understand at h
  split at h
  · next heq => cases h; exact heq
  · cases h

theorem scalarSerializer_stores {α : Type} {kind : Kind} {type : Codec.ScalarType}
    {ofValue? : Value → Option α} {toValue : α → Value} {write : α → Codec.Scalar}
    {read : Codec.Scalar → Option α} {v : Value} {a : α} (hvalue : ofValue? v = some a)
    (htype : (write a).type = type) (code : String) :
    (scalarSerializer kind type ofValue? toValue write read).Stores v code := by
  have hstored := Codec.encodeStored_boxed (write a) code
  rw [htype] at hstored
  refine ⟨.boxed (write a), (write a).bytes, ?_, hstored⟩
  simp only [scalarSerializer, require, hvalue, Except.map]

theorem integerSerializer_stores (n : Int64) (code : String) :
    integerSerializer.Stores (.integer n) code := by
  unfold integerSerializer
  apply scalarSerializer_stores <;> rfl

theorem doubleSerializer_stores (bits : Double) (code : String) :
    doubleSerializer.Stores (.double bits) code := by
  unfold doubleSerializer
  apply scalarSerializer_stores <;> rfl

theorem booleanSerializer_stores (b : Bool) (code : String) :
    booleanSerializer.Stores (.boolean b) code := by
  unfold booleanSerializer
  apply scalarSerializer_stores <;> rfl

theorem stringSerializer_stores {s : String} (h : (Text.toBytes s).length < Codec.lengthLimit)
    (code : String) : stringSerializer.Stores (.string s) code := by
  obtain ⟨data, hdata⟩ := Codec.encodeStored_string h code
  exact ⟨.string s, data, rfl, hdata⟩

theorem timespanSerializer_stores (t : Timespan) :
    timespanSerializer.Stores (.timespan t) "timespan" := by
  have hpool : Codec.Pool {"timespan", "millis"} := ⟨by decide, by decide⟩
  have hwithin : (Encoded.object "timespan" [.scalar "millis" (.long t.millis)]).Within :=
    ⟨show 1 ≤ Codec.maxFields by decide, trivial, trivial⟩
  obtain ⟨bytes, hbytes⟩ := Codec.encode_of_within hpool hwithin
    (show ∀ id ∈ ["timespan", "millis"], id ∈ ({"timespan", "millis"} : Finset String) by decide)
  have hfits : Codec.Shape.object.Fits "timespan"
      (.object "timespan" [.scalar "millis" (.long t.millis)]) := rfl
  obtain ⟨data, hdata⟩ := Codec.encodeStored_of_fits hbytes hfits
  exact ⟨_, data, rfl, hdata⟩

theorem scalarSerializer_resaves {α : Type} {kind : Kind} {type : Codec.ScalarType}
    {ofValue? : Value → Option α} {toValue : α → Value} {write : α → Codec.Scalar}
    {read : Codec.Scalar → Option α} (hkind : ∀ a, (toValue a).kind = kind)
    (hvalue : ∀ a, ofValue? (toValue a) = some a) (htype : ∀ a, (write a).type = type)
    (code : String) :
    (scalarSerializer kind type ofValue? toValue write read).Resaves kind code where
  kind hdecode := by
    obtain ⟨a, _, rfl⟩ := Codec.map_eq_ok hdecode
    exact hkind a
  encode _ hdecode := by
    obtain ⟨a, _, rfl⟩ := Codec.map_eq_ok hdecode
    exact scalarSerializer_stores (hvalue a) (htype a) code

theorem string_of_decode {e : Encoded} {v : Value} (h : stringSerializer.decode e = .ok v) :
    ∃ s, e = .string s ∧ v = .string s := by
  obtain ⟨s, hs, rfl⟩ := Codec.map_eq_ok h
  cases e <;> cases understand_eq_ok hs
  exact ⟨s, rfl, rfl⟩

/-- A text that was read is short enough to be written. -/
theorem stringSerializer_resaves (code : String) : stringSerializer.Resaves .string code where
  kind hdecode := by
    obtain ⟨s, _, rfl⟩ := string_of_decode hdecode
    rfl
  encode {data e v} hstored hdecode := by
    obtain ⟨s, rfl, rfl⟩ := string_of_decode hdecode
    have hbytes : Codec.decode
        (Codec.header Codec.currentVersion ++ [Codec.Tag.string.byte] ++ data) = .ok (.string s) :=
      hstored
    exact stringSerializer_stores (Codec.readFrom_of_decode hbytes).within code

theorem timespan_of_decode {e : Encoded} {v : Value} (h : timespanSerializer.decode e = .ok v) :
    ∃ t, v = .timespan t := by
  change (understand fields? e >>= fun fields => _) = _ at h
  cases hfields : understand fields? e with
  | error f => rw [hfields] at h; cases h
  | ok fields =>
    rw [hfields] at h
    change (Codec.Fields.integer fields "millis" >>= fun millis => _) = _ at h
    cases hmillis : Codec.Fields.integer fields "millis" with
    | error f => rw [hmillis] at h; cases h
    | ok millis =>
      rw [hmillis] at h
      cases h
      exact ⟨⟨millis⟩, rfl⟩

theorem timespanSerializer_resaves : timespanSerializer.Resaves .timespan "timespan" where
  kind hdecode := by
    obtain ⟨t, rfl⟩ := timespan_of_decode hdecode
    rfl
  encode _ hdecode := by
    obtain ⟨t, rfl⟩ := timespan_of_decode hdecode
    exact timespanSerializer_stores t

theorem integerSerializer_resaves (code : String) : integerSerializer.Resaves .integer code := by
  unfold integerSerializer
  refine scalarSerializer_resaves ?_ ?_ ?_ code <;> exact fun _ => rfl

theorem doubleSerializer_resaves (code : String) : doubleSerializer.Resaves .double code := by
  unfold doubleSerializer
  refine scalarSerializer_resaves ?_ ?_ ?_ code <;> exact fun _ => rfl

theorem booleanSerializer_resaves (code : String) : booleanSerializer.Resaves .boolean code := by
  unfold booleanSerializer
  refine scalarSerializer_resaves ?_ ?_ ?_ code <;> exact fun _ => rfl

theorem resaves_of_types : ∀ t ∈ types, ∀ s ∈ (described t).serializer, s.Resaves t.1 t.2.1 := by
  intro t ht
  simp only [types, List.mem_cons, List.not_mem_nil, or_false] at ht
  rcases ht with rfl | rfl | rfl | rfl | rfl | rfl | rfl
  · intro s hs
    cases hs
  · intro s hs
    cases hs
  · rintro s ⟨⟩
    exact integerSerializer_resaves _
  · rintro s ⟨⟩
    exact doubleSerializer_resaves _
  · rintro s ⟨⟩
    exact booleanSerializer_resaves _
  · rintro s ⟨⟩
    exact stringSerializer_resaves _
  · rintro s ⟨⟩
    exact timespanSerializer_resaves

end Builtin

/-! ## Registries -/

namespace Registry

variable {r : Registry}

/-- A type that is registered is the nearest one to its own kind: all others that cover it come
later. -/
theorem nearest?_eq
    (horder : r.infos.Pairwise fun a b => r.hierarchy.assignable a.kind b.kind = false)
    {info : ClassInfo} (h : info ∈ r.infos) : r.nearest? info.kind = some info := by
  have hself : r.hierarchy.assignable info.kind info.kind = true := r.hierarchy.assignable_self _
  unfold nearest?
  cases hfind : r.infos.find? fun other => r.hierarchy.assignable other.kind info.kind with
  | none => exact absurd hself (List.find?_eq_none.1 hfind info h)
  | some first =>
    obtain ⟨hcovers, before, later, hinfos, hbefore⟩ := List.find?_eq_some_iff_append.1 hfind
    rw [hinfos] at h
    rcases List.mem_append.1 h with h | h
    · have hnot := hbefore info h
      rw [hself] at hnot
      cases hnot
    · rcases List.mem_cons.1 h with rfl | h
      · rfl
      · -- the first type that covers the kind would stand before one of its subtypes
        rw [hinfos] at horder
        have hlater := (List.pairwise_cons.1 (List.pairwise_append.1 horder).2.1).1 info h
        rw [hcovers] at hlater
        cases hlater

/-- A value of a registered type that is saved as it is will be saved by the serializer of that
type. -/
theorem plan?_eq
    (horder : r.infos.Pairwise fun a b => r.hierarchy.assignable a.kind b.kind = false)
    {info : ClassInfo} (h : info ∈ r.infos) (hself : info.serializeAs = none) {s : Serializer}
    (hs : info.serializer = some s) {v : Value} (hv : v.kind = info.kind) :
    r.plan? v = some ⟨info.code, s, v⟩ := by
  rw [plan?, hv, nearest?_eq horder h]
  dsimp only [bind, Option.bind]
  rw [hself, hs]
  rfl

/-- **What was loaded can be saved again.** -/
theorem OfBuiltin.serialize_of_load (hr : r.OfBuiltin) {saved : Saved} {v : Value}
    (h : (r.load saved).value = some v) : ∃ saved', (r.serialize v).value = some saved' := by
  unfold load deserialize at h
  cases hinfo : r.info? saved.code with
  | none => rw [hinfo] at h; cases h
  | some info =>
    rw [hinfo] at h
    dsimp only at h
    cases hs : info.serializer with
    | none => rw [hs] at h; cases h
    | some s =>
      rw [hs] at h
      dsimp only at h
      cases hdecode : decodeStored saved.data s.shape info.code >>= s.decode with
      | error e => rw [hdecode] at h; cases h
      | ok w =>
        rw [hdecode] at h
        obtain rfl : w = v := Option.some.inj h
        have hmem : info ∈ r.infos := List.mem_of_find?_eq_some hinfo
        obtain ⟨t, ht, hlike⟩ := hr.infos info hmem
        have hkind := hlike.kind.trans (Builtin.kind_described t)
        have hcode := hlike.code.trans (Builtin.code_described t)
        have hresaves : s.Resaves info.kind info.code := by
          rw [hkind, hcode]
          exact Builtin.resaves_of_types t ht s (hlike.serializer ▸ hs)
        cases hstored : decodeStored saved.data s.shape info.code with
        | error e => rw [hstored] at hdecode; cases hdecode
        | ok e =>
          rw [hstored] at hdecode
          have hvalue := hresaves.kind hdecode
          obtain ⟨e', data, hencode, hdata⟩ := hresaves.encode hstored hdecode
          -- the info that loads a value is the one that is found for saving it
          have hplan : r.plan? w = some ⟨info.code, s, w⟩ :=
            plan?_eq hr.order hmem (hr.faithful.infos info hmem).serializeAs hs hvalue
          refine ⟨⟨info.code, data⟩, ?_⟩
          rw [serialize, hplan]
          exact Plan.value_save.2 ⟨e', hencode, hdata, rfl⟩

end Registry

end Types

end ScriptStore
