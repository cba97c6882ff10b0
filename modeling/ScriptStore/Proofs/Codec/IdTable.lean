import ScriptStore.Proofs.Codec.Reading

/-!
# The table of shared ids

Writing a value adds to the table those of its ids that are new and long enough to be referred to.
The table only ever grows at its end, holds no id twice, and holds nothing but ids of what was
written, so it has no more entries than the value has different ids. That bound is what the four
bytes of a reference in version 1 rely on.

The inversion lemmas say once what it takes to write each kind of value.
-/

namespace ScriptStore.Codec

open Text (Bytes)

/-! ## The ids of a value -/

def Component.ids : Component → List String
  | .enum id | .object id => [id]
  | .array c => c.ids
  | _ => []

mutual

/-- The ids in a value: of types, constants and fields. -/
def Encoded.ids : Encoded → List String
  | .array c vs => c.ids ++ Encoded.idsOfAll vs
  | .enum t i => [t, i]
  | .typeLiteral c => c.ids
  | .object t fs => t :: Field.idsOfAll fs
  | _ => []

def Encoded.idsOfAll : List Encoded → List String
  | [] => []
  | v :: rest => v.ids ++ Encoded.idsOfAll rest

def Field.ids : Field → List String
  | .scalar i _ => [i]
  | .value i v => i :: v.ids

def Field.idsOfAll : List Field → List String
  | [] => []
  | f :: rest => f.ids ++ Field.idsOfAll rest

end

/-! ## Inversion of writing -/

section Inversion

variable {version : Nat} {ids ids' : List String} {bytes : Bytes}

/-- What two parts are written as, one after the other. -/
theorem bind_bind_eq_ok {x y : Write Bytes} {f : Bytes → Bytes → Bytes}
    (h : (x >>= fun b₁ => y >>= fun b₂ => pure (f b₁ b₂)) ids = .ok (bytes, ids')) :
    ∃ b₁ ids₁ b₂, x ids = .ok (b₁, ids₁) ∧ y ids₁ = .ok (b₂, ids') ∧ bytes = f b₁ b₂ := by
  obtain ⟨b₁, ids₁, h₁, hnext⟩ := bind_eq_ok h
  obtain ⟨b₂, ids₂, h₂, hlast⟩ := bind_eq_ok hnext
  cases pure_eq_ok hlast
  exact ⟨b₁, ids₁, b₂, h₁, h₂, rfl⟩

theorem writeLength_eq_ok {n : Nat} (h : writeLength n ids = .ok (bytes, ids')) :
    lengthBytes n = .ok bytes ∧ ids' = ids := by
  obtain ⟨b, hb, heq⟩ := map_eq_ok h
  cases heq
  exact ⟨hb, rfl⟩

theorem write_string {s : String} (h : (Encoded.string s).write version ids = .ok (bytes, ids')) :
    ∃ b, lengthBytes (Text.toBytes s).length = .ok b ∧
      bytes = Tag.string.byte :: (b ++ Text.toBytes s) ∧ ids' = ids := by
  rw [Encoded.write] at h
  obtain ⟨b, ids₁, hb, hlast⟩ := bind_eq_ok h
  obtain ⟨hlen, rfl⟩ := writeLength_eq_ok hb
  cases pure_eq_ok hlast
  exact ⟨b, hlen, rfl, rfl⟩

theorem write_enum {t i : String} (h : (Encoded.enum t i).write version ids = .ok (bytes, ids')) :
    ∃ b₁ ids₁ b₂, writeId version t ids = .ok (b₁, ids₁) ∧ writeId version i ids₁ = .ok (b₂, ids') ∧
      bytes = Tag.enum.byte :: (b₁ ++ b₂) := by
  rw [Encoded.write] at h
  exact bind_bind_eq_ok h

theorem write_typeLiteral {c : Component}
    (h : (Encoded.typeLiteral c).write version ids = .ok (bytes, ids')) :
    ∃ b, c.write version ids = .ok (b, ids') ∧ bytes = Tag.typeLiteral.byte :: b := by
  rw [Encoded.write] at h
  obtain ⟨b, ids₁, h₁, hlast⟩ := bind_eq_ok h
  cases pure_eq_ok hlast
  exact ⟨b, h₁, rfl⟩

theorem write_object {t : String} {fs : List Field}
    (h : (Encoded.object t fs).write version ids = .ok (bytes, ids')) :
    fs.length ≤ maxFields ∧ ∃ b₁ ids₁ b₂, writeId version t ids = .ok (b₁, ids₁) ∧
      Field.writeAll version fs ids₁ = .ok (b₂, ids') ∧
      bytes = Tag.object.byte :: (b₁ ++ countBytes fs.length ++ b₂) := by
  rw [Encoded.write] at h
  by_cases hlen : maxFields < fs.length
  · rw [if_pos hlen] at h; cases h
  · rw [if_neg hlen] at h
    exact ⟨Nat.le_of_not_lt hlen, bind_bind_eq_ok h⟩

/-- The elements of an array of scalars are written bare, those of any other array as values. -/
theorem write_array {c : Component} {vs : List Encoded}
    (h : (Encoded.array c vs).write version ids = .ok (bytes, ids')) :
    ∃ b₁ ids₁ b₂ b₃, c.write version ids = .ok (b₁, ids₁) ∧ lengthBytes vs.length = .ok b₂ ∧
      bytes = Tag.array.byte :: (b₁ ++ b₂ ++ b₃) ∧
      ((∃ t, c = .scalar t ∧ writeScalars t vs = .ok b₃ ∧ ids' = ids₁) ∨
        (∀ t, c ≠ .scalar t) ∧ Encoded.writeAll version vs ids₁ = .ok (b₃, ids')) := by
  rw [Encoded.write] at h
  obtain ⟨b₁, ids₁, h₁, hnext⟩ := bind_eq_ok h
  obtain ⟨b₂, ids₂, h₂, hels⟩ := bind_eq_ok hnext
  obtain ⟨hlen, rfl⟩ := writeLength_eq_ok h₂
  cases c with
  | scalar t =>
    obtain ⟨b₃, ids₃, h₃, hlast⟩ := bind_eq_ok hels
    obtain ⟨b, hb, heq⟩ := map_eq_ok h₃
    cases heq
    cases pure_eq_ok hlast
    exact ⟨b₁, _, b₂, b₃, h₁, hlen, rfl, .inl ⟨t, rfl, hb, rfl⟩⟩
  | _ =>
    obtain ⟨b₃, ids₃, h₃, hlast⟩ := bind_eq_ok hels
    cases pure_eq_ok hlast
    exact ⟨b₁, _, b₂, b₃, h₁, hlen, rfl, .inr ⟨fun t => nofun, h₃⟩⟩

theorem writeAll_cons {v : Encoded} {rest : List Encoded}
    (h : Encoded.writeAll version (v :: rest) ids = .ok (bytes, ids')) :
    ∃ b₁ ids₁ b₂, v.write version ids = .ok (b₁, ids₁) ∧
      Encoded.writeAll version rest ids₁ = .ok (b₂, ids') ∧ bytes = b₁ ++ b₂ := by
  rw [Encoded.writeAll] at h
  exact bind_bind_eq_ok h

theorem writeField_scalar {i : String} {s : Scalar}
    (h : (Field.scalar i s).write version ids = .ok (bytes, ids')) :
    ∃ b, writeId version i ids = .ok (b, ids') ∧ bytes = b ++ (Tag.scalar s.type).byte :: s.bytes := by
  rw [Field.write] at h
  obtain ⟨b, ids₁, h₁, hlast⟩ := bind_eq_ok h
  cases pure_eq_ok hlast
  exact ⟨b, h₁, rfl⟩

theorem writeField_value {i : String} {v : Encoded}
    (h : (Field.value i v).write version ids = .ok (bytes, ids')) :
    ∃ b₁ ids₁ b₂, writeId version i ids = .ok (b₁, ids₁) ∧ v.write version ids₁ = .ok (b₂, ids') ∧
      bytes = b₁ ++ b₂ := by
  rw [Field.write] at h
  exact bind_bind_eq_ok h

theorem writeFields_cons {f : Field} {rest : List Field}
    (h : Field.writeAll version (f :: rest) ids = .ok (bytes, ids')) :
    ∃ b₁ ids₁ b₂, f.write version ids = .ok (b₁, ids₁) ∧
      Field.writeAll version rest ids₁ = .ok (b₂, ids') ∧ bytes = b₁ ++ b₂ := by
  rw [Field.writeAll] at h
  exact bind_bind_eq_ok h

end Inversion

/-! ## How the table grows -/

/-- What becomes of a table when something with the ids `used` is written. -/
structure Grown (ids used ids' : List String) : Prop where
  /-- Nothing that was there moves, so numbers given out stay right. -/
  front : ids <+: ids'
  /-- What is new is an id of what was written. -/
  source : ∀ id ∈ ids', id ∈ ids ∨ id ∈ used
  /-- No id comes twice. -/
  nodup : ids.Nodup → ids'.Nodup

namespace Grown

variable {version : Nat} {ids ids₁ ids₂ used used₁ used₂ : List String} {bytes : Bytes}

theorem same (ids used : List String) : Grown ids used ids :=
  ⟨List.prefix_refl ids, fun _ h => .inl h, fun h => h⟩

theorem trans (h₁ : Grown ids used₁ ids₁) (h₂ : Grown ids₁ used₂ ids₂) :
    Grown ids (used₁ ++ used₂) ids₂ := by
  refine ⟨h₁.front.trans h₂.front, ?_, fun h => h₂.nodup (h₁.nodup h)⟩
  intro id hid
  rcases h₂.source id hid with h | h
  · rcases h₁.source id h with h | h
    · exact .inl h
    · exact .inr (List.mem_append_left _ h)
  · exact .inr (List.mem_append_right _ h)

theorem length_le (h : Grown ids used ids₁) : ids.length ≤ ids₁.length := h.front.length_le

/-- A table that began empty has no more entries than there are different ids. -/
theorem length_le_card (h : Grown [] used ids) : ids.length ≤ used.toFinset.card := by
  rw [← List.toFinset_card_of_nodup (h.nodup List.nodup_nil)]
  refine Finset.card_le_card fun id hid => ?_
  rcases h.source id (List.mem_toFinset.mp hid) with h | h
  · exact absurd h List.not_mem_nil
  · exact List.mem_toFinset.mpr h

theorem writeId {id : String} (h : writeId version id ids = .ok (bytes, ids₁)) :
    Grown ids [id] ids₁ := by
  unfold Codec.writeId at h
  split at h
  · obtain ⟨ref, _, heq⟩ := map_eq_ok h
    cases heq
    exact same ids [id]
  · rename_i hnew
    dsimp only at h
    split at h
    · cases h
    · have hids := congrArg Prod.snd (Except.ok.inj h)
      dsimp only at hids
      split at hids
      · -- a new entry, which the table did not have
        subst hids
        refine ⟨List.prefix_append ids [id], ?_, fun hn => ?_⟩
        · intro i hi
          exact List.mem_append.mp hi
        · exact List.nodup_append.mpr ⟨hn, List.nodup_singleton id, fun i hi j hj => by
            rw [List.mem_singleton.mp hj]
            exact fun he => List.idxOf?_eq_none_iff.mp hnew (he ▸ hi)⟩
      · subst hids
        exact same _ [id]

theorem component {c : Component} (h : c.write version ids = .ok (bytes, ids₁)) :
    Grown ids c.ids ids₁ := by
  induction c generalizing bytes with
  | enum id | object id =>
    rw [Component.write] at h
    obtain ⟨b, ids', h₁, hlast⟩ := bind_eq_ok h
    cases pure_eq_ok hlast
    exact writeId h₁
  | array c ih =>
    rw [Component.write] at h
    obtain ⟨b, ids', h₁, hlast⟩ := bind_eq_ok h
    cases pure_eq_ok hlast
    exact ih h₁
  | _ =>
    cases pure_eq_ok h
    exact same _ _

end Grown

mutual

/-- The table grows by ids of the value that is written. -/
theorem Encoded.write_grown {version : Nat} : ∀ {v : Encoded} {ids ids' : List String} {bytes : Bytes},
    v.write version ids = .ok (bytes, ids') → Grown ids v.ids ids'
  | .null, ids, _, _, h | .boxed _, ids, _, _, h => by
      cases pure_eq_ok h
      exact Grown.same _ _
  | .string s, ids, _, _, h => by
      obtain ⟨_, _, _, rfl⟩ := write_string h
      exact Grown.same _ _
  | .array c vs, _, _, _, h => by
      obtain ⟨_, _, _, _, hc, _, _, hvs⟩ := write_array h
      rcases hvs with ⟨_, _, _, rfl⟩ | ⟨_, hvs⟩
      · exact (Grown.component hc).trans (Grown.same _ _)
      · exact (Grown.component hc).trans (Encoded.writeAll_grown hvs)
  | .enum t i, _, _, _, h => by
      obtain ⟨_, _, _, ht, hi, _⟩ := write_enum h
      exact (Grown.writeId ht).trans (Grown.writeId hi)
  | .typeLiteral c, _, _, _, h => by
      obtain ⟨_, hc, _⟩ := write_typeLiteral h
      exact Grown.component hc
  | .object t fs, _, _, _, h => by
      obtain ⟨_, _, _, _, ht, hfs, _⟩ := write_object h
      exact (Grown.writeId ht).trans (Field.writeAll_grown hfs)

theorem Encoded.writeAll_grown {version : Nat} :
    ∀ {vs : List Encoded} {ids ids' : List String} {bytes : Bytes},
      Encoded.writeAll version vs ids = .ok (bytes, ids') → Grown ids (Encoded.idsOfAll vs) ids'
  | [], _, _, _, h => by
      cases pure_eq_ok h
      exact Grown.same _ _
  | v :: rest, _, _, _, h => by
      obtain ⟨_, _, _, hv, hrest, _⟩ := writeAll_cons h
      exact (Encoded.write_grown hv).trans (Encoded.writeAll_grown hrest)

theorem Field.write_grown {version : Nat} : ∀ {f : Field} {ids ids' : List String} {bytes : Bytes},
    f.write version ids = .ok (bytes, ids') → Grown ids f.ids ids'
  | .scalar i s, _, _, _, h => by
      obtain ⟨_, hi, _⟩ := writeField_scalar h
      exact Grown.writeId hi
  | .value i v, _, _, _, h => by
      obtain ⟨_, _, _, hi, hv, _⟩ := writeField_value h
      exact (Grown.writeId hi).trans (Encoded.write_grown hv)

theorem Field.writeAll_grown {version : Nat} :
    ∀ {fs : List Field} {ids ids' : List String} {bytes : Bytes},
      Field.writeAll version fs ids = .ok (bytes, ids') → Grown ids (Field.idsOfAll fs) ids'
  | [], _, _, _, h => by
      cases pure_eq_ok h
      exact Grown.same _ _
  | f :: rest, _, _, _, h => by
      obtain ⟨_, _, _, hf, hrest, _⟩ := writeFields_cons h
      exact (Field.write_grown hf).trans (Field.writeAll_grown hrest)

end

end ScriptStore.Codec
