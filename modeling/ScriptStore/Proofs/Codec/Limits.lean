import ScriptStore.Proofs.Codec.RoundTrip

/-!
# What can be written

Writing fails only where a limit of the format is passed: an id of more than 254 bytes, an object
with more than 32767 fields, a text or an array of 2³¹ bytes or elements, an element that does not
have the type of its array of scalars, or a reference to an id whose number is too large. `Within`
is about the value alone. How large the numbers of ids get depends on everything that was written
before, and is bounded by a pool that all ids come from.
-/

namespace ScriptStore.Codec

open Text (Bytes)

/-- Lengths are below this. -/
def lengthLimit : Nat := 2 ^ 31

mutual

/-- Whether no text, array or object in a value is larger than the format allows, and arrays of
scalars hold scalars of their type. -/
def Encoded.Within : Encoded → Prop
  | .string s => (Text.toBytes s).length < lengthLimit
  | .array c vs =>
    vs.length < lengthLimit ∧
      (∀ t, c = .scalar t → ∀ v ∈ vs, ∃ s : Scalar, v = .boxed s ∧ s.type = t) ∧
      Encoded.AllWithin vs
  | .object _ fs => fs.length ≤ maxFields ∧ Field.AllWithin fs
  | _ => True

def Encoded.AllWithin : List Encoded → Prop
  | [] => True
  | v :: rest => v.Within ∧ Encoded.AllWithin rest

def Field.Within : Field → Prop
  | .scalar _ _ => True
  | .value _ v => v.Within

def Field.AllWithin : List Field → Prop
  | [] => True
  | f :: rest => f.Within ∧ Field.AllWithin rest

end

/-- Ids that can be written, and are few enough for all their numbers to be written. -/
structure Pool (pool : Finset String) : Prop where
  short : ∀ id ∈ pool, (Text.toBytes id).length ≤ maxIdSize
  few : pool.card ≤ lengthLimit

/-- A table of shared ids that come from a pool. -/
structure Pooled (pool : Finset String) (ids : List String) : Prop where
  nodup : ids.Nodup
  mem : ∀ id ∈ ids, id ∈ pool

section

variable {pool : Finset String} {ids ids' used : List String}

theorem Pooled.length_le (h : Pooled pool ids) : ids.length ≤ pool.card := by
  rw [← List.toFinset_card_of_nodup h.nodup]
  exact Finset.card_le_card fun id hid => h.mem id (List.mem_toFinset.1 hid)

theorem Pooled.grown (h : Pooled pool ids) (hgrown : Grown ids used ids')
    (hused : ∀ id ∈ used, id ∈ pool) : Pooled pool ids' :=
  ⟨hgrown.nodup h.nodup, fun id hid => (hgrown.source id hid).elim (h.mem id) (hused id)⟩

theorem lengthBytes_of_lt {n : Nat} (h : n < lengthLimit) : ∃ bytes, lengthBytes n = .ok bytes := by
  unfold lengthBytes
  split
  · exact ⟨_, rfl⟩
  · rw [if_pos (show n < 0x80000000 from h)]
    exact ⟨_, rfl⟩

theorem writeLength_of_lt {n : Nat} (h : n < lengthLimit) (ids : List String) :
    ∃ bytes, writeLength n ids = .ok (bytes, ids) := by
  obtain ⟨bytes, hbytes⟩ := lengthBytes_of_lt h
  exact ⟨bytes, by rw [writeLength, hbytes]; rfl⟩

theorem writeId_of_pooled (hpool : Pool pool) (version : Nat) {id : String} (hid : id ∈ pool)
    (hids : Pooled pool ids) :
    ∃ bytes ids', writeId version id ids = .ok (bytes, ids') := by
  unfold writeId
  cases hindex : ids.idxOf? id with
  | some index =>
    have hlt : index < lengthLimit :=
      Nat.lt_of_lt_of_le (List.idxOf?_eq_some_iff.1 hindex).1 (hids.length_le.trans hpool.few)
    obtain ⟨bytes, hbytes⟩ : ∃ bytes, idReference version index = .ok bytes := by
      unfold idReference
      split
      · exact ⟨_, rfl⟩
      · exact lengthBytes_of_lt hlt
    dsimp only
    exact ⟨_, _, by rw [hbytes]; rfl⟩
  | none =>
    dsimp only
    rw [if_neg (Nat.not_lt.2 (hpool.short id hid))]
    exact ⟨_, _, rfl⟩

theorem Component.write_of_pooled (hpool : Pool pool) (version : Nat) {c : Component}
    (hc : ∀ id ∈ c.ids, id ∈ pool) (hids : Pooled pool ids) :
    ∃ bytes ids', c.write version ids = .ok (bytes, ids') := by
  induction c with
  | enum id | object id =>
    obtain ⟨bytes, ids', hid⟩ := writeId_of_pooled hpool version
      (hc id (List.mem_singleton.2 rfl)) hids
    exact ⟨_, _, by rw [Component.write, bind_of_ok hid]; rfl⟩
  | array c ih =>
    obtain ⟨bytes, ids', hinner⟩ := ih hc
    exact ⟨_, _, by rw [Component.write, bind_of_ok hinner]; rfl⟩
  | _ => exact ⟨_, _, rfl⟩

theorem writeScalars_of_type {t : ScalarType} {vs : List Encoded}
    (h : ∀ v ∈ vs, ∃ s : Scalar, v = .boxed s ∧ s.type = t) :
    ∃ bytes, writeScalars t vs = .ok bytes := by
  induction vs with
  | nil => exact ⟨_, rfl⟩
  | cons v vs ih =>
    obtain ⟨⟨s, rfl, hs⟩, hrest⟩ := List.forall_mem_cons.1 h
    obtain ⟨bytes, hbytes⟩ := ih hrest
    exact ⟨_, by rw [writeScalars, if_pos hs, hbytes]; rfl⟩

mutual

/-- **A value within the limits can be written**, after anything whose ids come from the same
pool. -/
theorem Encoded.write_of_within (hpool : Pool pool) (version : Nat) :
    ∀ {v : Encoded} {ids : List String}, v.Within → (∀ id ∈ v.ids, id ∈ pool) → Pooled pool ids →
    ∃ bytes ids', v.write version ids = .ok (bytes, ids')
  | .null, _, _, _, _ => ⟨_, _, rfl⟩
  | .boxed _, _, _, _, _ => ⟨_, _, rfl⟩
  | .string s, ids, hv, _, _ => by
      obtain ⟨b, hb⟩ := writeLength_of_lt hv ids
      exact ⟨_, _, by rw [Encoded.write, bind_of_ok hb]; rfl⟩
  | .array c vs, ids, ⟨hlength, hscalars, hvs⟩, hmem, hids => by
      have hc : ∀ id ∈ c.ids, id ∈ pool := fun id hid => hmem id (List.mem_append_left _ hid)
      have hrest : ∀ id ∈ Encoded.idsOfAll vs, id ∈ pool := fun id hid =>
        hmem id (List.mem_append_right _ hid)
      obtain ⟨b₁, ids₁, hwrite⟩ := Component.write_of_pooled hpool version hc hids
      obtain ⟨b₂, hb₂⟩ := writeLength_of_lt hlength ids₁
      obtain ⟨b₃, ids₃, hall⟩ := Encoded.writeAll_of_within hpool version hvs hrest
        (hids.grown (Grown.component hwrite) hc)
      rw [Encoded.write, bind_of_ok hwrite, bind_of_ok hb₂]
      -- elements of a scalar type are written bare, so they have to be of that type
      cases c with
      | scalar t =>
        obtain ⟨b, hb⟩ := writeScalars_of_type (hscalars t rfl)
        dsimp only
        rw [hb]
        exact ⟨_, _, rfl⟩
      | _ =>
        dsimp only
        rw [bind_of_ok hall]
        exact ⟨_, _, rfl⟩
  | .enum t i, ids, _, hmem, hids => by
      have ht : t ∈ pool := hmem t (List.mem_cons_self ..)
      obtain ⟨b₁, ids₁, htype⟩ := writeId_of_pooled hpool version ht hids
      obtain ⟨b₂, ids₂, hconstant⟩ := writeId_of_pooled hpool version
        (hmem i (List.mem_cons_of_mem t (List.mem_singleton.2 rfl)))
        (hids.grown (Grown.writeId htype) (by simpa using ht))
      exact ⟨_, _, by rw [Encoded.write, bind_of_ok htype, bind_of_ok hconstant]; rfl⟩
  | .typeLiteral c, ids, _, hmem, hids => by
      obtain ⟨b, ids₁, hwrite⟩ := Component.write_of_pooled hpool version hmem hids
      exact ⟨_, _, by rw [Encoded.write, bind_of_ok hwrite]; rfl⟩
  | .object t fs, ids, ⟨hcount, hfs⟩, hmem, hids => by
      obtain ⟨ht, hrest⟩ := List.forall_mem_cons.1 hmem
      obtain ⟨b₁, ids₁, htype⟩ := writeId_of_pooled hpool version ht hids
      obtain ⟨b₂, ids₂, hall⟩ := Field.writeAll_of_within hpool version hfs hrest
        (hids.grown (Grown.writeId htype) (by simpa using ht))
      rw [Encoded.write, if_neg (Nat.not_lt.2 hcount)]
      dsimp only
      rw [bind_of_ok htype, bind_of_ok hall]
      exact ⟨_, _, rfl⟩

theorem Encoded.writeAll_of_within (hpool : Pool pool) (version : Nat) :
    ∀ {vs : List Encoded} {ids : List String}, Encoded.AllWithin vs →
    (∀ id ∈ Encoded.idsOfAll vs, id ∈ pool) → Pooled pool ids →
    ∃ bytes ids', Encoded.writeAll version vs ids = .ok (bytes, ids')
  | [], _, _, _, _ => ⟨_, _, rfl⟩
  | v :: rest, ids, ⟨hv, hrest⟩, hmem, hids => by
      obtain ⟨hmem, hmem'⟩ := List.forall_mem_append.1 hmem
      obtain ⟨b₁, ids₁, hfirst⟩ := Encoded.write_of_within hpool version hv hmem hids
      obtain ⟨b₂, ids₂, hothers⟩ := Encoded.writeAll_of_within hpool version hrest hmem'
        (hids.grown (Encoded.write_grown hfirst) hmem)
      exact ⟨_, _, by rw [Encoded.writeAll, bind_of_ok hfirst, bind_of_ok hothers]; rfl⟩

theorem Field.write_of_within (hpool : Pool pool) (version : Nat) :
    ∀ {f : Field} {ids : List String}, f.Within → (∀ id ∈ f.ids, id ∈ pool) → Pooled pool ids →
    ∃ bytes ids', f.write version ids = .ok (bytes, ids')
  | .scalar i s, ids, _, hmem, hids => by
      obtain ⟨b, ids₁, hid⟩ := writeId_of_pooled hpool version
        (hmem i (List.mem_singleton.2 rfl)) hids
      exact ⟨_, _, by rw [Field.write, bind_of_ok hid]; rfl⟩
  | .value i v, ids, hv, hmem, hids => by
      obtain ⟨hi, hrest⟩ := List.forall_mem_cons.1 hmem
      obtain ⟨b₁, ids₁, hid⟩ := writeId_of_pooled hpool version hi hids
      obtain ⟨b₂, ids₂, hvalue⟩ := Encoded.write_of_within hpool version hv hrest
        (hids.grown (Grown.writeId hid) (by simpa using hi))
      exact ⟨_, _, by rw [Field.write, bind_of_ok hid, bind_of_ok hvalue]; rfl⟩

theorem Field.writeAll_of_within (hpool : Pool pool) (version : Nat) :
    ∀ {fs : List Field} {ids : List String}, Field.AllWithin fs →
    (∀ id ∈ Field.idsOfAll fs, id ∈ pool) → Pooled pool ids →
    ∃ bytes ids', Field.writeAll version fs ids = .ok (bytes, ids')
  | [], _, _, _, _ => ⟨_, _, rfl⟩
  | f :: rest, ids, ⟨hf, hrest⟩, hmem, hids => by
      obtain ⟨hmem, hmem'⟩ := List.forall_mem_append.1 hmem
      obtain ⟨b₁, ids₁, hfirst⟩ := Field.write_of_within hpool version hf hmem hids
      obtain ⟨b₂, ids₂, hothers⟩ := Field.writeAll_of_within hpool version hrest hmem'
        (hids.grown (Field.write_grown hfirst) hmem)
      exact ⟨_, _, by rw [Field.writeAll, bind_of_ok hfirst, bind_of_ok hothers]; rfl⟩

end

theorem encode_of_within (hpool : Pool pool) {v : Encoded} (hv : v.Within)
    (hmem : ∀ id ∈ v.ids, id ∈ pool) :
    ∃ bytes, encode v = .ok bytes := by
  obtain ⟨body, ids, hwrite⟩ := Encoded.write_of_within hpool currentVersion hv hmem
    ⟨List.nodup_nil, fun _ => nofun⟩
  exact ⟨_, by rw [encode, encodeAs, hwrite]; rfl⟩

end

end ScriptStore.Codec
