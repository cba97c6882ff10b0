import ScriptStore.Proofs.Codec.IdTable

/-!
# Streams are read back as they were written

A value is read back from its stream: the reader, at every point, knows the shared ids that the
writer had in its table when it wrote what stands there. This is carried through the nesting of
arrays, objects and fields by `Yields`. Written streams hold no references to values, so nothing has
to be said of how references are followed.
-/

namespace ScriptStore.Codec

open Text (Bytes)

mutual

/-- No object in the value has two fields of one id. -/
def Encoded.DistinctFields : Encoded → Prop
  | .array _ vs => Encoded.AllDistinctFields vs
  | .object _ fs => (fs.map Field.id).Nodup ∧ Field.AllDistinctFields fs
  | _ => True

def Encoded.AllDistinctFields : List Encoded → Prop
  | [] => True
  | v :: rest => v.DistinctFields ∧ Encoded.AllDistinctFields rest

def Field.DistinctFields : Field → Prop
  | .scalar _ _ => True
  | .value _ v => v.DistinctFields

def Field.AllDistinctFields : List Field → Prop
  | [] => True
  | f :: rest => f.DistinctFields ∧ Field.AllDistinctFields rest

end

/-! ## Fields -/

theorem Fields.put_of_new {f : Field} {fs : List Field} (h : f.id ∉ fs.map Field.id) :
    Fields.put f fs = fs ++ [f] := by
  induction fs with
  | nil => rfl
  | cons g rest ih =>
    rw [List.map_cons, List.mem_cons, not_or] at h
    rw [Fields.put, if_neg (Ne.symm h.1), ih h.2, List.cons_append]

/-- Fields with different ids are kept as they come. -/
theorem Fields.ofList_eq {fs : List Field} (h : (fs.map Field.id).Nodup) :
    Fields.ofList fs = fs := by
  have key : ∀ (fs out : List Field), ((out ++ fs).map Field.id).Nodup →
      fs.foldl (fun out f => Fields.put f out) out = out ++ fs := by
    intro fs
    induction fs with
    | nil => intro out _; rw [List.foldl_nil, List.append_nil]
    | cons f rest ih =>
      intro out hn
      have hnew : f.id ∉ out.map Field.id := by
        rw [List.map_append, List.nodup_append] at hn
        exact fun hf => hn.2.2 _ hf _ (List.mem_map_of_mem List.mem_cons_self) rfl
      rw [List.foldl_cons, Fields.put_of_new hnew, ih, List.append_assoc, List.singleton_append]
      rwa [List.append_assoc, List.singleton_append]
  exact key fs [] h

/-! ## Components -/

/-- A component is an innermost one under some array dimensions. -/
theorem Component.exists_nested (c : Component) :
    ∃ n inner, c = Read.nested n inner ∧ ∀ d, inner ≠ .array d := by
  induction c with
  | array c ih =>
    obtain ⟨n, inner, hc, hin⟩ := ih
    exact ⟨n + 1, inner, by rw [hc, Read.nested], hin⟩
  | _ => exact ⟨0, _, rfl, fun d => nofun⟩

theorem write_nested {version n : Nat} {inner : Component} {ids ids' : List String} {bytes : Bytes}
    (h : (Read.nested n inner).write version ids = .ok (bytes, ids')) :
    ∃ b, inner.write version ids = .ok (b, ids') ∧
      bytes = List.replicate n Tag.array.byte ++ b := by
  induction n generalizing bytes with
  | zero => exact ⟨bytes, h, rfl⟩
  | succ n ih =>
    rw [Read.nested, Component.write] at h
    obtain ⟨b, ids₁, h₁, hlast⟩ := bind_eq_ok h
    cases pure_eq_ok hlast
    obtain ⟨b', hb', rfl⟩ := ih h₁
    exact ⟨b', hb', by rw [List.replicate_succ, List.cons_append]⟩

namespace Yields

variable {α : Type} {version : Nat} {ids ids₁ : List String} {bytes : Bytes}

theorem tag (t : Tag) : Yields version (Read.tag t.byte) ids [] t ids := by
  unfold Read.tag
  rw [Tag.ofByte?_byte]
  exact pure t

/-- As many array tags as stand in front of another byte are counted. -/
theorem takeWhile_arrayTags {n : Nat} {b : UInt8} (hb : b ≠ Tag.array.byte) (rest : Bytes) :
    ((List.replicate n Tag.array.byte ++ b :: rest).takeWhile (· = Tag.array.byte)).length = n := by
  rw [List.takeWhile_append_of_pos, List.takeWhile_cons_of_neg, List.append_nil, List.length_replicate]
  · simpa using hb
  · intro x hx
    simpa using (List.mem_replicate.mp hx).2

theorem innermost {c : Component} (hc : ∀ d, c ≠ .array d)
    (h : c.write version ids = .ok (bytes, ids₁)) (hsize : version ≤ 1 → ids.length ≤ 2 ^ 32) :
    ∃ b more, bytes = b :: more ∧ b ≠ Tag.array.byte ∧
      Yields version (Read.innermost b) ids more c ids₁ := by
  cases c with
  | array d => exact absurd rfl (hc d)
  | enum i =>
    rw [Component.write] at h
    obtain ⟨b, ids', h₁, hlast⟩ := bind_eq_ok h
    cases pure_eq_ok hlast
    exact ⟨_, _, rfl, by decide, bind (tag .enum) (map Component.enum (id h₁ hsize))⟩
  | object i =>
    rw [Component.write] at h
    obtain ⟨b, ids', h₁, hlast⟩ := bind_eq_ok h
    cases pure_eq_ok hlast
    exact ⟨_, _, rfl, by decide, bind (tag .object) (map Component.object (id h₁ hsize))⟩
  | scalar t =>
    cases pure_eq_ok h
    exact ⟨_, _, rfl, by cases t <;> decide, bind (tag (.scalar t)) (pure _)⟩
  | boxed t =>
    cases pure_eq_ok h
    exact ⟨_, _, rfl, by cases t <;> decide, bind (tag (.boxed t)) (pure _)⟩
  | string =>
    cases pure_eq_ok h
    exact ⟨_, _, rfl, by decide, bind (tag .string) (pure _)⟩
  | typeLiteral =>
    cases pure_eq_ok h
    exact ⟨_, _, rfl, by decide, bind (tag .typeLiteral) (pure _)⟩

theorem component {c : Component} (h : c.write version ids = .ok (bytes, ids₁))
    (hsize : version ≤ 1 → ids.length ≤ 2 ^ 32) : Yields version Read.component ids bytes c ids₁ := by
  obtain ⟨n, inner, rfl, hinner⟩ := c.exists_nested
  obtain ⟨_, hb, rfl⟩ := write_nested h
  obtain ⟨b, more, rfl, hne, hy⟩ := innermost hinner hb hsize
  refine get fun s _ _ ⟨rest, hr⟩ => ?_
  rw [hr, List.append_assoc, List.cons_append, takeWhile_arrayTags hne]
  exact bind (take List.length_replicate) (bind (byte b) (map (Read.nested n) hy))

/-! ## Arrays and objects -/

theorem scalars {t : ScalarType} {vs : List Encoded} (h : writeScalars t vs = .ok bytes) :
    All version (Encoded.boxed <$> Read.scalar t) ids bytes vs ids := by
  induction vs generalizing bytes with
  | nil => cases h; exact .nil
  | cons v rest ih =>
    cases v with
    | boxed s =>
      rw [writeScalars] at h
      split at h
      · rename_i ht
        obtain ⟨b, hb, rfl⟩ := map_eq_ok h
        subst ht
        exact .cons (map Encoded.boxed (scalar s)) (ih hb)
      · cases h
    | _ => exact absurd h (by simp [writeScalars])

/-- A value is noted under a number that nothing in a written stream refers to. -/
theorem begin {β : Type} {m : Mark} {f : Nat → Read β} {b : β}
    (hf : ∀ n, Yields version (f n) ids bytes b ids₁) :
    Yields version (Read.begin m >>= f) ids bytes b ids₁ := by
  intro s rest hv hi hr
  exact hf s.marks.size { s with marks := s.marks.push m } rest hv hi hr

theorem finish (number : Nat) : Yields version (Read.finish number) ids [] () ids := by
  intro s rest hv hi hr
  exact ⟨_, rfl, hv, hi, hr⟩

/-- A value that is neither null nor a reference is its tag and what follows the tag. -/
theorem value_of_body {follow : Nat → Read Encoded} {fuel : Nat} {t : Tag} {v : Encoded}
    (hnull : t ≠ .null) (href : t ≠ .reference) (hscalar : ∀ s, t ≠ .scalar s)
    (h : Yields version (Read.body (Read.value follow fuel) t) ids bytes v ids₁) :
    Yields version (Read.value follow (fuel + 1)) ids (t.byte :: bytes) v ids₁ := by
  have hvalue : ∀ m : Mark, Yields version (Read.begin m >>= fun number => do
      let v ← Read.body (Read.value follow fuel) t
      Read.finish number
      return v) ids bytes v ids₁ := by
    intro m
    exact begin fun number => bind_nil h (bind_nil (finish number) (pure v))
  rw [Read.value, Read.valueWith]
  refine get fun s _ _ _ => get fun s' _ _ _ => ?_
  change Yields version _ ids ([t.byte] ++ bytes) v ids₁
  refine bind (byte t.byte) ?_
  change Yields version _ ids ([] ++ bytes) v ids₁
  refine bind (tag t) ?_
  cases t with
  | null => exact absurd rfl hnull
  | reference => exact absurd rfl href
  | scalar s => exact absurd rfl (hscalar s)
  | _ => exact hvalue _

/-- The tag tells a raw scalar in a field from a value. -/
theorem field_scalar {value : Read Encoded} {i : String} {s : Scalar} {b : Bytes}
    (hi : Yields version Read.id ids b i ids₁) :
    Yields version (Read.field value) ids (b ++ (Tag.scalar s.type).byte :: s.bytes) (.scalar i s)
      ids₁ := by
  refine bind hi (get fun src _ _ ⟨rest, hr⟩ => ?_)
  rw [hr, List.cons_append]
  change Yields version _ ids₁ ([] ++ ([(Tag.scalar s.type).byte] ++ s.bytes)) _ ids₁
  exact bind (tag (.scalar s.type)) (bind (byte _) (bind_nil (scalar s) (pure _)))

theorem field_value {value : Read Encoded} {i : String} {v : Encoded} {t : Tag} {b more : Bytes}
    {ids₂ : List String} (ht : ∀ s, t ≠ .scalar s) (hi : Yields version Read.id ids b i ids₁)
    (hv : Yields version value ids₁ (t.byte :: more) v ids₂) :
    Yields version (Read.field value) ids (b ++ t.byte :: more) (.value i v) ids₂ := by
  refine bind hi (get fun src _ _ ⟨rest, hr⟩ => ?_)
  rw [hr, List.cons_append]
  change Yields version _ ids₁ ([] ++ (t.byte :: more)) _ ids₂
  refine bind (tag t) ?_
  cases t with
  | scalar s => exact absurd rfl (ht s)
  | _ => exact bind_nil hv (pure _)

end Yields

/-- A value begins with its tag, which is never that of a raw scalar. -/
theorem Encoded.write_tag {version : Nat} {v : Encoded} {ids ids' : List String} {bytes : Bytes}
    (h : v.write version ids = .ok (bytes, ids')) :
    ∃ t more, bytes = Tag.byte t :: more ∧ ∀ s, t ≠ .scalar s := by
  cases v with
  | null => cases pure_eq_ok h; exact ⟨.null, _, rfl, fun s => nofun⟩
  | boxed s => cases pure_eq_ok h; exact ⟨.boxed s.type, _, rfl, fun s => nofun⟩
  | string s =>
    obtain ⟨_, _, rfl, _⟩ := write_string h
    exact ⟨.string, _, rfl, fun s => nofun⟩
  | array c vs =>
    obtain ⟨_, _, _, _, _, _, rfl, _⟩ := write_array h
    exact ⟨.array, _, rfl, fun s => nofun⟩
  | enum t i =>
    obtain ⟨_, _, _, _, _, rfl⟩ := write_enum h
    exact ⟨.enum, _, rfl, fun s => nofun⟩
  | typeLiteral c =>
    obtain ⟨_, _, rfl⟩ := write_typeLiteral h
    exact ⟨.typeLiteral, _, rfl, fun s => nofun⟩
  | object t fs =>
    obtain ⟨_, _, _, _, _, _, rfl⟩ := write_object h
    exact ⟨.object, _, rfl, fun s => nofun⟩

section Values

variable {version : Nat} {follow : Nat → Read Encoded}

mutual

/-- **A written value is read back**, by as much fuel as it has bytes, and reader and writer know the
same ids afterwards. -/
theorem Encoded.write_yields : ∀ {v : Encoded} {fuel : Nat} {ids ids' : List String} {bytes : Bytes},
    v.DistinctFields → v.write version ids = .ok (bytes, ids') → bytes.length ≤ fuel →
    (version ≤ 1 → ids'.length ≤ 2 ^ 32) → Yields version (Read.value follow fuel) ids bytes v ids'
  | v, 0, _, _, _, _, h, hfuel, _ => by
      obtain ⟨t, more, rfl, _⟩ := Encoded.write_tag h
      exact absurd hfuel (Nat.not_succ_le_zero _)
  | .null, fuel + 1, ids, _, _, _, h, _, _ => by
      cases pure_eq_ok h
      rw [Read.value, Read.valueWith]
      refine .get fun s _ _ _ => .get fun s' _ _ _ => ?_
      exact .bind_nil (.byte Tag.null.byte) (.bind_nil (.tag .null) (.pure _))
  | .boxed s, fuel + 1, _, _, _, _, h, _, _ => by
      cases pure_eq_ok h
      exact .value_of_body nofun nofun (fun _ => nofun) (.map Encoded.boxed (.scalar s))
  | .string s, fuel + 1, _, _, _, _, h, _, _ => by
      obtain ⟨b, hb, rfl, rfl⟩ := write_string h
      exact .value_of_body nofun nofun (fun _ => nofun)
        (.bind (.length hb) (.bind_nil (.text s) (.pure _)))
  | .array c vs, fuel + 1, ids, ids', _, hd, h, hfuel, hsize => by
      obtain ⟨b₁, ids₁, b₂, b₃, hc, hlen, rfl, hvs⟩ := write_array h
      simp only [List.length_cons, List.length_append] at hfuel
      refine .value_of_body nofun nofun (fun _ => nofun) ?_
      rw [List.append_assoc]
      -- scalars are written bare, one behind the other; other elements are values of their own
      -- ids only ever come to the table, so a bound at the end holds at every place before it
      rcases hvs with ⟨t, rfl, hvs, rfl⟩ | ⟨hne, hvs⟩
      · have hsize₀ : version ≤ 1 → ids.length ≤ 2 ^ 32 := fun hv =>
          Nat.le_trans (Grown.component hc).length_le (hsize hv)
        exact .bind (.component hc hsize₀) (.bind (.length hlen)
          (.bind_nil (.times (Yields.scalars hvs)) (.pure _)))
      · have hsize₁ : version ≤ 1 → ids₁.length ≤ 2 ^ 32 := fun hv =>
          Nat.le_trans (Encoded.writeAll_grown hvs).length_le (hsize hv)
        have hsize₀ : version ≤ 1 → ids.length ≤ 2 ^ 32 := fun hv =>
          Nat.le_trans (Grown.component hc).length_le (hsize₁ hv)
        refine .bind (.component hc hsize₀) (.bind (.length hlen) ?_)
        have hfuel₃ : b₃.length ≤ fuel := by omega
        have hall := Yields.times (Encoded.writeAll_yields hd hvs hfuel₃ hsize)
        cases c with
        | scalar t => exact absurd rfl (hne t)
        | _ => exact .bind_nil hall (.pure _)
  | .enum t i, fuel + 1, ids, _, _, _, h, _, hsize => by
      obtain ⟨b₁, ids₁, b₂, ht, hi, rfl⟩ := write_enum h
      have hsize₁ : version ≤ 1 → ids₁.length ≤ 2 ^ 32 := fun hv =>
        Nat.le_trans (Grown.writeId hi).length_le (hsize hv)
      have hsize₀ : version ≤ 1 → ids.length ≤ 2 ^ 32 := fun hv =>
        Nat.le_trans (Grown.writeId ht).length_le (hsize₁ hv)
      exact .value_of_body nofun nofun (fun _ => nofun)
        (.bind (.id ht hsize₀) (.bind_nil (.id hi hsize₁) (.pure _)))
  | .typeLiteral c, fuel + 1, ids, _, _, _, h, _, hsize => by
      obtain ⟨b, hc, rfl⟩ := write_typeLiteral h
      have hsize₀ : version ≤ 1 → ids.length ≤ 2 ^ 32 := fun hv =>
        Nat.le_trans (Grown.component hc).length_le (hsize hv)
      exact .value_of_body nofun nofun (fun _ => nofun)
        (.map Encoded.typeLiteral (.component hc hsize₀))
  | .object t fs, fuel + 1, ids, _, _, hd, h, hfuel, hsize => by
      obtain ⟨hmax, b₁, ids₁, b₂, ht, hfs, rfl⟩ := write_object h
      simp only [List.length_cons, List.length_append] at hfuel
      have hsize₁ : version ≤ 1 → ids₁.length ≤ 2 ^ 32 := fun hv =>
        Nat.le_trans (Field.writeAll_grown hfs).length_le (hsize hv)
      have hsize₀ : version ≤ 1 → ids.length ≤ 2 ^ 32 := fun hv =>
        Nat.le_trans (Grown.writeId ht).length_le (hsize₁ hv)
      have hfuel₂ : b₂.length ≤ fuel := by omega
      have hall := Yields.times (Field.writeAll_yields hd.2 hfs hfuel₂ hsize)
      refine .value_of_body nofun nofun (fun _ => nofun) ?_
      rw [List.append_assoc]
      refine .bind (.id ht hsize₀) (.bind (.count hmax) (.bind_nil hall ?_))
      rw [Fields.ofList_eq hd.1]
      exact .pure _

theorem Encoded.writeAll_yields :
    ∀ {vs : List Encoded} {fuel : Nat} {ids ids' : List String} {bytes : Bytes},
      Encoded.AllDistinctFields vs → Encoded.writeAll version vs ids = .ok (bytes, ids') →
      bytes.length ≤ fuel → (version ≤ 1 → ids'.length ≤ 2 ^ 32) →
      Yields.All version (Read.value follow fuel) ids bytes vs ids'
  | [], _, _, _, _, _, h, _, _ => by
      cases pure_eq_ok h
      exact .nil
  | v :: rest, _, _, _, _, hd, h, hfuel, hsize => by
      obtain ⟨b₁, ids₁, b₂, hv, hrest, rfl⟩ := writeAll_cons h
      rw [List.length_append] at hfuel
      have hsize₁ : version ≤ 1 → ids₁.length ≤ 2 ^ 32 := fun hver =>
        Nat.le_trans (Encoded.writeAll_grown hrest).length_le (hsize hver)
      exact .cons (Encoded.write_yields hd.1 hv (by omega) hsize₁)
        (Encoded.writeAll_yields hd.2 hrest (by omega) hsize)

theorem Field.write_yields : ∀ {f : Field} {fuel : Nat} {ids ids' : List String} {bytes : Bytes},
    f.DistinctFields → f.write version ids = .ok (bytes, ids') → bytes.length ≤ fuel →
    (version ≤ 1 → ids'.length ≤ 2 ^ 32) →
    Yields version (Read.field (Read.value follow fuel)) ids bytes f ids'
  | .scalar i s, _, ids, _, _, _, h, _, hsize => by
      obtain ⟨b, hi, rfl⟩ := writeField_scalar h
      have hsize₀ : version ≤ 1 → ids.length ≤ 2 ^ 32 := fun hv =>
        Nat.le_trans (Grown.writeId hi).length_le (hsize hv)
      exact .field_scalar (.id hi hsize₀)
  | .value i v, fuel, ids, _, _, hd, h, hfuel, hsize => by
      obtain ⟨b₁, ids₁, b₂, hi, hv, rfl⟩ := writeField_value h
      have hfuel₂ : b₂.length ≤ fuel := by rw [List.length_append] at hfuel; omega
      have hsize₁ : version ≤ 1 → ids₁.length ≤ 2 ^ 32 := fun hver =>
        Nat.le_trans (Encoded.write_grown hv).length_le (hsize hver)
      have hsize₀ : version ≤ 1 → ids.length ≤ 2 ^ 32 := fun hver =>
        Nat.le_trans (Grown.writeId hi).length_le (hsize₁ hver)
      have hy := Encoded.write_yields hd hv hfuel₂ hsize
      obtain ⟨t, more, rfl, ht⟩ := Encoded.write_tag hv
      exact .field_value ht (.id hi hsize₀) hy

theorem Field.writeAll_yields :
    ∀ {fs : List Field} {fuel : Nat} {ids ids' : List String} {bytes : Bytes},
      Field.AllDistinctFields fs → Field.writeAll version fs ids = .ok (bytes, ids') →
      bytes.length ≤ fuel → (version ≤ 1 → ids'.length ≤ 2 ^ 32) →
      Yields.All version (Read.field (Read.value follow fuel)) ids bytes fs ids'
  | [], _, _, _, _, _, h, _, _ => by
      cases pure_eq_ok h
      exact .nil
  | f :: rest, _, _, _, _, hd, h, hfuel, hsize => by
      obtain ⟨b₁, ids₁, b₂, hf, hrest, rfl⟩ := writeFields_cons h
      rw [List.length_append] at hfuel
      have hsize₁ : version ≤ 1 → ids₁.length ≤ 2 ^ 32 := fun hver =>
        Nat.le_trans (Field.writeAll_grown hrest).length_le (hsize hver)
      exact .cons (Field.write_yields hd.1 hf (by omega) hsize₁)
        (Field.writeAll_yields hd.2 hrest (by omega) hsize)

end

end Values

/-! ## Whole streams -/

/-- The header of either version is accepted, and the rest of the stream is left. -/
theorem Source.ofBytes_header {version : Nat} (h : version = 1 ∨ version = 2) (body : Bytes) :
    Source.ofBytes (header version ++ body) =
      .ok ⟨header version ++ body, 6, body, version, #[], #[]⟩ := by
  rcases h with rfl | rfl
  · rfl
  · rfl

theorem encodeAs_eq_ok {version : Nat} {v : Encoded} {bytes : Bytes}
    (h : encodeAs version v = .ok bytes) :
    ∃ body ids, v.write version [] = .ok (body, ids) ∧ bytes = header version ++ body := by
  obtain ⟨⟨body, ids⟩, hw, hb⟩ := map_eq_ok h
  exact ⟨body, ids, hw, hb.symm⟩

/-- A stream whose body yields a value is read to its end. How references are followed does not
matter. -/
theorem Source.toEnd_of_yields {version : Nat} {body : Bytes} {v : Encoded} {ids : List String}
    (h : ∀ follow, Yields version (Read.value follow body.length) [] body v ids) :
    Source.toEnd ⟨header version ++ body, 6, body, version, #[], #[]⟩ = .ok v := by
  have hlen : (header version ++ body).length = body.length + 5 + 1 := by
    rw [List.length_append, header, List.length_append, Yields.length_bigEndian,
      Yields.length_bigEndian]
    omega
  obtain ⟨s', hs, _, _, hrest⟩ := h (Read.followWith (Read.linked (body.length + 5)))
    ⟨header version ++ body, 6, body, version, #[], #[]⟩ [] rfl rfl (List.append_nil body).symm
  unfold Source.toEnd
  dsimp only
  rw [hlen, Read.linked, hs]
  change (if s'.rest.isEmpty then _ else _) = _
  rw [hrest]
  rfl

/-- In the current version references can count as many ids as are written. -/
theorem decode_of_encode {v : Encoded} {bytes : Bytes} (hfields : v.DistinctFields)
    (h : encode v = .ok bytes) : decode bytes = .ok v := by
  obtain ⟨body, ids, hw, rfl⟩ := encodeAs_eq_ok h
  have hyields : ∀ follow, Yields currentVersion (Read.value follow body.length) [] body v ids :=
    fun follow => Encoded.write_yields hfields hw (Nat.le_refl _)
      fun hle => absurd hle (by decide)
  have hopen := @Source.ofBytes_header currentVersion (.inr rfl) body
  rw [decode, hopen]
  exact Source.toEnd_of_yields hyields

/-- A value with fewer different ids than references can count is read back from the stream that is
written for it, in either version. -/
theorem toEnd_of_encodeAs {version : Nat} {v : Encoded} {bytes : Bytes}
    (hversion : version = 1 ∨ version = 2) (hfields : v.DistinctFields)
    (hids : v.ids.toFinset.card < 2 ^ 31) (h : encodeAs version v = .ok bytes) :
    ∃ s, Source.ofBytes bytes = .ok s ∧ s.version = version ∧ s.toEnd = .ok v := by
  obtain ⟨body, ids, hw, rfl⟩ := encodeAs_eq_ok h
  have hsize : version ≤ 1 → ids.length ≤ 2 ^ 32 := by
    intro _
    have := (Encoded.write_grown hw).length_le_card
    omega
  have hyields : ∀ follow, Yields version (Read.value follow body.length) [] body v ids :=
    fun follow => Encoded.write_yields hfields hw (Nat.le_refl _) hsize
  exact ⟨_, Source.ofBytes_header hversion body, rfl, Source.toEnd_of_yields hyields⟩

/-- An object whose type and field come again in it, by their numbers. -/
theorem toEnd_of_encodeAs_marker :
    ∃ bytes, encodeAs 1 (.object "marker" [.scalar "value" (.int 7),
        .value "inner" (.enum "marker" "value")]) = .ok bytes ∧
      ∃ s, Source.ofBytes bytes = .ok s ∧ s.version = 1 ∧
        s.toEnd = .ok (.object "marker" [.scalar "value" (.int 7),
          .value "inner" (.enum "marker" "value")]) := by
  have h : encodeAs 1 (.object "marker" [.scalar "value" (.int 7),
      .value "inner" (.enum "marker" "value")]) = .ok
      [0x59, 0x67, 0x67, 0x00, 0x00, 0x01, 0x80, 6, 109, 97, 114, 107, 101, 114, 0x82,
        5, 118, 97, 108, 117, 101, 0x03, 0, 0, 0, 7,
        5, 105, 110, 110, 101, 114, 0x40, 0xFF, 0, 0, 0, 0, 0xFF, 0, 0, 0, 1] := by
    rfl
  exact ⟨_, h, toEnd_of_encodeAs (.inl rfl) ⟨by decide, trivial, trivial, trivial⟩ (by decide) h⟩

end ScriptStore.Codec
