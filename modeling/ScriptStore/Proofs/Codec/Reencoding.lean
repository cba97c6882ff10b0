import ScriptStore.Proofs.Codec.Limits

/-!
# Whatever can be read can be written

Streams come in many forms that are never written: with references to values, ids that are spelled
out again, fields that come twice, long forms of small numbers, any byte for true. The value that is
read from such a stream is nevertheless one that can be written, and is read back from what is
written for it.

What has to be shown of a value is a property of all its parts, so it is shown of every reading
step (`Ensures`). The limits of the format hold since the reader cannot even express anything beyond
them; and the ids are few because each is spelled out somewhere in the stream. A reference to a
value is followed by reading a part of the same stream again, where the same holds.
-/

namespace ScriptStore.Codec

open Text (Bytes)

/-! ## Ids in a stream -/

/-- Whether an id is spelled out in a stream: the byte of its length, and its bytes. -/
def Spelled (stream : Bytes) (id : String) : Prop :=
  (Text.toBytes id).length ≤ maxIdSize ∧
    UInt8.ofNat (Text.toBytes id).length :: Text.toBytes id <:+: stream

/-- The id that is spelled out at a place. -/
def idAt? (stream : Bytes) (place : Nat) : Option String :=
  match stream.drop place with
  | [] => none
  | size :: rest => (Text.ofBytes (rest.take size.toNat)).toOption

/-- All ids that are spelled out in a stream. -/
def spelledIds (stream : Bytes) : Finset String :=
  ((List.range stream.length).filterMap (idAt? stream)).toFinset

theorem Spelled.mem_spelledIds {stream : Bytes} {id : String} (h : Spelled stream id) :
    id ∈ spelledIds stream := by
  obtain ⟨hsize, front, back, rfl⟩ := h
  refine List.mem_toFinset.2 (List.mem_filterMap.2 ⟨front.length, ?_, ?_⟩)
  · simp only [List.mem_range, List.length_append, List.length_cons]
    omega
  · have hlt : (Text.toBytes id).length < 256 := Nat.lt_of_le_of_lt hsize (by decide)
    rw [idAt?, List.append_assoc, List.drop_left, List.cons_append]
    dsimp only
    rw [Text.Utf8.toNat_byte hlt, List.take_left, Text.ofBytes_toBytes]
    rfl

/-- There is a place in the stream for every id. -/
theorem card_spelledIds_le (stream : Bytes) : (spelledIds stream).card ≤ stream.length :=
  calc (spelledIds stream).card
      ≤ ((List.range stream.length).filterMap (idAt? stream)).length := List.toFinset_card_le _
    _ ≤ (List.range stream.length).length := List.length_filterMap_le _ _
    _ = stream.length := List.length_range

/-! ## What reading ensures -/

/-- A source that reads from a part of a stream, and knows ids from the same stream. -/
structure Source.Inside (whole : Bytes) (s : Source) : Prop where
  stream : s.stream <:+: whole
  rest : s.rest <:+: whole
  ids : ∀ id ∈ s.ids, Spelled whole id

/-- Whatever is read inside a stream has a property, and reading stays inside. -/
def Ensures {α : Type} (stream : Bytes) (read : Read α) (P : α → Prop) : Prop :=
  ∀ (s s' : Source) (a : α), s.Inside stream → read s = .ok (a, s') → s'.Inside stream ∧ P a

namespace Ensures

variable {α β : Type} {stream : Bytes} {P : α → Prop} {Q : β → Prop}

theorem pure {a : α} (h : P a) : Ensures stream (pure a) P := by
  intro s s' a' hs hread
  cases pure_eq_ok hread
  exact ⟨hs, h⟩

theorem throw (e : Error) : Ensures stream (throw e) P := by
  intro s s' a hs hread
  cases hread

theorem bind {m : Read α} {f : α → Read β} (hm : Ensures stream m P)
    (hf : ∀ a, P a → Ensures stream (f a) Q) : Ensures stream (m >>= f) Q := by
  intro s s' b hs hread
  obtain ⟨a, s₁, hfirst, hnext⟩ := bind_eq_ok hread
  obtain ⟨hs₁, ha⟩ := hm s s₁ a hs hfirst
  exact hf a ha s₁ s' b hs₁ hnext

theorem map {m : Read α} {f : α → β} (hm : Ensures stream m P) (hf : ∀ a, P a → Q (f a)) :
    Ensures stream (f <$> m) Q :=
  bind hm fun a ha => pure (hf a ha)

/-- A step that looks at the source first. -/
theorem get {f : Source → Read β} (hf : ∀ s, Ensures stream (f s) Q) :
    Ensures stream (get >>= f) Q := by
  intro s s' b hs hread
  exact hf s s s' b hs hread

theorem byte : Ensures stream Read.byte fun _ => True := by
  intro s s' b hs hread
  unfold Read.byte at hread
  split at hread
  · cases hread
  · next b' rest hrest =>
    cases hread
    refine ⟨⟨hs.stream, ?_, hs.ids⟩, trivial⟩
    exact (List.suffix_cons b rest).isInfix.trans (hrest ▸ hs.rest)

theorem take (n : Nat) : Ensures stream (Read.take n) fun bytes => bytes.length = n := by
  intro s s' bytes hs hread
  unfold Read.take at hread
  dsimp only at hread
  split at hread
  · cases hread
  · next hlength =>
    cases hread
    refine ⟨⟨hs.stream, (List.drop_suffix n s.rest).isInfix.trans hs.rest, hs.ids⟩, ?_⟩
    exact Nat.le_antisymm (List.length_take_le n s.rest) (Nat.le_of_not_lt hlength)

/-! ## Numbers -/

theorem ofBigEndian_lt (bytes : Bytes) : Read.ofBigEndian bytes < 256 ^ bytes.length := by
  have hfold : ∀ (bytes : Bytes) (n k : Nat), n < 256 ^ k →
      bytes.foldl (fun n b => 256 * n + b.toNat) n < 256 ^ (bytes.length + k) := by
    intro bytes
    induction bytes with
    | nil =>
      intro n k hn
      simpa using hn
    | cons b bytes ih =>
      intro n k hn
      have hb := b.toNat_lt
      have hstep : 256 * n + b.toNat < 256 ^ (k + 1) := by rw [Nat.pow_succ]; omega
      have h := ih _ _ hstep
      rwa [List.foldl_cons, List.length_cons, Nat.add_right_comm, Nat.add_assoc]
  exact hfold bytes 0 0 Nat.one_pos

theorem number (width : Nat) : Ensures stream (Read.number width) fun n => n < 256 ^ width :=
  map (take width) fun bytes hbytes => hbytes ▸ ofBigEndian_lt bytes

/-- A count that has its high bit clear is that of fields an object may have. -/
theorem count : Ensures stream Read.count fun n => n ≤ maxFields := by
  refine bind byte fun first _ => ?_
  have hfirst := first.toNat_lt
  unfold maxFields
  split
  · exact pure (by omega)
  · next hhigh =>
    rw [UInt8.le_iff_toNat_le] at hhigh
    change ¬128 ≤ first.toNat at hhigh
    exact bind (number 1) fun low hlow => pure (by omega)

theorem length : Ensures stream Read.length fun n => n < lengthLimit := by
  refine bind byte fun first _ => ?_
  have hfirst := first.toNat_lt
  unfold lengthLimit
  split
  · exact bind (number 1) fun low hlow => pure (by omega)
  · next hhigh =>
    rw [UInt8.le_iff_toNat_le] at hhigh
    change ¬128 ≤ first.toNat at hhigh
    exact bind (number 3) fun low hlow => pure (by omega)

theorem scalar (t : ScalarType) : Ensures stream (Read.scalar t) fun s => s.type = t := by
  cases t <;> exact map (number _) fun _ _ => rfl

/-! ## Texts and ids -/

theorem text (size : Nat) :
    Ensures stream (Read.text size) fun s => (Text.toBytes s).length = size := by
  refine bind (take size) fun bytes hbytes => ?_
  split
  · next s hs => exact pure (by rw [Text.toBytes_of_ofBytes hs, hbytes])
  · exact throw _

theorem idAt (index : Nat) : Ensures stream (Read.idAt index) (Spelled stream) := by
  intro s s' id hs hread
  obtain ⟨s₀, s₁, hget, hread⟩ := bind_eq_ok hread
  cases hget
  cases hid : s.ids[index]? with
  | none => rw [hid] at hread; cases hread
  | some id' =>
    rw [hid] at hread
    cases pure_eq_ok hread
    exact ⟨hs, hs.ids id (Array.mem_of_getElem? hid)⟩

theorem sharedId : Ensures stream Read.sharedId (Spelled stream) := by
  refine get fun s => ?_
  dsimp only
  split
  · exact bind (number 4) fun index _ => idAt index
  · exact bind length fun index _ => idAt index

/-- A text that is read stands in front of what is left. -/
theorem toBytes_isPrefix {size : Nat} {s s' : Source} {a : String}
    (h : Read.text size s = .ok (a, s')) : Text.toBytes a <+: s.rest := by
  obtain ⟨bytes, s₁, htake, hread⟩ := bind_eq_ok h
  unfold Read.take at htake
  dsimp only at htake
  split at htake
  · cases htake
  · cases htake
    cases ha : Text.ofBytes (s.rest.take size) with
    | error f => rw [ha] at hread; cases hread
    | ok a' =>
      rw [ha] at hread
      cases pure_eq_ok hread
      rw [Text.toBytes_of_ofBytes ha]
      exact List.take_prefix size s.rest

/-- **An id that is read is spelled out in the stream**, here or where it came first. -/
theorem id : Ensures stream Read.id (Spelled stream) := by
  intro s s' id hs hread
  obtain ⟨size, s₁, hsize, hread⟩ := bind_eq_ok hread
  obtain ⟨hs₁, -⟩ := byte s s₁ size hs hsize
  split at hread
  · exact sharedId s₁ s' id hs₁ hread
  · next hne =>
    obtain ⟨id', s₂, htext, hread⟩ := bind_eq_ok hread
    obtain ⟨hs₂, hlength⟩ := text size.toNat s₁ s₂ id' hs₁ htext
    -- the size in front of an id is not the mark of a shared one, so it is its length
    have hspelled : Spelled stream id' := by
      have hlt : size.toNat < 255 := by
        have hle := size.toNat_lt
        have hne' : size.toNat ≠ 255 := fun heq => hne (UInt8.toNat_inj.1 heq)
        omega
      have hrest : s.rest = size :: s₁.rest := by
        unfold Read.byte at hsize
        split at hsize
        · cases hsize
        · next hrest =>
          cases hsize
          exact hrest
      refine ⟨hlength ▸ Nat.le_of_lt_succ hlt, ?_⟩
      rw [hlength, UInt8.ofNat_toNat]
      refine List.IsInfix.trans (List.IsPrefix.isInfix ?_) hs.rest
      rw [hrest]
      exact (List.prefix_cons_inj size).2 (toBytes_isPrefix htext)
    split at hread
    · obtain ⟨_, s₃, hpush, hread⟩ := bind_eq_ok hread
      cases pure_eq_ok hread
      cases hpush
      refine ⟨⟨hs₂.stream, hs₂.rest, fun other hother => ?_⟩, hspelled⟩
      rcases Array.mem_push.1 hother with hother | rfl
      · exact hs₂.ids other hother
      · exact hspelled
    · cases pure_eq_ok hread
      exact ⟨hs₂, hspelled⟩

theorem tag (b : UInt8) : Ensures stream (Read.tag b) fun _ => True := by
  unfold Read.tag
  split
  · exact pure trivial
  · exact throw _

theorem ids_nested (n : Nat) (c : Component) : (Read.nested n c).ids = c.ids := by
  induction n with
  | zero => rfl
  | succ n ih => rw [Read.nested, Component.ids, ih]

theorem innermost (b : UInt8) :
    Ensures stream (Read.innermost b) fun c => ∀ id ∈ c.ids, Spelled stream id := by
  refine bind (tag b) fun t _ => ?_
  cases t with
  | enum | object => exact map id fun i hi other hother => List.mem_singleton.1 hother ▸ hi
  | null | reference | array => exact throw _
  | _ => exact pure fun _ => nofun

theorem component :
    Ensures stream Read.component fun c => ∀ id ∈ c.ids, Spelled stream id := by
  refine get fun s => bind (take _) fun _ _ => bind byte fun b _ => map (innermost b) fun c hc => ?_
  rwa [ids_nested]

theorem times {read : Read α} (h : Ensures stream read P) (n : Nat) :
    Ensures stream (Read.times read n) fun as => as.length = n ∧ ∀ a ∈ as, P a := by
  induction n with
  | zero => exact pure ⟨rfl, fun _ => nofun⟩
  | succ n ih =>
    refine bind h fun a ha => bind ih fun as has => pure ⟨congrArg (· + 1) has.1, ?_⟩
    exact List.forall_mem_cons.2 ⟨ha, has.2⟩

end Ensures

/-! ## Values that are read -/

/-- What holds of a value that was read from a stream. -/
structure Encoded.ReadFrom (stream : Bytes) (v : Encoded) : Prop where
  within : v.Within
  distinct : v.DistinctFields
  spelled : ∀ id ∈ v.ids, Spelled stream id

structure Field.ReadFrom (stream : Bytes) (f : Field) : Prop where
  within : f.Within
  distinct : f.DistinctFields
  spelled : ∀ id ∈ f.ids, Spelled stream id

theorem Encoded.all_readFrom {stream : Bytes} {vs : List Encoded}
    (h : ∀ v ∈ vs, v.ReadFrom stream) :
    Encoded.AllWithin vs ∧ Encoded.AllDistinctFields vs ∧
      ∀ id ∈ Encoded.idsOfAll vs, Spelled stream id := by
  induction vs with
  | nil => exact ⟨trivial, trivial, fun _ => nofun⟩
  | cons v vs ih =>
    obtain ⟨hv, hvs⟩ := List.forall_mem_cons.1 h
    obtain ⟨hwithin, hdistinct, hspelled⟩ := ih hvs
    exact ⟨⟨hv.within, hwithin⟩, ⟨hv.distinct, hdistinct⟩,
      List.forall_mem_append.2 ⟨hv.spelled, hspelled⟩⟩

theorem Field.all_readFrom {stream : Bytes} {fs : List Field} (h : ∀ f ∈ fs, f.ReadFrom stream) :
    Field.AllWithin fs ∧ Field.AllDistinctFields fs ∧
      ∀ id ∈ Field.idsOfAll fs, Spelled stream id := by
  induction fs with
  | nil => exact ⟨trivial, trivial, fun _ => nofun⟩
  | cons f fs ih =>
    obtain ⟨hf, hfs⟩ := List.forall_mem_cons.1 h
    obtain ⟨hwithin, hdistinct, hspelled⟩ := ih hfs
    exact ⟨⟨hf.within, hwithin⟩, ⟨hf.distinct, hdistinct⟩,
      List.forall_mem_append.2 ⟨hf.spelled, hspelled⟩⟩

theorem Fields.map_id_put (f : Field) (fs : List Field) :
    (put f fs).map Field.id =
      if f.id ∈ fs.map Field.id then fs.map Field.id else fs.map Field.id ++ [f.id] := by
  induction fs with
  | nil => simp [put]
  | cons g fs ih =>
    by_cases hid : g.id = f.id
    · simp [put, hid]
    · rw [put, if_neg hid, List.map_cons, ih]
      by_cases hmem : f.id ∈ fs.map Field.id
      · rw [if_pos hmem, List.map_cons, if_pos (List.mem_cons_of_mem _ hmem)]
      · rw [if_neg hmem, List.map_cons, if_neg, List.cons_append]
        exact List.not_mem_cons_of_ne_of_not_mem (Ne.symm hid) hmem

theorem Fields.mem_put {f g : Field} {fs : List Field} (h : g ∈ put f fs) : g = f ∨ g ∈ fs := by
  induction fs with
  | nil => exact .inl (List.mem_singleton.1 h)
  | cons first rest ih =>
    rw [put] at h
    split at h
    · rcases List.mem_cons.1 h with rfl | h
      · exact .inl rfl
      · exact .inr (List.mem_cons_of_mem _ h)
    · rcases List.mem_cons.1 h with rfl | h
      · exact .inr (List.mem_cons_self ..)
      · exact (ih h).imp_right (List.mem_cons_of_mem _)

/-- Fields that come twice are kept once; nothing else is made of a list of fields. -/
theorem Fields.ofList_spec (fs : List Field) :
    ((ofList fs).map Field.id).Nodup ∧ (ofList fs).length ≤ fs.length ∧
      ∀ f ∈ ofList fs, f ∈ fs := by
  -- the invariant is about the fields that were put so far
  have hfold : ∀ (fs out : List Field), (out.map Field.id).Nodup →
      ((fs.foldl (fun out f => put f out) out).map Field.id).Nodup ∧
        (fs.foldl (fun out f => put f out) out).length ≤ out.length + fs.length ∧
        ∀ f ∈ fs.foldl (fun out f => put f out) out, f ∈ out ∨ f ∈ fs := by
    intro fs
    induction fs with
    | nil => exact fun out hout => ⟨hout, Nat.le_refl _, fun _ => .inl⟩
    | cons f fs ih =>
      intro out hout
      have hids := map_id_put f out
      have hnodup : ((put f out).map Field.id).Nodup := by
        rw [hids]
        split
        · exact hout
        · next hnew =>
          exact List.nodup_append.2 ⟨hout, List.nodup_singleton _, fun i hi j hj =>
            List.mem_singleton.1 hj ▸ fun heq => hnew (heq ▸ hi)⟩
      have hlength : (put f out).length ≤ out.length + 1 := by
        have h := congrArg List.length hids
        rw [List.length_map] at h
        rw [h]
        split <;> simp
      obtain ⟨hnodup', hlength', hmem⟩ := ih (put f out) hnodup
      refine ⟨hnodup', ?_, fun g hg => ?_⟩
      · rw [List.foldl_cons, List.length_cons]
        omega
      · rcases hmem g hg with hg | hg
        · rcases mem_put hg with rfl | hg
          · exact .inr (List.mem_cons_self ..)
          · exact .inl hg
        · exact .inr (List.mem_cons_of_mem f hg)
  obtain ⟨hnodup, hlength, hmem⟩ := hfold fs [] List.nodup_nil
  exact ⟨hnodup, hlength.trans (Nat.le_of_eq (Nat.zero_add _)),
    fun f hf => (hmem f hf).resolve_left List.not_mem_nil⟩

namespace Ensures

section

variable {stream : Bytes} {value : Read Encoded} (hvalue : Ensures stream value (·.ReadFrom stream))

include hvalue

theorem array : Ensures stream (Read.array value) (·.ReadFrom stream) := by
  refine bind component fun c hc => bind length fun n hn => ?_
  have hgeneral : (∀ t, c ≠ .scalar t) →
      Ensures stream (Read.times value n >>= fun vs => Pure.pure (Encoded.array c vs))
        (·.ReadFrom stream) := by
    intro hne
    refine bind (times hvalue n) fun vs ⟨hlength, hvs⟩ => pure ?_
    obtain ⟨hwithin, hdistinct, hspelled⟩ := Encoded.all_readFrom hvs
    exact ⟨⟨hlength ▸ hn, fun t ht => absurd ht (hne t), hwithin⟩, hdistinct,
      List.forall_mem_append.2 ⟨hc, hspelled⟩⟩
  cases c with
  | scalar t =>
    have hread : Ensures stream (Encoded.boxed <$> Read.scalar t) fun v =>
        ∃ s : Scalar, v = .boxed s ∧ s.type = t := map (scalar t) fun s hs => ⟨s, rfl, hs⟩
    refine bind (times hread n) fun vs ⟨hlength, hvs⟩ => pure ?_
    have hboxed : ∀ v ∈ vs, v.ReadFrom stream := by
      intro v hv
      obtain ⟨s, rfl, _⟩ := hvs v hv
      exact ⟨trivial, trivial, fun _ => nofun⟩
    obtain ⟨hwithin, hdistinct, hspelled⟩ := Encoded.all_readFrom hboxed
    refine ⟨⟨hlength ▸ hn, fun t' ht' => ?_, hwithin⟩, hdistinct,
      List.forall_mem_append.2 ⟨hc, hspelled⟩⟩
    cases ht'
    exact hvs
  | _ => exact hgeneral fun t => nofun

theorem field : Ensures stream (Read.field value) (·.ReadFrom stream) := by
  refine bind id fun i hi => get fun s => ?_
  split
  · exact throw _
  · next b _ _ =>
    refine bind (tag b) fun t _ => ?_
    have hfield : Ensures stream (value >>= fun v => Pure.pure (Field.value i v))
        (·.ReadFrom stream) := by
      refine bind hvalue fun v hv => pure ⟨hv.within, hv.distinct, ?_⟩
      exact List.forall_mem_cons.2 ⟨hi, hv.spelled⟩
    cases t with
    | scalar t =>
      refine bind byte fun _ _ => bind (scalar t) fun s _ => pure ⟨trivial, trivial, ?_⟩
      exact fun id hid => List.mem_singleton.1 hid ▸ hi
    | _ => exact hfield

theorem object : Ensures stream (Read.object value) (·.ReadFrom stream) := by
  refine bind id fun t ht => bind count fun n hn => ?_
  refine bind (times (field hvalue) n) fun fs hfs => pure ?_
  obtain ⟨hnodup, hlength, hmem⟩ := Fields.ofList_spec fs
  obtain ⟨hwithin, hdistinct, hspelled⟩ := Field.all_readFrom fun f hf => hfs.2 f (hmem f hf)
  exact ⟨⟨hlength.trans (hfs.1 ▸ hn), hwithin⟩, ⟨hnodup, hdistinct⟩,
    List.forall_mem_cons.2 ⟨ht, hspelled⟩⟩

theorem body (t : Tag) : Ensures stream (Read.body value t) (·.ReadFrom stream) := by
  cases t with
  | boxed t => exact map (scalar t) fun s _ => ⟨trivial, trivial, fun _ => nofun⟩
  | string =>
    refine bind length fun n hn => bind (text n) fun s hs => pure ⟨?_, trivial, fun _ => nofun⟩
    exact hs.trans_lt hn
  | array => exact array hvalue
  | enum =>
    refine bind id fun t ht => bind id fun i hi => pure ⟨trivial, trivial, ?_⟩
    exact List.forall_mem_cons.2 ⟨ht, fun id hid => List.mem_singleton.1 hid ▸ hi⟩
  | typeLiteral => exact map component fun c hc => ⟨trivial, trivial, hc⟩
  | object => exact object hvalue
  | null | reference | scalar => exact throw _

end

variable {stream : Bytes}

/-- What is noted of values that began is no part of what is read. -/
theorem begin {β : Type} {Q : β → Prop} {m : Mark} {f : Nat → Read β}
    (hf : ∀ n, Ensures stream (f n) Q) : Ensures stream (Read.begin m >>= f) Q := by
  intro s s' b hs hread
  exact hf s.marks.size { s with marks := s.marks.push m } s' b ⟨hs.stream, hs.rest, hs.ids⟩ hread

theorem finish (number : Nat) : Ensures stream (Read.finish number) fun _ => True := by
  intro s s' _ hs hread
  cases hread
  exact ⟨⟨hs.stream, hs.rest, hs.ids⟩, trivial⟩

theorem value {follow : Nat → Read Encoded}
    (hfollow : ∀ number, Ensures stream (follow number) (·.ReadFrom stream))
    (fuel : Nat) : Ensures stream (Read.value follow fuel) (·.ReadFrom stream) := by
  induction fuel with
  | zero => exact throw _
  | succ fuel ih =>
    rw [Read.value, Read.valueWith]
    refine get fun s => get fun s' => bind byte fun b _ => bind (tag b) fun t _ => ?_
    have hbody : ∀ m : Mark, Ensures stream (Read.begin m >>= fun number => do
        let v ← Read.body (Read.value follow fuel) t
        Read.finish number
        return v) (·.ReadFrom stream) := fun m => begin fun number =>
      bind (body ih t) fun v hv => bind (finish number) fun _ _ => pure hv
    cases t with
    | null => exact pure ⟨trivial, trivial, fun _ => nofun⟩
    | reference => exact bind length fun n _ => hfollow n
    | scalar t => exact throw _
    | _ => exact hbody _

/-- A reference is followed inside the same stream. -/
theorem followWith {read : Nat → Read Encoded}
    (hread : ∀ fuel, Ensures stream (read fuel) (·.ReadFrom stream)) (number : Nat) :
    Ensures stream (Read.followWith read number) (·.ReadFrom stream) := by
  intro s s' v hs hfollow
  unfold Read.followWith at hfollow
  split at hfollow
  · cases hfollow
  · next m _ =>
    split at hfollow
    · dsimp only at hfollow
      have hinside : (s.again m number).Inside stream := by
        refine ⟨hs.stream, (List.drop_suffix m.offset _).isInfix.trans hs.stream, fun id hid => ?_⟩
        obtain ⟨_, _, hget⟩ := Array.mem_extract_iff_getElem.1 hid
        exact hs.ids id (hget ▸ Array.getElem_mem _)
      split at hfollow
      · next hagain =>
        cases hfollow
        exact ⟨hs, (hread _ _ _ _ hinside hagain).2⟩
      · cases hfollow
    · cases hfollow

theorem linked (depth fuel : Nat) :
    Ensures stream (Read.linked depth fuel) (·.ReadFrom stream) := by
  induction depth generalizing fuel with
  | zero => exact throw _
  | succ depth ih => exact value (followWith ih) fuel

end Ensures

/-! ## Whole streams -/

theorem Source.inside_of_ofBytes {bytes : Bytes} {s : Source} (h : Source.ofBytes bytes = .ok s) :
    s.Inside bytes := by
  have hstart : Source.Inside bytes ⟨bytes, 0, bytes, 0, #[], #[]⟩ :=
    ⟨List.infix_refl bytes, List.infix_refl bytes, fun _ => nofun⟩
  unfold Source.ofBytes at h
  dsimp only at h
  cases hmagic : Read.number 4 ⟨bytes, 0, bytes, 0, #[], #[]⟩ with
  | error e => rw [hmagic] at h; cases h
  | ok r =>
    obtain ⟨found, s₁⟩ := r
    obtain ⟨hs₁, -⟩ := Ensures.number 4 _ s₁ found hstart hmagic
    rw [hmagic] at h
    change (if found ≠ magic then _ else _) = _ at h
    split at h
    · cases h
    · change (Read.number 2 s₁ >>= _) = _ at h
      cases hversion : Read.number 2 s₁ with
      | error e => rw [hversion] at h; cases h
      | ok r =>
        obtain ⟨version, s₂⟩ := r
        obtain ⟨hs₂, -⟩ := Ensures.number 2 s₁ s₂ version hs₁ hversion
        rw [hversion] at h
        change (if version = 0 ∨ currentVersion < version then _ else _) = _ at h
        split at h
        · cases h
        · cases h
          exact ⟨hs₂.stream, hs₂.rest, hs₂.ids⟩

theorem readFrom_of_decode {bytes : Bytes} {v : Encoded} (h : decode bytes = .ok v) :
    v.ReadFrom bytes := by
  unfold decode at h
  cases hopen : Source.ofBytes bytes with
  | error e => rw [hopen] at h; cases h
  | ok s =>
    rw [hopen] at h
    change s.toEnd = .ok v at h
    unfold Source.toEnd at h
    cases hread : Read.linked s.stream.length s.rest.length s with
    | error e => rw [hread] at h; cases h
    | ok r =>
      obtain ⟨w, s'⟩ := r
      rw [hread] at h
      change (if s'.rest.isEmpty then _ else _) = _ at h
      split at h
      · cases h
        exact (Ensures.linked _ _ s s' v (Source.inside_of_ofBytes hopen) hread).2
      · cases h

/-- The value of a stream can be written, and is read back from what is written for it. -/
theorem encode_of_decode {bytes : Bytes} {v : Encoded} (hsize : bytes.length < 2 ^ 31)
    (h : decode bytes = .ok v) : ∃ written, encode v = .ok written ∧ decode written = .ok v := by
  have hv := readFrom_of_decode h
  have hpool : Pool v.ids.toFinset := by
    refine ⟨fun id hid => (hv.spelled id (List.mem_toFinset.1 hid)).1, ?_⟩
    calc v.ids.toFinset.card
        ≤ (spelledIds bytes).card := Finset.card_le_card fun id hid =>
          (hv.spelled id (List.mem_toFinset.1 hid)).mem_spelledIds
      _ ≤ bytes.length := card_spelledIds_le bytes
      _ ≤ lengthLimit := Nat.le_of_lt hsize
  obtain ⟨written, hwritten⟩ := encode_of_within hpool hv.within fun id => List.mem_toFinset.2
  exact ⟨written, hwritten, decode_of_encode hv.distinct hwritten⟩

/-- A stream in forms that are not written: of version 1, with long numbers, an id spelled out
twice, a field that comes twice, and a reference to a value. -/
theorem encode_of_decode_marker :
    decode [0x59, 0x67, 0x67, 0x00, 0x00, 0x01, 0x80, 6, 109, 97, 114, 107, 101, 114, 0x00, 3,
        5, 118, 97, 108, 117, 101, 0x0F, 7,
        6, 109, 97, 114, 107, 101, 114, 0x20, 0, 0, 0, 1, 120,
        0xFF, 0, 0, 0, 1, 0xFF, 0x80, 1] =
      .ok (.object "marker" [.value "value" (.string "x"), .value "marker" (.string "x")]) ∧
    ∃ written,
      encode (.object "marker" [.value "value" (.string "x"), .value "marker" (.string "x")])
        = .ok written ∧
      decode written
        = .ok (.object "marker" [.value "value" (.string "x"), .value "marker" (.string "x")]) := by
  have h : decode [0x59, 0x67, 0x67, 0x00, 0x00, 0x01, 0x80, 6, 109, 97, 114, 107, 101, 114,
      0x00, 3, 5, 118, 97, 108, 117, 101, 0x0F, 7,
      6, 109, 97, 114, 107, 101, 114, 0x20, 0, 0, 0, 1, 120,
      0xFF, 0, 0, 0, 1, 0xFF, 0x80, 1] =
      .ok (.object "marker" [.value "value" (.string "x"), .value "marker" (.string "x")]) := by
    cbv
  exact ⟨h, encode_of_decode (by decide) h⟩

end ScriptStore.Codec
