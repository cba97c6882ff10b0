import Mathlib
import ScriptStore.Codec.Reader
import ScriptStore.Proofs.Text.Utf8

/-!
# What reading makes of written bytes

`Yields` says what a reading step does where certain bytes stand next: it consumes exactly them, and
takes the table of shared ids from one state to another. Steps that are done one after the other
consume the bytes one after the other, so a whole value is put together from its parts as it was
written. The numbers, texts and ids of a stream are the parts treated here.
-/

namespace ScriptStore.Codec

open Text (Bytes)

/-! ## Steps that succeed -/

section Steps

variable {σ α β : Type}

theorem bind_eq_ok {x : StateT σ (Except Error) α} {f : α → StateT σ (Except Error) β} {s : σ}
    {r : β × σ} (h : (x >>= f) s = .ok r) : ∃ a s', x s = .ok (a, s') ∧ f a s' = .ok r := by
  change (x s >>= fun p => f p.1 p.2) = .ok r at h
  cases hx : x s with
  | error e => rw [hx] at h; cases h
  | ok p => rw [hx] at h; exact ⟨p.1, p.2, rfl, h⟩

theorem bind_of_ok {x : StateT σ (Except Error) α} {f : α → StateT σ (Except Error) β} {s s' : σ}
    {a : α} (h : x s = .ok (a, s')) : (x >>= f) s = f a s' := by
  change (x s >>= fun p => f p.1 p.2) = _
  rw [h]
  rfl

theorem pure_eq_ok {a : α} {s : σ} {r : α × σ}
    (h : (pure a : StateT σ (Except Error) α) s = .ok r) : r = (a, s) :=
  (Except.ok.inj h).symm

theorem map_eq_ok {x : Except Error α} {f : α → β} {b : β} (h : x.map f = .ok b) :
    ∃ a, x = .ok a ∧ f a = b := by
  cases x with
  | error e => cases h
  | ok a => exact ⟨a, rfl, Except.ok.inj h⟩

end Steps

/-! ## The calculus of reading -/

/-- In a stream of the given version, where `bytes` stand next and `ids` are the shared ids known,
`read` consumes just those bytes, gives `a`, and knows the shared ids `ids'` afterwards. -/
def Yields {α : Type} (version : Nat) (read : Read α) (ids : List String) (bytes : Bytes) (a : α)
    (ids' : List String) : Prop :=
  ∀ (s : Source) (rest : Bytes), s.version = version → s.ids.toList = ids → s.rest = bytes ++ rest →
    ∃ s' : Source, read s = .ok (a, s') ∧ s'.version = version ∧ s'.ids.toList = ids' ∧ s'.rest = rest

namespace Yields

variable {α β : Type} {version : Nat} {ids ids₁ ids₂ : List String} {b₁ b₂ : Bytes} {a : α} {b : β}

theorem pure (a : α) : Yields version (pure a) ids [] a ids := by
  intro s rest hv hi hr
  exact ⟨s, rfl, hv, hi, hr⟩

theorem bind {m : Read α} {f : α → Read β} (hm : Yields version m ids b₁ a ids₁)
    (hf : Yields version (f a) ids₁ b₂ b ids₂) :
    Yields version (m >>= f) ids (b₁ ++ b₂) b ids₂ := by
  intro s rest hv hi hr
  rw [List.append_assoc] at hr
  obtain ⟨s₁, h₁, hv₁, hi₁, hr₁⟩ := hm s (b₂ ++ rest) hv hi hr
  obtain ⟨s₂, h₂, hv₂, hi₂, hr₂⟩ := hf s₁ rest hv₁ hi₁ hr₁
  exact ⟨s₂, (bind_of_ok h₁).trans h₂, hv₂, hi₂, hr₂⟩

theorem bind_nil {m : Read α} {f : α → Read β} (hm : Yields version m ids b₁ a ids₁)
    (hf : Yields version (f a) ids₁ [] b ids₂) : Yields version (m >>= f) ids b₁ b ids₂ := by
  have h := bind hm hf
  rwa [List.append_nil] at h

/-- A last step that only computes consumes nothing. -/
theorem map {m : Read α} (f : α → β) (hm : Yields version m ids b₁ a ids₁) :
    Yields version (f <$> m) ids b₁ (f a) ids₁ := by
  intro s rest hv hi hr
  obtain ⟨s₁, h₁, hv₁, hi₁, hr₁⟩ := hm s rest hv hi hr
  refine ⟨s₁, ?_, hv₁, hi₁, hr₁⟩
  change (m s >>= fun p => Except.ok (f p.1, p.2)) = _
  rw [h₁]
  rfl

/-- A step that looks at the source first may use what is known of it. -/
theorem get {f : Source → Read β}
    (hf : ∀ s : Source, s.version = version → s.ids.toList = ids → (∃ rest, s.rest = b₁ ++ rest) →
      Yields version (f s) ids b₁ b ids₁) :
    Yields version (get >>= f) ids b₁ b ids₁ := by
  intro s rest hv hi hr
  exact hf s hv hi ⟨rest, hr⟩ s rest hv hi hr

theorem byte (c : UInt8) : Yields version Read.byte ids [c] c ids := by
  intro s rest hv hi hr
  refine ⟨{ s with rest, offset := s.offset + 1 }, ?_, hv, hi, rfl⟩
  rw [List.singleton_append] at hr
  simp only [Read.byte, hr]

theorem take {bytes : Bytes} {n : Nat} (h : bytes.length = n) :
    Yields version (Read.take n) ids bytes bytes ids := by
  intro s rest hv hi hr
  refine ⟨{ s with rest, offset := s.offset + n }, ?_, hv, hi, rfl⟩
  subst h
  simp only [Read.take, hr, List.take_left, List.drop_left]
  rw [if_neg (Nat.lt_irrefl _)]

/-! ## Numbers -/

theorem bigEndian_succ (w n : Nat) :
    bigEndian (w + 1) n = UInt8.ofNat (n / 256 ^ w) :: bigEndian w n := rfl

theorem ofBigEndian_foldl (width n start : Nat) :
    (bigEndian width n).foldl (fun m b => 256 * m + b.toNat) start =
      256 ^ width * start + n % 256 ^ width := by
  induction width generalizing start with
  | zero => simp [bigEndian, Nat.mod_one]
  | succ w ih =>
    have hmod : n % 256 ^ (w + 1) = n % 256 ^ w + 256 ^ w * (n / 256 ^ w % 256) := by
      rw [Nat.pow_succ, Nat.mod_mul]
    have hbyte : (UInt8.ofNat (n / 256 ^ w)).toNat = n / 256 ^ w % 256 := UInt8.toNat_ofNat'
    rw [bigEndian_succ, List.foldl_cons, ih, hmod, hbyte, Nat.pow_succ, Nat.mul_add, Nat.mul_assoc]
    omega

theorem ofBigEndian_bigEndian (width n : Nat) :
    Read.ofBigEndian (bigEndian width n) = n % 256 ^ width := by
  rw [Read.ofBigEndian, ofBigEndian_foldl]
  omega

@[simp] theorem length_bigEndian (width n : Nat) : (bigEndian width n).length = width := by
  induction width with
  | zero => rfl
  | succ w ih => rw [bigEndian, List.length_cons, ih]

/-- Of a number that is too large for its bytes, the lowest are read. -/
theorem number (width n : Nat) :
    Yields version (Read.number width) ids (bigEndian width n) (n % 256 ^ width) ids := by
  have ht : Yields version (Read.take width) ids (bigEndian width n) (bigEndian width n) ids :=
    take (length_bigEndian width n)
  have h := map Read.ofBigEndian ht
  rwa [ofBigEndian_bigEndian] at h

/-- Whether the high bit of a first byte is set tells the short form from the long one. -/
theorem highBit_iff {n : Nat} (h : n < 256) : (0x80 : UInt8) ≤ UInt8.ofNat n ↔ 0x80 ≤ n := by
  rw [UInt8.le_iff_toNat_le, Text.Utf8.toNat_byte h]
  rfl

theorem count {n : Nat} (h : n ≤ maxFields) :
    Yields version Read.count ids (countBytes n) n ids := by
  unfold maxFields at h
  unfold countBytes
  split
  · -- one byte
    refine bind_nil (byte _) ?_
    rw [if_pos ((highBit_iff (by omega)).mpr (by omega)), Text.Utf8.toNat_byte (by omega),
      Nat.add_sub_cancel_left]
    exact pure n
  · -- two bytes
    change Yields version Read.count ids ([UInt8.ofNat (n / 256)] ++ bigEndian 1 n) n ids
    refine bind (byte _) ?_
    rw [if_neg (by rw [highBit_iff (by omega)]; omega), Text.Utf8.toNat_byte (by omega)]
    have h₁ : Yields version _ ids _ _ ids := map (fun low => 256 * (n / 256) + low) (number 1 n)
    have hn : 256 * (n / 256) + n % 256 ^ 1 = n := by omega
    rw [hn] at h₁
    exact h₁

theorem length {n : Nat} {bytes : Bytes} (h : lengthBytes n = .ok bytes) :
    Yields version Read.length ids bytes n ids := by
  unfold lengthBytes at h
  split at h
  · -- two bytes
    cases h
    change Yields version Read.length ids
      ([UInt8.ofNat ((0x8000 + n) / 256)] ++ bigEndian 1 (0x8000 + n)) n ids
    refine bind (byte _) ?_
    rw [if_pos ((highBit_iff (by omega)).mpr (by omega)), Text.Utf8.toNat_byte (by omega)]
    have h₁ : Yields version _ ids _ _ ids :=
      map (fun low => 256 * ((0x8000 + n) / 256 - 0x80) + low) (number 1 (0x8000 + n))
    have hn : 256 * ((0x8000 + n) / 256 - 0x80) + (0x8000 + n) % 256 ^ 1 = n := by omega
    rw [hn] at h₁
    exact h₁
  · split at h
    · -- four bytes
      cases h
      change Yields version Read.length ids ([UInt8.ofNat (n / 0x1000000)] ++ bigEndian 3 n) n ids
      refine bind (byte _) ?_
      rw [if_neg (by rw [highBit_iff (by omega)]; omega), Text.Utf8.toNat_byte (by omega)]
      have h₁ : Yields version _ ids _ _ ids :=
        map (fun low => 0x1000000 * (n / 0x1000000) + low) (number 3 n)
      have hn : 0x1000000 * (n / 0x1000000) + n % 256 ^ 3 = n := by omega
      rw [hn] at h₁
      exact h₁
    · cases h

/-- A scalar is read as what its number stands for. -/
theorem ofNumber {width n : Nat} {f : Nat → α} (hn : n < 256 ^ width) (hf : f n = a) :
    Yields version (f <$> Read.number width) ids (bigEndian width n) a ids := by
  have h : Yields version _ ids _ _ ids := map f (number width n)
  rwa [Nat.mod_eq_of_lt hn, hf] at h

theorem scalar (v : Scalar) : Yields version (Read.scalar v.type) ids v.bytes v ids := by
  cases v with
  | byte v => exact ofNumber (UInt8.toNat_lt v.toUInt8) (by simp)
  | short v => exact ofNumber (UInt16.toNat_lt v.toUInt16) (by simp)
  | int v => exact ofNumber (UInt32.toNat_lt v.toUInt32) (by simp)
  | long v => exact ofNumber (UInt64.toNat_lt v.toUInt64) (by simp)
  | float bits => exact ofNumber (UInt32.toNat_lt bits) (by simp)
  | double bits => exact ofNumber (UInt64.toNat_lt bits) (by simp)
  | char unit => exact ofNumber (UInt16.toNat_lt unit) (by simp)
  | boolean v =>
    cases v with
    | false =>
      change Yields version _ ids (bigEndian 1 0) _ ids
      exact ofNumber (by decide) rfl
    | true =>
      change Yields version _ ids (bigEndian 1 1) _ ids
      exact ofNumber (by decide) rfl

/-! ## Texts and ids -/

theorem text (s : String) :
    Yields version (Read.text (Text.toBytes s).length) ids (Text.toBytes s) s ids := by
  refine bind_nil (take rfl) ?_
  rw [Text.ofBytes_toBytes]
  exact pure s

/-- A reference by number gives the id with that number. -/
theorem idAt {id : String} {index : Nat} (hid : ids[index]? = some id) :
    Yields version (Read.idAt index) ids [] id ids := by
  refine get fun s _ hi _ => ?_
  rw [← Array.getElem?_toList, hi, hid]
  exact pure id

theorem sharedId {id : String} {index : Nat} {bytes : Bytes} (hid : ids[index]? = some id)
    (hbytes : idReference version index = .ok bytes) (hsize : version ≤ 1 → index < 2 ^ 32) :
    Yields version Read.sharedId ids bytes id ids := by
  refine get fun s hv _ _ => ?_
  rw [hv]
  unfold idReference at hbytes
  by_cases hver : version ≤ 1
  · rw [if_pos hver] at hbytes ⊢
    cases hbytes
    have h : Yields version _ ids _ _ ids := number 4 index
    have hindex : index < 256 ^ 4 := hsize hver
    rw [Nat.mod_eq_of_lt hindex] at h
    exact bind_nil h (idAt hid)
  · rw [if_neg hver] at hbytes ⊢
    exact bind_nil (length hbytes) (idAt hid)

/-- **Ids stay in step.** What writing an id does to the writer's table, reading it does to the
reader's. -/
theorem id {id : String} {bytes : Bytes} (h : writeId version id ids = .ok (bytes, ids₁))
    (hsize : version ≤ 1 → ids.length ≤ 2 ^ 32) : Yields version Read.id ids bytes id ids₁ := by
  unfold writeId at h
  split at h
  · -- known already: a reference
    rename_i index hindex
    obtain ⟨ref, href, heq⟩ := map_eq_ok h
    cases heq
    obtain ⟨hlt, hid, _⟩ := List.idxOf?_eq_some_iff.mp hindex
    have hget : ids[index]? = some id := by rw [List.getElem?_eq_getElem hlt, hid]
    refine bind (byte Tag.reference.byte) ?_
    rw [if_pos rfl]
    exact sharedId hget href fun hv => Nat.lt_of_lt_of_le hlt (hsize hv)
  · -- written out
    dsimp only at h
    split at h
    · cases h
    · rename_i hlen
      have hlt : (Text.toBytes id).length < 255 := by unfold maxIdSize at hlen; omega
      have hsz : (UInt8.ofNat (Text.toBytes id).length).toNat = (Text.toBytes id).length :=
        Text.Utf8.toNat_byte (by omega)
      cases h
      refine bind (byte (UInt8.ofNat (Text.toBytes id).length)) ?_
      rw [if_neg, hsz]
      · refine bind_nil (text id) ?_
        split
        · -- long enough to be referred to later
          intro s rest hv hi hr
          refine ⟨{ s with ids := s.ids.push id }, rfl, hv, ?_, hr⟩
          rw [Array.toList_push, hi]
        · exact pure id
      · intro hb
        have := congrArg UInt8.toNat hb
        rw [hsz] at this
        exact absurd this (by change ¬ _ = 255; omega)

/-! ## Several in a row -/

/-- Reading one part after another: the parts, what each is read as, and the ids known between
them. -/
inductive All (version : Nat) (read : Read α) : List String → Bytes → List α → List String → Prop
  | nil {ids : List String} : All version read ids [] [] ids
  | cons {ids ids₁ ids₂ : List String} {b₁ b₂ : Bytes} {a : α} {as : List α} :
      Yields version read ids b₁ a ids₁ → All version read ids₁ b₂ as ids₂ →
      All version read ids (b₁ ++ b₂) (a :: as) ids₂

theorem times {read : Read α} {bytes : Bytes} {as : List α}
    (h : All version read ids bytes as ids₁) :
    Yields version (Read.times read as.length) ids bytes as ids₁ := by
  induction h with
  | nil => exact pure []
  | cons ha _ ih => exact bind ha (map _ ih)

end Yields

end ScriptStore.Codec
