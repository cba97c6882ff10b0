import ScriptStore.Text.Utf8

/-!
# What is written as UTF-8 is read back, and nothing else is

Every character is written as one, two, three or four bytes, and cutting bytes into pieces finds
exactly that character at their front, whatever follows. So a text survives being written and read,
strictly or leniently, and bytes that are cut between characters can be read part by part. The other
way round, bytes that can be read strictly are just those that the text is written as.
-/

namespace ScriptStore.Text.Utf8

theorem toNat_byte {n : Nat} (h : n < 256) : (UInt8.ofNat n).toNat = n :=
  UInt8.toNat_ofNat_of_lt' h

/-- Code points leave out the surrogates and end at `0x10FFFF`. -/
theorem codePoint_bounds (c : Char) :
    c.toNat < 0xD800 ∨ 0xDFFF < c.toNat ∧ c.toNat < 0x110000 :=
  c.valid

theorem isContinuation_byte {n : Nat} (h : n < 64) : isContinuation (UInt8.ofNat (n + 0x80)) = true := by
  unfold isContinuation
  rw [toNat_byte (by omega)]
  simp only [Bool.and_eq_true, decide_eq_true_eq]
  omega

theorem extend_byte {m n : Nat} (h : n < 64) : extend m (UInt8.ofNat (n + 0x80)) = m * 64 + n := by
  unfold extend
  rw [toNat_byte (by omega), Nat.add_sub_cancel]

/-! ## The first piece -/

theorem pieces_one {n : Nat} (h : n < 0x80) (rest : Bytes) :
    pieces (UInt8.ofNat n :: rest) = .char (Char.ofNat n) :: pieces rest := by
  have hn : (UInt8.ofNat n).toNat = n := toNat_byte (by omega)
  rw [pieces, hn, if_pos h]

theorem pieces_two {n : Nat} (h : 0x80 ≤ n) (h' : n < 0x800) (rest : Bytes) :
    pieces (UInt8.ofNat (n / 64 % 0x20 + 0xC0) :: UInt8.ofNat (n % 0x40 + 0x80) :: rest) =
      .char (Char.ofNat n) :: pieces rest := by
  have hb : (UInt8.ofNat (n / 64 % 0x20 + 0xC0)).toNat = n / 64 + 0xC0 := by
    rw [toNat_byte (by omega)]; omega
  have hb₁ : (UInt8.ofNat (n % 0x40 + 0x80)).toNat = n % 64 + 0x80 := toNat_byte (by omega)
  have hl : lead? (n / 64 + 0xC0) = some ⟨n / 64, 1, 0x80, 0xBF⟩ := by
    unfold lead?
    rw [if_neg (by omega), if_pos (by omega), Nat.add_sub_cancel]
  rw [pieces, hb, if_neg (by omega), hl]
  simp only [hb₁]
  rw [if_neg (by simp; omega), if_pos (by decide), extend_byte (by omega)]
  congr 3
  omega

theorem pieces_three {n : Nat} (h : 0x800 ≤ n) (h' : n < 0x10000) (hs : n < 0xD800 ∨ 0xDFFF < n)
    (rest : Bytes) :
    pieces (UInt8.ofNat (n / 4096 % 0x10 + 0xE0) :: UInt8.ofNat (n / 64 % 0x40 + 0x80) ::
      UInt8.ofNat (n % 0x40 + 0x80) :: rest) = .char (Char.ofNat n) :: pieces rest := by
  have hb : (UInt8.ofNat (n / 4096 % 0x10 + 0xE0)).toNat = n / 4096 + 0xE0 := by
    rw [toNat_byte (by omega)]; omega
  have hb₁ : (UInt8.ofNat (n / 64 % 0x40 + 0x80)).toNat = n / 64 % 64 + 0x80 := toNat_byte (by omega)
  have hl : lead? (n / 4096 + 0xE0) = some ⟨n / 4096, 2,
      if n / 4096 + 0xE0 == 0xE0 then 0xA0 else 0x80,
      if n / 4096 + 0xE0 == 0xED then 0x9F else 0xBF⟩ := by
    unfold lead?
    rw [if_neg (by omega), if_neg (by omega), if_pos (by omega), Nat.add_sub_cancel]
  rw [pieces, hb, if_neg (by omega), hl]
  simp only [hb₁]
  -- the bounds on the second byte hold because `n` is at least `0x800` and no surrogate
  rw [if_neg, if_neg (by decide), isContinuation_byte (by omega), if_neg (by decide),
    if_pos (by decide), extend_byte (by omega), extend_byte (by omega)]
  · congr 3
    omega
  · simp only [beq_iff_eq, Bool.not_eq_true', Bool.not_eq_false, Bool.and_eq_true,
      decide_eq_true_eq]
    constructor
    · split <;> omega
    · split <;> omega

theorem pieces_four {n : Nat} (h : 0x10000 ≤ n) (h' : n < 0x110000) (rest : Bytes) :
    pieces (UInt8.ofNat (n / 262144 % 0x08 + 0xF0) :: UInt8.ofNat (n / 4096 % 0x40 + 0x80) ::
      UInt8.ofNat (n / 64 % 0x40 + 0x80) :: UInt8.ofNat (n % 0x40 + 0x80) :: rest) =
      .char (Char.ofNat n) :: pieces rest := by
  have hb : (UInt8.ofNat (n / 262144 % 0x08 + 0xF0)).toNat = n / 262144 + 0xF0 := by
    rw [toNat_byte (by omega)]; omega
  have hb₁ : (UInt8.ofNat (n / 4096 % 0x40 + 0x80)).toNat = n / 4096 % 64 + 0x80 :=
    toNat_byte (by omega)
  have hl : lead? (n / 262144 + 0xF0) = some ⟨n / 262144, 3,
      if n / 262144 + 0xF0 == 0xF0 then 0x90 else 0x80,
      if n / 262144 + 0xF0 == 0xF4 then 0x8F else 0xBF⟩ := by
    unfold lead?
    rw [if_neg (by omega), if_neg (by omega), if_neg (by omega), if_pos (by omega),
      Nat.add_sub_cancel]
  rw [pieces, hb, if_neg (by omega), hl]
  simp only [hb₁]
  rw [if_neg, if_neg (by decide), isContinuation_byte (by omega), if_neg (by decide),
    if_neg (by decide), isContinuation_byte (by omega), if_neg (by decide), extend_byte (by omega),
    extend_byte (by omega), extend_byte (by omega)]
  · congr 3
    omega
  · simp only [beq_iff_eq, Bool.not_eq_true', Bool.not_eq_false, Bool.and_eq_true,
      decide_eq_true_eq]
    constructor
    · split <;> omega
    · split <;> omega

/-- A written character is the first piece of what it begins. -/
theorem pieces_char (c : Char) (rest : Bytes) :
    pieces (String.utf8EncodeChar c ++ rest) = .char c :: pieces rest := by
  have hc : Char.ofNat c.toNat = c := Char.ofNat_toNat c
  have hb := codePoint_bounds c
  have hv : c.val.toNat = c.toNat := rfl
  simp only [String.utf8EncodeChar, hv]
  split
  · rw [List.cons_append, List.nil_append, pieces_one (by omega), hc]
  · split
    · rw [List.cons_append, List.cons_append, List.nil_append, pieces_two (by omega) (by omega), hc]
    · split
      · rw [List.cons_append, List.cons_append, List.cons_append, List.nil_append,
          pieces_three (by omega) (by omega) (by omega), hc]
      · rw [List.cons_append, List.cons_append, List.cons_append, List.cons_append, List.nil_append,
          pieces_four (by omega) (by omega), hc]

theorem pieces_encode (s : List Char) (rest : Bytes) :
    pieces (encode s ++ rest) = s.map .char ++ pieces rest := by
  induction s with
  | nil => rfl
  | cons c s ih =>
    rw [encode, List.flatMap_cons, List.append_assoc, pieces_char]
    rw [encode] at ih
    rw [ih]; rfl

/-! ## Bytes of ASCII

A byte below `0x80` stands for itself and is part of no other character, so text can be cut at
such bytes. -/

theorem not_ascii_byte {n k : Nat} (hk : 0x80 ≤ k) (h : n + k < 256) :
    ¬(UInt8.ofNat (n + k)).toNat < 0x80 := by
  rw [toNat_byte h]
  omega

theorem toNat_of_mem_char {c : Char} {b : UInt8} (h : b ∈ String.utf8EncodeChar c)
    (hb : b.toNat < 0x80) : c.toNat = b.toNat := by
  have hv : c.val.toNat = c.toNat := rfl
  simp only [String.utf8EncodeChar, hv] at h
  split at h
  · rw [List.mem_singleton.1 h, toNat_byte (by omega)]
  · -- all bytes of a longer spelling are marked
    exfalso
    revert hb
    split at h
    · simp only [List.mem_cons, List.not_mem_nil, or_false] at h
      rcases h with rfl | rfl <;> exact not_ascii_byte (by decide) (by omega)
    · split at h
      · simp only [List.mem_cons, List.not_mem_nil, or_false] at h
        rcases h with rfl | rfl | rfl <;> exact not_ascii_byte (by decide) (by omega)
      · simp only [List.mem_cons, List.not_mem_nil, or_false] at h
        rcases h with rfl | rfl | rfl | rfl <;> exact not_ascii_byte (by decide) (by omega)

/-! ## Whole texts -/

theorem encode_append (a b : List Char) : encode (a ++ b) = encode a ++ encode b :=
  List.flatMap_append

theorem mem_encode_ascii {s : List Char} {b : UInt8} (h : b ∈ encode s) (hb : b.toNat < 0x80) :
    Char.ofNat b.toNat ∈ s := by
  obtain ⟨c, hc, hbc⟩ := List.mem_flatMap.1 h
  rwa [← toNat_of_mem_char hbc hb, Char.ofNat_toNat]

theorem encode_eq_nil_iff {s : List Char} : encode s = [] ↔ s = [] := by
  cases s with
  | nil => simp [encode]
  | cons c s =>
    simp [encode]

theorem length_le_encode (s : List Char) : s.length ≤ (encode s).length := by
  induction s with
  | nil => exact Nat.le_refl 0
  | cons c s ih =>
    have hc := c.utf8Size_pos
    rw [encode] at ih
    rw [encode, List.flatMap_cons, List.length_append, String.length_utf8EncodeChar,
      List.length_cons]
    omega

theorem collect_chars (s : List Char) (index : Nat) : collect index (s.map .char) = .ok s := by
  induction s generalizing index with
  | nil => rfl
  | cons c s ih => rw [List.map_cons, collect, ih]

theorem decode_encode (s : List Char) : decode (encode s) = .ok s := by
  have h := pieces_encode s []
  rw [List.append_nil] at h
  rw [decode, h, pieces, List.append_nil, collect_chars]

theorem decodeLossy_encode (s : List Char) : decodeLossy (encode s) = s := by
  have h := pieces_encode s []
  rw [List.append_nil] at h
  rw [decodeLossy, h, pieces, List.append_nil, List.map_map]
  exact List.map_id s

/-! ## Bytes that are text

Of a character one spelling only is accepted, so bytes that can be read strictly are the ones that
the text is written as. -/

theorem toNat_char {n : Nat} (h : n < 0xD800 ∨ 0xDFFF < n ∧ n < 0x110000) :
    (Char.ofNat n).val.toNat = n := by
  have hvalid : n.isValidChar := h
  rw [Char.ofNat, dif_pos hvalid]
  rfl

theorem byte_eq {b : UInt8} {n : Nat} (h : b.toNat = n) : UInt8.ofNat n = b := by
  rw [← h, UInt8.ofNat_toNat]

theorem isContinuation_iff {b : UInt8} :
    isContinuation b = true ↔ 0x80 ≤ b.toNat ∧ b.toNat ≤ 0xBF := by
  rw [isContinuation, Bool.and_eq_true, decide_eq_true_eq, decide_eq_true_eq]

/-- What a first byte promises, by how many bytes follow. The bounds on the second byte are those
that keep the code point in the range of its spelling. -/
theorem lead?_eq_some {b : Nat} {l : Lead} (h : lead? b = some l) :
    (l.more = 1 ∧ 0xC2 ≤ b ∧ b < 0xE0 ∧ l.bits = b - 0xC0 ∧ l.low = 0x80 ∧ l.high = 0xBF) ∨
    (l.more = 2 ∧ 0xE0 ≤ b ∧ b < 0xF0 ∧ l.bits = b - 0xE0 ∧
      l.low = (if b = 0xE0 then 0xA0 else 0x80) ∧ l.high = (if b = 0xED then 0x9F else 0xBF)) ∨
    (l.more = 3 ∧ 0xF0 ≤ b ∧ b < 0xF5 ∧ l.bits = b - 0xF0 ∧
      l.low = (if b = 0xF0 then 0x90 else 0x80) ∧ l.high = (if b = 0xF4 then 0x8F else 0xBF)) := by
  unfold lead? at h
  split at h
  · cases h
  · split at h
    · obtain rfl := Option.some.inj h
      exact .inl ⟨rfl, by omega, by omega, rfl, rfl, rfl⟩
    · split at h
      · obtain rfl := Option.some.inj h
        exact .inr (.inl ⟨rfl, by omega, by omega, rfl, by simp only [beq_iff_eq],
          by simp only [beq_iff_eq]⟩)
      · split at h
        · obtain rfl := Option.some.inj h
          exact .inr (.inr ⟨rfl, by omega, by omega, rfl, by simp only [beq_iff_eq],
            by simp only [beq_iff_eq]⟩)
        · cases h

section Spelling

variable {b b₁ b₂ b₃ : UInt8} {l : Lead} (hl : lead? b.toNat = some l)
  (h₁ : l.low ≤ b₁.toNat ∧ b₁.toNat ≤ l.high)

include hl h₁

theorem spelling_two (hmore : l.more = 1) :
    String.utf8EncodeChar (Char.ofNat (extend l.bits b₁)) = [b, b₁] := by
  obtain ⟨_, hb, hb', hbits, hlow, hhigh⟩ | ⟨hmore', _⟩ | ⟨hmore', _⟩ := lead?_eq_some hl
  · rw [hlow, hhigh] at h₁
    obtain ⟨n, hn⟩ : ∃ n, extend l.bits b₁ = n := ⟨_, rfl⟩
    rw [hn]
    unfold extend at hn
    rw [hbits] at hn
    have hc : (Char.ofNat n).val.toNat = n := toNat_char (by omega)
    simp only [String.utf8EncodeChar, hc]
    rw [if_neg (by omega), if_pos (by omega), byte_eq (b := b) (by omega),
      byte_eq (b := b₁) (by omega)]
  · omega
  · omega

theorem spelling_three (hmore : l.more = 2) (h₂ : isContinuation b₂ = true) :
    String.utf8EncodeChar (Char.ofNat (extend (extend l.bits b₁) b₂)) = [b, b₁, b₂] := by
  rw [isContinuation_iff] at h₂
  obtain ⟨hmore', _⟩ | ⟨_, hb, hb', hbits, hlow, hhigh⟩ | ⟨hmore', _⟩ := lead?_eq_some hl
  · omega
  · rw [hlow, hhigh] at h₁
    obtain ⟨n, hn⟩ : ∃ n, extend (extend l.bits b₁) b₂ = n := ⟨_, rfl⟩
    rw [hn]
    unfold extend at hn
    rw [hbits] at hn
    -- neither a shorter spelling nor a surrogate
    have hrange : 0x80 ≤ b₁.toNat ∧ b₁.toNat ≤ 0xBF ∧ 0x800 ≤ n ∧ (n < 0xD800 ∨ 0xDFFF < n) := by
      obtain ⟨hlow₁, hhigh₁⟩ := h₁
      split at hlow₁ <;> split at hhigh₁ <;> omega
    clear h₁
    have hc : (Char.ofNat n).val.toNat = n := toNat_char (by omega)
    simp only [String.utf8EncodeChar, hc]
    rw [if_neg (by omega), if_neg (by omega), if_pos (by omega), byte_eq (b := b) (by omega),
      byte_eq (b := b₁) (by omega), byte_eq (b := b₂) (by omega)]
  · omega

theorem spelling_four (hmore : l.more ≠ 1) (hmore' : l.more ≠ 2) (h₂ : isContinuation b₂ = true)
    (h₃ : isContinuation b₃ = true) :
    String.utf8EncodeChar (Char.ofNat (extend (extend (extend l.bits b₁) b₂) b₃)) =
      [b, b₁, b₂, b₃] := by
  rw [isContinuation_iff] at h₂ h₃
  obtain ⟨heq, _⟩ | ⟨heq, _⟩ | ⟨_, hb, hb', hbits, hlow, hhigh⟩ := lead?_eq_some hl
  · exact absurd heq hmore
  · exact absurd heq hmore'
  · rw [hlow, hhigh] at h₁
    obtain ⟨n, hn⟩ : ∃ n, extend (extend (extend l.bits b₁) b₂) b₃ = n := ⟨_, rfl⟩
    rw [hn]
    unfold extend at hn
    rw [hbits] at hn
    -- neither a shorter spelling nor beyond the last code point
    have hrange : 0x80 ≤ b₁.toNat ∧ b₁.toNat ≤ 0xBF ∧ 0x10000 ≤ n ∧ n < 0x110000 := by
      obtain ⟨hlow₁, hhigh₁⟩ := h₁
      split at hlow₁ <;> split at hhigh₁ <;> omega
    clear h₁
    have hc : (Char.ofNat n).val.toNat = n := toNat_char (by omega)
    simp only [String.utf8EncodeChar, hc]
    rw [if_neg (by omega), if_neg (by omega), if_neg (by omega), byte_eq (b := b) (by omega),
      byte_eq (b := b₁) (by omega), byte_eq (b := b₂) (by omega), byte_eq (b := b₃) (by omega)]

end Spelling

/-- Bytes whose pieces are all characters are what these characters are written as. -/
theorem encode_of_pieces {bytes : Bytes} {s : List Char} (h : pieces bytes = s.map .char) :
    encode s = bytes := by
  -- the first of the characters has its bytes in front of those of the others
  have hcons : ∀ {c : Char} {rest : Bytes} (front : Bytes) {s : List Char},
      (∀ {s : List Char}, pieces rest = s.map .char → encode s = rest) →
      String.utf8EncodeChar c = front → .char c :: pieces rest = s.map Piece.char →
      encode s = front ++ rest := by
    intro c rest front s ih hfront h
    obtain ⟨c', s, rfl, hc, hs⟩ := List.map_eq_cons_iff.1 h.symm
    cases hc
    rw [encode, List.flatMap_cons, hfront]
    exact congrArg (front ++ ·) (ih hs.symm)
  have hbounds : ∀ {l : Lead} {b : UInt8},
      ¬(!(decide (l.low ≤ b.toNat) && decide (b.toNat ≤ l.high))) = true →
      l.low ≤ b.toNat ∧ b.toNat ≤ l.high := by
    intro l b hb
    simpa using hb
  fun_induction pieces bytes generalizing s with
  | case1 => rw [List.map_eq_nil_iff.1 h.symm]; rfl
  | case2 b rest hb ih =>
    refine hcons [b] ih ?_ h
    have hc : (Char.ofNat b.toNat).val.toNat = b.toNat := toNat_char (by omega)
    simp only [String.utf8EncodeChar, hc]
    rw [if_pos (by omega), byte_eq rfl]
  | case6 b _ l hl b₁ rest h₁ hmore ih =>
    exact hcons _ ih (spelling_two hl (hbounds h₁) (by simpa using hmore)) h
  | case9 b _ l hl b₁ h₁ _ b₂ rest h₂ hmore ih =>
    exact hcons _ ih (spelling_three hl (hbounds h₁) (by simpa using hmore) (by simpa using h₂)) h
  | case12 b _ l hl b₁ h₁ hmore b₂ h₂ hmore' b₃ rest h₃ ih =>
    exact hcons _ ih (spelling_four hl (hbounds h₁) (by simpa using hmore) (by simpa using hmore')
      (by simpa using h₂) (by simpa using h₃)) h
  | _ =>
    obtain ⟨_, _, _, hc, _⟩ := List.map_eq_cons_iff.1 h.symm
    cases hc

theorem pieces_of_collect {index : Nat} {ps : List Piece} {s : List Char}
    (h : collect index ps = .ok s) : ps = s.map .char := by
  induction ps generalizing index s with
  | nil => cases h; rfl
  | cons p ps ih =>
    cases p with
    | char c =>
      rw [collect] at h
      split at h
      · next s' hs =>
          cases h
          rw [List.map_cons, ← ih hs]
      · cases h
    | invalid n => cases h
    | cutShort => cases h

end Utf8

@[simp] theorem ofBytes_toBytes (s : String) : ofBytes (toBytes s) = .ok s := by
  rw [ofBytes, toBytes, Utf8.decode_encode]
  exact congrArg Except.ok String.ofList_toList

@[simp] theorem ofBytesLossy_toBytes (s : String) : ofBytesLossy (toBytes s) = s := by
  rw [ofBytesLossy, toBytes, Utf8.decodeLossy_encode, String.ofList_toList]

/-- **Bytes that can be read strictly are the bytes of the text.** -/
theorem toBytes_of_ofBytes {bytes : Bytes} {s : String} (h : ofBytes bytes = .ok s) :
    toBytes s = bytes := by
  unfold ofBytes at h
  cases hdecode : Utf8.decode bytes with
  | error f => rw [hdecode] at h; cases h
  | ok chars =>
    rw [hdecode] at h
    cases h
    rw [toBytes, String.toList_ofList]
    exact Utf8.encode_of_pieces (Utf8.pieces_of_collect hdecode)

theorem toBytes_injective : Function.Injective toBytes := by
  intro s t h
  rw [← ofBytesLossy_toBytes s, h, ofBytesLossy_toBytes]

theorem toBytes_append (s t : String) : toBytes (s ++ t) = toBytes s ++ toBytes t := by
  rw [toBytes, String.toList_append, Utf8.encode_append]
  rfl

theorem length_toBytes (s : String) : (toBytes s).length = s.utf8ByteSize := by
  have hbytes : s.toByteArray = s.toList.utf8Encode := by
    rw [← String.toByteArray_ofList, String.ofList_toList]
  rw [String.utf8ByteSize, hbytes, List.utf8Encode, List.size_toByteArray]
  rfl

end ScriptStore.Text
