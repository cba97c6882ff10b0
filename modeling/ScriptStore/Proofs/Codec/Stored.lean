import ScriptStore.Codec.Stored
import ScriptStore.Proofs.Codec.References
import ScriptStore.Proofs.Codec.Reencoding

/-!
# Stored values and their shapes

A stored value lacks what its shape and its code name say already. Writing a value under a shape
therefore has to check that it has the shape, and it does so by the bytes only: the stream of the
value has to begin with the opening. That is enough. What begins with the opening of a shape is read
as a value of that shape (`decodeStored_fits`), and the stream of every value of a shape begins with
the opening (`encodeStored_of_fits`).
-/

namespace ScriptStore.Codec

open Text (Bytes)

/-- Whether a value has a shape. Enumerations and objects have to be of the type that the code name
names. -/
def Shape.Fits (shape : Shape) (code : String) (v : Encoded) : Prop :=
  match shape, v with
  | .boxed t, .boxed s => s.type = t
  | .string, .string _ => True
  | .enum, .enum type _ => type = code
  | .object, .object type _ => type = code
  | _, _ => False

/-! ## Openings -/

theorem afterOpening?_append (opening rest : Bytes) :
    afterOpening? opening (opening ++ rest) = some rest := by
  induction opening with
  | nil => rfl
  | cons b opening ih =>
    rw [List.cons_append, afterOpening?, if_pos rfl, ih]

theorem afterOpening?_eq_some {opening bytes data : Bytes}
    (h : afterOpening? opening bytes = some data) : bytes = opening ++ data := by
  induction opening generalizing bytes with
  | nil =>
    cases h
    rfl
  | cons a opening ih =>
    cases bytes with
    | nil => cases h
    | cons b bytes =>
      rw [afterOpening?] at h
      split at h
      · next hab => rw [hab, ih h, List.cons_append]
      · cases h

/-- The tag of the values of a shape. -/
def Shape.tag : Shape → Tag
  | .boxed t => .boxed t
  | .string => .string
  | .enum => .enum
  | .object => .object

/-- The first id of a stream is spelled out. -/
theorem length_le_of_writeId {version : Nat} {id : String} {bytes : Bytes} {ids : List String}
    (h : writeId version id [] = .ok (bytes, ids)) : bytes.length ≤ 1 + maxIdSize := by
  unfold writeId at h
  rw [List.idxOf?_nil] at h
  dsimp only at h
  split at h
  · cases h
  · cases h
    rw [List.length_cons]
    omega

/-- An opening is a header, a tag and maybe a type id. -/
theorem Shape.opening_eq_ok {shape : Shape} {code : String} {opening : Bytes}
    (h : shape.opening code = .ok opening) : ∃ type,
      opening = header currentVersion ++ shape.tag.byte :: type ∧ type.length ≤ 1 + maxIdSize ∧
      (shape = .enum ∨ shape = .object → ∃ ids, writeId currentVersion code [] = .ok (type, ids)) := by
  have hnamed : ∀ t : Tag, ((writeId currentVersion code []).map fun r =>
      header currentVersion ++ [t.byte] ++ r.1) = .ok opening → ∃ type,
        opening = header currentVersion ++ t.byte :: type ∧ type.length ≤ 1 + maxIdSize ∧
        ∃ ids, writeId currentVersion code [] = .ok (type, ids) := by
    intro t ht
    obtain ⟨⟨type, ids⟩, hid, rfl⟩ := map_eq_ok ht
    exact ⟨type, by simp, length_le_of_writeId hid, ids, hid⟩
  cases shape with
  | boxed t => cases h; exact ⟨[], rfl, Nat.zero_le _, by simp⟩
  | string => cases h; exact ⟨[], rfl, Nat.zero_le _, by simp⟩
  | enum =>
    obtain ⟨type, hopening, hlength, hid⟩ := hnamed .enum h
    exact ⟨type, hopening, hlength, fun _ => hid⟩
  | object =>
    obtain ⟨type, hopening, hlength, hid⟩ := hnamed .object h
    exact ⟨type, hopening, hlength, fun _ => hid⟩

theorem encodeStored_of_opening {v : Encoded} {shape : Shape} {code : String} {opening rest : Bytes}
    (hopening : shape.opening code = .ok opening) (hbytes : encode v = .ok (opening ++ rest)) :
    encodeStored v shape code = .ok rest := by
  unfold encodeStored
  rw [hopening, hbytes]
  dsimp only [bind, Except.bind]
  rw [afterOpening?_append]
  rfl

theorem encodeStored_of_write {v : Encoded} {shape : Shape} {code : String} {rest : Bytes}
    {ids : List String} (start : Bytes) (hopening : shape.opening code = .ok (header currentVersion ++ start))
    (hwrite : v.write currentVersion [] = .ok (start ++ rest, ids)) :
    encodeStored v shape code = .ok rest := by
  refine encodeStored_of_opening hopening ?_
  rw [encode, encodeAs, hwrite, List.append_assoc]
  rfl

theorem encodeStored_eq_ok {v : Encoded} {shape : Shape} {code : String} {data : Bytes}
    (h : encodeStored v shape code = .ok data) :
    ∃ opening, shape.opening code = .ok opening ∧ encode v = .ok (opening ++ data) := by
  unfold encodeStored at h
  cases hopening : shape.opening code with
  | error e => rw [hopening] at h; cases h
  | ok opening =>
    cases hbytes : encode v with
    | error e => rw [hopening, hbytes] at h; cases h
    | ok bytes =>
      rw [hopening, hbytes] at h
      dsimp only [bind, Except.bind] at h
      split at h
      · next hafter =>
        cases h
        exact ⟨opening, rfl, by rw [afterOpening?_eq_some hafter]⟩
      · cases h

theorem decodeStored_eq_ok {data : Bytes} {shape : Shape} {code : String} {v : Encoded}
    (h : decodeStored data shape code = .ok v) :
    ∃ opening, shape.opening code = .ok opening ∧ decode (opening ++ data) = .ok v := by
  unfold decodeStored at h
  cases hopening : shape.opening code with
  | error e => rw [hopening] at h; cases h
  | ok opening =>
    rw [hopening] at h
    exact ⟨opening, rfl, h⟩

/-! ## Values of a shape -/

theorem encodeStored_boxed (s : Scalar) (code : String) :
    encodeStored (.boxed s) (.boxed s.type) code = .ok s.bytes :=
  encodeStored_of_write [(Tag.boxed s.type).byte] rfl rfl

theorem encodeStored_string {s : String} (h : (Text.toBytes s).length < lengthLimit)
    (code : String) : ∃ data, encodeStored (.string s) .string code = .ok data := by
  obtain ⟨length, hlength⟩ := writeLength_of_lt h []
  have hwrite : (Encoded.string s).write currentVersion [] =
      .ok (Tag.string.byte :: (length ++ Text.toBytes s), []) := by
    rw [Encoded.write, bind_of_ok hlength]
    rfl
  exact ⟨_, encodeStored_of_write [Tag.string.byte] rfl hwrite⟩

theorem Shape.opening_of_writeId {code : String} {type : Bytes} {ids : List String}
    (h : writeId currentVersion code [] = .ok (type, ids)) {shape : Shape}
    (hshape : shape = .enum ∨ shape = .object) :
    shape.opening code = .ok (header currentVersion ++ shape.tag.byte :: type) := by
  rcases hshape with rfl | rfl
  all_goals
    rw [Shape.opening]
    dsimp only
    rw [h]
    exact congrArg Except.ok (List.append_cons _ _ _).symm

/-- **The stream of a value of a shape begins with the opening.** -/
theorem encodeStored_of_fits {v : Encoded} {shape : Shape} {code : String} {bytes : Bytes}
    (h : encode v = .ok bytes) (hfits : shape.Fits code v) :
    ∃ data, encodeStored v shape code = .ok data := by
  obtain ⟨body, ids, hwrite, -⟩ := encodeAs_eq_ok h
  cases shape with
  | boxed t =>
    cases v with
    | boxed s =>
      cases (hfits : s.type = t)
      exact ⟨s.bytes, encodeStored_boxed s code⟩
    | _ => exact hfits.elim
  | string =>
    cases v with
    | string s =>
      obtain ⟨length, -, rfl, -⟩ := write_string hwrite
      exact ⟨_, encodeStored_of_write [Tag.string.byte] rfl hwrite⟩
    | _ => exact hfits.elim
  | enum =>
    cases v with
    | enum type constant =>
      cases (hfits : type = code)
      obtain ⟨b₁, ids₁, b₂, htype, -, rfl⟩ := write_enum hwrite
      exact ⟨b₂, encodeStored_of_write _ (Shape.opening_of_writeId htype (.inl rfl)) hwrite⟩
    | _ => exact hfits.elim
  | object =>
    cases v with
    | object type fields =>
      cases (hfits : type = code)
      obtain ⟨-, b₁, ids₁, b₂, htype, -, rfl⟩ := write_object hwrite
      rw [List.append_assoc] at hwrite
      exact ⟨_, encodeStored_of_write _ (Shape.opening_of_writeId htype (.inr rfl)) hwrite⟩
    | _ => exact hfits.elim

/-! ## What begins with an opening -/

/-- A stream that begins with the tag of numbered values holds such a value. -/
theorem exists_body_of_decode {t : Tag} {rest : Bytes} {v : Encoded} (ht : t.numbered)
    (h : decode (header currentVersion ++ t.byte :: rest) = .ok v) :
    ∃ s s', s.version = currentVersion ∧ s.ids.toList = [] ∧ s.rest = rest ∧
      Read.body Read.next t s = .ok (v, s') := by
  obtain ⟨s, s', hs, hread, -⟩ := decode_eq_ok h
  obtain ⟨hkept, -⟩ := Source.ofBytes_kept Repeatable hs
  rw [@Source.ofBytes_header currentVersion (.inr rfl)] at hs
  cases hs
  generalize header currentVersion ++ t.byte :: rest = stream at hkept hread
  have hshows : Source.Shows ⟨stream, 6, t.byte :: rest, currentVersion, #[], #[]⟩ t
      ⟨stream, 7, rest, currentVersion, #[], #[]⟩ := by
    rw [Source.Shows, bind_of_ok rfl, Read.tag, Tag.ofByte?_byte]
    rfl
  obtain ⟨s₂, hbody, -⟩ := Source.Opens.exists_body hkept hread ⟨ht, _, hshows, rfl⟩
  exact ⟨_, s₂, rfl, rfl, rfl, hbody⟩

theorem map_read_eq_ok {α β : Type} {x : Read α} {f : α → β} {s s' : Source} {b : β}
    (h : (f <$> x) s = .ok (b, s')) : ∃ a, x s = .ok (a, s') ∧ f a = b := by
  obtain ⟨a, s₁, hx, hlast⟩ := bind_eq_ok (f := fun a => pure (f a)) h
  cases pure_eq_ok hlast
  exact ⟨a, hx, rfl⟩

theorem type_of_scalar {t : ScalarType} {s s' : Source} {x : Scalar}
    (h : Read.scalar t s = .ok (x, s')) : x.type = t := by
  cases t <;>
  · obtain ⟨n, -, rfl⟩ := map_read_eq_ok h
    rfl

/-- **What begins with the opening of a shape is read as a value of the shape.** -/
theorem decodeStored_fits {shape : Shape} {code : String} {data : Bytes} {v : Encoded}
    (h : decodeStored data shape code = .ok v) : shape.Fits code v := by
  obtain ⟨opening, hopening, hdecode⟩ := decodeStored_eq_ok h
  obtain ⟨type, rfl, -, hid⟩ := Shape.opening_eq_ok hopening
  rw [List.append_assoc, List.cons_append] at hdecode
  obtain ⟨s, s', hversion, hids, hrest, hbody⟩ :=
    exists_body_of_decode (by cases shape <;> rfl) hdecode
  -- the type id is read as the code name
  have htype : shape = .enum ∨ shape = .object → ∃ s₁, Read.id s = .ok (code, s₁) := by
    intro hshape
    obtain ⟨ids, hwrite⟩ := hid hshape
    obtain ⟨s₁, hs₁, -⟩ := Yields.id hwrite (fun hle => absurd hle (by decide)) s data hversion
      hids hrest
    exact ⟨s₁, hs₁⟩
  cases shape with
  | boxed t =>
    obtain ⟨x, hx, rfl⟩ := map_read_eq_ok hbody
    exact type_of_scalar hx
  | string =>
    obtain ⟨n, s₁, -, hbody⟩ := bind_eq_ok hbody
    obtain ⟨text, s₂, -, hlast⟩ := bind_eq_ok hbody
    cases pure_eq_ok hlast
    trivial
  | enum =>
    obtain ⟨s₁, hs₁⟩ := htype (.inl rfl)
    change (Read.id >>= _) s = _ at hbody
    rw [bind_of_ok hs₁] at hbody
    obtain ⟨constant, s₂, -, hlast⟩ := bind_eq_ok hbody
    cases pure_eq_ok hlast
    exact rfl
  | object =>
    obtain ⟨s₁, hs₁⟩ := htype (.inr rfl)
    change (Read.id >>= _) s = _ at hbody
    rw [bind_of_ok hs₁] at hbody
    obtain ⟨n, s₂, -, hbody⟩ := bind_eq_ok hbody
    obtain ⟨fs, s₃, -, hlast⟩ := bind_eq_ok hbody
    cases pure_eq_ok hlast
    exact rfl

/-! ## The stored form -/

/-- What was read from a stream that is not too long can be written. -/
theorem Encoded.ReadFrom.exists_encode {stream : Bytes} {v : Encoded} (h : v.ReadFrom stream)
    (hsize : stream.length ≤ lengthLimit) : ∃ bytes, encode v = .ok bytes := by
  have hmem : v.ids.toFinset ⊆ spelledIds stream :=
    fun id hid => (h.spelled id (List.mem_toFinset.1 hid)).mem_spelledIds
  have hcard := (Finset.card_le_card hmem).trans (card_spelledIds_le stream)
  have hpool : Pool v.ids.toFinset :=
    ⟨fun id hid => (h.spelled id (List.mem_toFinset.1 hid)).1, hcard.trans hsize⟩
  exact encode_of_within hpool h.within fun id => List.mem_toFinset.2

/-- What shape and code name say already can be left out of the bytes. -/
theorem decodeStored_of_encodeStored {v : Encoded} {shape : Shape} {code : String} {data : Bytes}
    (hfields : v.DistinctFields) (h : encodeStored v shape code = .ok data) :
    decodeStored data shape code = .ok v := by
  obtain ⟨opening, hopening, hbytes⟩ := encodeStored_eq_ok h
  rw [decodeStored, hopening]
  exact decode_of_encode hfields hbytes

theorem exists_encode_of_decodeStored {data : Bytes} {shape : Shape} {code : String} {v : Encoded}
    (hsize : data.length < 2 ^ 30) (h : decodeStored data shape code = .ok v) :
    ∃ bytes, encode v = .ok bytes := by
  obtain ⟨opening, hopening, hdecode⟩ := decodeStored_eq_ok h
  obtain ⟨type, rfl, htype, -⟩ := Shape.opening_eq_ok hopening
  refine (readFrom_of_decode hdecode).exists_encode ?_
  have hheader : (header currentVersion).length = 6 := rfl
  have hmax : maxIdSize = 254 := rfl
  simp only [List.length_append, List.length_cons, lengthLimit]
  omega

/-- **The stored form of values.** Just those values can be stored under a shape and a code name that
can be written at all and have the shape, and they are read back. Whatever is read from stored bytes
has the shape, and can be stored again unless the bytes are very many. -/
theorem encodeStored_iff_fits (shape : Shape) (code : String) :
    (∀ v : Encoded, v.DistinctFields →
      ((∃ data, encodeStored v shape code = .ok data) ↔
        (∃ bytes, encode v = .ok bytes) ∧ shape.Fits code v) ∧
      ∀ data, encodeStored v shape code = .ok data → decodeStored data shape code = .ok v) ∧
    ∀ data v, data.length < 2 ^ 30 → decodeStored data shape code = .ok v →
      shape.Fits code v ∧ ∃ again, encodeStored v shape code = .ok again := by
  refine ⟨fun v hfields => ⟨⟨?_, ?_⟩, fun data => decodeStored_of_encodeStored hfields⟩, ?_⟩
  · rintro ⟨data, hdata⟩
    obtain ⟨opening, -, hbytes⟩ := encodeStored_eq_ok hdata
    exact ⟨⟨_, hbytes⟩, decodeStored_fits (decodeStored_of_encodeStored hfields hdata)⟩
  · rintro ⟨⟨bytes, hbytes⟩, hfits⟩
    exact encodeStored_of_fits hbytes hfits
  · intro data v hsize hdata
    obtain ⟨bytes, hbytes⟩ := exists_encode_of_decodeStored hsize hdata
    have hfits := decodeStored_fits hdata
    exact ⟨hfits, encodeStored_of_fits hbytes hfits⟩

/-- A length of time: the number of its fields and the one field. -/
theorem encodeStored_iff_fits_timespan :
    encodeStored (.object "timespan" [.scalar "millis" (.long 1500)]) .object "timespan" =
      .ok [0x81, 6, 109, 105, 108, 108, 105, 115, 0x04, 0, 0, 0, 0, 0, 0, 5, 220] ∧
    decodeStored [0x81, 6, 109, 105, 108, 108, 105, 115, 0x04, 0, 0, 0, 0, 0, 0, 5, 220] .object
      "timespan" = .ok (.object "timespan" [.scalar "millis" (.long 1500)]) ∧
    Shape.object.Fits "timespan" (.object "timespan" [.scalar "millis" (.long 1500)]) := by
  have hdata : encodeStored (.object "timespan" [.scalar "millis" (.long 1500)]) .object "timespan" =
      .ok [0x81, 6, 109, 105, 108, 108, 105, 115, 0x04, 0, 0, 0, 0, 0, 0, 5, 220] := by
    rfl
  obtain ⟨hstored, hread⟩ := encodeStored_iff_fits .object "timespan"
  have hfields : (Encoded.object "timespan" [.scalar "millis" (.long 1500)]).DistinctFields :=
    ⟨by decide, trivial, trivial⟩
  have hback := (hstored _ hfields).2 _ hdata
  exact ⟨hdata, hback, (hread _ _ (by decide) hback).1⟩

end ScriptStore.Codec
