import ScriptStore.Proofs.Codec.Rereading

/-!
# No part of a stream is a stream

Where a stream is accepted, all of its bytes are read and none beyond them. A stream that has been
cut off is a source that is like the whole one up to its end, and one with bytes appended is like it
up to the end of the whole, so both are instances of readings that repeat.
-/

namespace ScriptStore.Codec

open Text (Bytes)

theorem Source.start_resembles {limit : Nat} {bytes other : Bytes}
    (h : other.take limit = bytes.take limit) : (start bytes).Resembles limit (start other) :=
  ⟨rfl, h, h, rfl, rfl, rfl, .refl _⟩

section

variable {bytes other : Bytes} {limit : Nat} (hlike : other.take limit = bytes.take limit)

include hlike

/-- The header of a stream that is like another. -/
theorem ofBytes_repeats {s : Source} (hs : Source.ofBytes bytes = .ok s) :
    (s.offset ≤ limit → ∃ t, Source.ofBytes other = .ok t ∧ s.Resembles limit t ∧
      t.size = other.length) ∧
    (limit < s.offset → other.length ≤ limit → Source.ofBytes other = .error .unexpectedEnd) := by
  rw [Source.ofBytes_eq] at hs ⊢
  obtain ⟨r, hread, rfl⟩ := map_eq_ok hs
  obtain ⟨hok, hend⟩ :=
    (Plain.heading.repeats limit _ r.1 r.2 hread).2 _ (Source.start_resembles hlike)
  have hsize : (Source.start other).size = other.length := by simp [Source.size, Source.start]
  rw [hsize] at hok hend
  refine ⟨fun hle => ?_, fun hlt hshort => ?_⟩
  · obtain ⟨t, ht, hlike', hsize'⟩ := hok hle
    refine ⟨{ t with version := r.1 }, by rw [ht]; rfl, ?_, hsize'⟩
    exact ⟨hlike'.offset, hlike'.rest, hlike'.stream, rfl, hlike'.ids, hlike'.count, hlike'.marks⟩
  · rw [hend hlt hshort]
    rfl

end

section

variable {bytes : Bytes} {v : Encoded} (h : decode bytes = .ok v)

include h

/-- A stream is read to its end. -/
theorem exists_next_of_decode : ∃ s s', Source.ofBytes bytes = .ok s ∧ s.Kept Repeatable ∧
    s.stream = bytes ∧ Read.next s = .ok (v, s') ∧ s'.offset = bytes.length := by
  obtain ⟨s, s', hs, hread, hnil⟩ := decode_eq_ok h
  obtain ⟨hkept, hstream, -⟩ := Source.ofBytes_kept Repeatable hs
  have hfull := (Read.next_keeps hkept hread).full
  rw [Source.size, hnil, (Advances.next _ _ _ hread).stream, hstream] at hfull
  exact ⟨s, s', hs, hkept, hstream, hread, hfull⟩

theorem decode_of_prefix {p : Bytes} (hp : p <+: bytes) (hlt : p.length < bytes.length) :
    decode p = .error .unexpectedEnd := by
  obtain ⟨s, s', hs, hkept, hstream, hread, hend⟩ := exists_next_of_decode h
  have hlike : p.take p.length = bytes.take p.length := by
    rw [List.take_length]
    exact List.prefix_iff_eq_take.1 hp
  obtain ⟨hok, herror⟩ := ofBytes_repeats hlike hs
  by_cases hle : s.offset ≤ p.length
  · obtain ⟨t, ht, hlike', hsize⟩ := hok hle
    have hlimit : p.length ≤ s.stream.length := by rw [hstream]; exact hlt.le
    have hrepeated := (Read.next_repeats hkept hlimit v s' hread).2 t hlike'
    exact decode_of_error ht (hrepeated.2 (by omega) hsize.le)
  · exact decode_of_header_error (herror (by omega) (Nat.le_refl _))

theorem decode_append (x : Bytes) : decode (bytes ++ x) =
    if x = [] then .ok v else .error (.trailingBytes x.length) := by
  obtain ⟨s, s', hs, hkept, hstream, hread, hend⟩ := exists_next_of_decode h
  have hlike : (bytes ++ x).take bytes.length = bytes.take bytes.length := by simp
  have hle : s.offset ≤ bytes.length := hend ▸ (Advances.next _ _ _ hread).offset
  obtain ⟨t, ht, hlike', hsize⟩ := (ofBytes_repeats hlike hs).1 hle
  have hrepeated := (Read.next_repeats hkept (by rw [hstream]) v s' hread).2 t hlike'
  obtain ⟨t', hread', hlike'', hsize'⟩ := hrepeated.1 hend.le
  -- the other source stands where the first one ended, with the rest before it
  have hlength : t'.rest.length = x.length := by
    rw [hsize, List.length_append] at hsize'
    rw [Source.size, hlike''.offset] at hsize'
    omega
  have hnil : t'.rest = [] ↔ x = [] := by
    rw [← List.length_eq_zero_iff, ← List.length_eq_zero_iff, hlength]
  rw [decode_of_next ht hread', hlength]
  simp only [hnil]

end

/-- **Truncation and excess are detected**: no stream that is accepted can be cut off or continued. -/
theorem decode_truncated_and_extended {bytes : Bytes} {v : Encoded} (h : decode bytes = .ok v) :
    (∀ p, p <+: bytes → p ≠ bytes → decode p = .error .unexpectedEnd) ∧
      ∀ x, x ≠ [] → decode (bytes ++ x) = .error (.trailingBytes x.length) := by
  refine ⟨fun p hp hne => ?_, fun x hx => ?_⟩
  · have hlt : p.length < bytes.length :=
      lt_of_le_of_ne hp.length_le fun hlength => hne (hp.eq_of_length hlength)
    exact decode_of_prefix h hp hlt
  · rw [decode_append h, if_neg hx]

/-- Two texts of which the second refers to the first; the stream without the last byte of the
reference, and with another byte behind it. -/
theorem decode_truncated_and_extended_texts :
    decode [0x59, 0x67, 0x67, 0, 0, 2, 0x30, 0x20, 0x80, 2, 0x20, 0x80, 1, 120, 0xFF, 0x80, 1] =
      .ok (.array .string [.string "x", .string "x"]) ∧
    decode [0x59, 0x67, 0x67, 0, 0, 2, 0x30, 0x20, 0x80, 2, 0x20, 0x80, 1, 120, 0xFF, 0x80] =
      .error .unexpectedEnd ∧
    decode [0x59, 0x67, 0x67, 0, 0, 2, 0x30, 0x20, 0x80, 2, 0x20, 0x80, 1, 120, 0xFF, 0x80, 1, 0] =
      .error (.trailingBytes 1) := by
  have h : decode [0x59, 0x67, 0x67, 0, 0, 2, 0x30, 0x20, 0x80, 2, 0x20, 0x80, 1, 120,
      0xFF, 0x80, 1] = .ok (.array .string [.string "x", .string "x"]) := by
    cbv
  obtain ⟨hshort, hlong⟩ := decode_truncated_and_extended h
  exact ⟨h, hshort _ ⟨[1], rfl⟩ (by simp), hlong [0] (by simp)⟩

end ScriptStore.Codec
