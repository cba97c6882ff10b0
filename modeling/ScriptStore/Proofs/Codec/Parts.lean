import ScriptStore.Proofs.Codec.Meeting

/-!
# Values repeat part by part

A value repeats if the values inside it do, and what it refers to if it is a reference
(`Repeats.valueWith`). A field needs care, since it looks at the tag of what it holds before it reads
it: a source that ends in front of the tag has nothing left for what the tag announces, because every
value takes at least one byte (`Consumes`).

Where a value has been read, the values inside it have been read one after the other
(`Read.Meets.exists_read`, `Read.Meets.ordered`), and a second reading meets the same ones
(`Read.Meets.resembles`).
-/

namespace ScriptStore.Codec

/-! ## Readings take bytes -/

/-- Every reading takes at least one byte. -/
def Consumes {α : Type} (p : Read α) : Prop :=
  ∀ (s : Source) (a : α) (s' : Source), p s = .ok (a, s') → s.offset < s'.offset

namespace Consumes

theorem byte : Consumes Read.byte := by
  intro s b s' h
  unfold Read.byte at h
  split at h
  · cases h
  · cases h
    exact Nat.lt_succ_self _

theorem bind {α β : Type} {x : Read α} {f : α → Read β} (hx : Consumes x)
    (hf : ∀ a, Advances (f a)) : Consumes (x >>= f) := by
  intro s b s' h
  obtain ⟨a, s₁, hfirst, hnext⟩ := bind_eq_ok h
  exact (hx s a s₁ hfirst).trans_le (hf a s₁ b s' hnext).offset

theorem tag : Consumes (Read.byte >>= Read.tag) := byte.bind fun b => (Plain.tag b).advances

theorem heldScalar (i : String) (u : ScalarType) : Consumes (Read.heldScalar i u) :=
  byte.bind fun _ => ((Plain.scalar u).bind fun _ => .pure _).advances

/-- What a field holds takes at least its tag. -/
theorem of_field {p : Read Encoded} (hp : Consumes p) {s u s' : Source} {i : String} {f : Field}
    (hid : Read.id s = .ok (i, u)) (h : Read.field p s = .ok (f, s')) : u.offset < s'.offset := by
  rw [Read.field_of_id p hid] at h
  split at h
  · cases h
  · exact heldScalar _ _ _ _ _ h
  · obtain ⟨v, u₁, hvalue, h⟩ := bind_eq_ok h
    cases pure_eq_ok h
    exact hp _ _ _ hvalue

end Consumes

namespace Source

variable {s s₁ : Source} {t : Tag} {k : Nat}

theorem Opens.before (h : s.Opens t s₁) : s.Before s₁ := by
  obtain ⟨-, s₀, hshows, rfl⟩ := h
  have hbegin : s₀.Before _ := Advances.begin ⟨s.offset, s.ids.size, false⟩ s₀ _ _ rfl
  exact ((Plain.byte.bind Plain.tag).before hshows).1.trans hbegin

theorem Opens.offset_lt (h : s.Opens t s₁) : s.offset < s₁.offset := by
  obtain ⟨-, s₀, hshows, rfl⟩ := h
  exact Consumes.tag s t s₀ hshows

theorem RefersTo.before (h : s.RefersTo k s₁) : s.Before s₁ ∧ s₁.marks = s.marks := by
  obtain ⟨s₀, hshows, hlength⟩ := h
  obtain ⟨hbefore, hmarks⟩ := (Plain.byte.bind Plain.tag).before hshows
  obtain ⟨hbefore', hmarks'⟩ := Plain.length.before hlength
  exact ⟨hbefore.trans hbefore', hmarks'.trans hmarks⟩

theorem RefersTo.offset_lt (h : s.RefersTo k s₁) : s.offset < s₁.offset := by
  obtain ⟨s₀, hshows, hlength⟩ := h
  exact (Consumes.tag _ _ _ hshows).trans_le (Plain.length.before hlength).1.offset

end Source

namespace Consumes

/-- A value takes at least its tag. -/
theorem valueWith {follow : Nat → Read Encoded} {inner : Read Encoded}
    (hfollow : ∀ k, Advances (follow k)) (hinner : Advances inner) :
    Consumes (Read.valueWith follow inner) := by
  intro s v s' h
  rcases Read.valueWith_eq_ok h with ⟨hshows, -⟩ | ⟨k, s₁, hrefers, h⟩ |
    ⟨t, s₁, s₂, hopens, hbody, hfinish⟩
  · exact tag _ _ _ hshows
  · exact hrefers.offset_lt.trans_le (hfollow k _ _ _ h).offset
  · exact (hopens.offset_lt.trans_le (hinner.body t _ _ _ hbody).offset).trans_le
      (Advances.finish _ _ _ _ hfinish).offset

end Consumes

/-! ## The tag that stands next -/

namespace Source

theorem Shows.peek {s s₁ : Source} {t : Tag} (h : s.Shows t s₁) : s.peek = .ok t := by
  obtain ⟨b, s₀, hbyte, htag⟩ := bind_eq_ok h
  unfold Read.byte at hbyte
  cases hrest : s.rest with
  | nil => rw [hrest] at hbyte; cases hbyte
  | cons c rest =>
    rw [hrest] at hbyte
    cases hbyte
    rw [Source.peek, hrest]
    dsimp only
    unfold Read.tag at htag
    cases ht : Tag.ofByte? b with
    | none => rw [ht] at htag; cases htag
    | some t => rw [ht] at htag; cases pure_eq_ok htag; rfl

theorem exists_shows {s : Source} {t : Tag} (h : s.peek = .ok t) :
    ∃ s₁, s.Shows t s₁ ∧ s₁.offset = s.offset + 1 := by
  unfold Source.peek at h
  cases hrest : s.rest with
  | nil => rw [hrest] at h; cases h
  | cons b rest =>
    rw [hrest] at h
    dsimp only at h
    cases ht : Tag.ofByte? b with
    | none => rw [ht] at h; cases h
    | some t =>
      rw [ht] at h
      cases h
      refine ⟨{ s with rest, offset := s.offset + 1 }, ?_, rfl⟩
      have hbyte : Read.byte s = .ok (b, { s with rest, offset := s.offset + 1 }) := by
        simp only [Read.byte, hrest]
      rw [Source.Shows, bind_of_ok hbyte, Read.tag, ht]
      rfl

end Source

namespace Source.Resembles

variable {limit : Nat} {s t : Source}

/-- The same tag stands next. -/
theorem peek_eq (h : s.Resembles limit t) (hlimit : s.offset < limit) : t.peek = s.peek := by
  have htake := h.take_rest (n := 1) hlimit
  unfold Source.peek
  cases hs : s.rest with
  | nil =>
    cases ht : t.rest with
    | nil => rfl
    | cons b rest => simp [hs, ht] at htake
  | cons b rest =>
    cases ht : t.rest with
    | nil => simp [hs, ht] at htake
    | cons b' rest' =>
      have hb : b' = b := by simpa [hs, ht] using htake
      rw [hb]

theorem begin (h : s.Resembles limit t) (m : Mark) :
    Resembles limit { s with marks := s.marks.push m } { t with marks := t.marks.push m } :=
  ⟨h.offset, h.rest, h.stream, h.version, h.ids, by simp [h.count], h.marks.push_push h.count m⟩

end Source.Resembles

/-! ## Values repeat -/

namespace Repeats

variable {α : Type} {limit : Nat} {s : Source}

theorem finish (number : Nat) : Repeats limit s (Read.finish number) (Read.finish number) := by
  intro _ s' h
  cases h
  refine ⟨Nat.le_refl _, fun t hlike => ⟨fun _ => ⟨_, rfl, ?_, rfl⟩, fun hlimit hsize => ?_⟩⟩
  · exact ⟨hlike.offset, hlike.rest, hlike.stream, hlike.version, hlike.ids, by simp [hlike.count],
      hlike.marks.modify_modify number⟩
  · exact absurd (hlike.offset_le hsize) (Nat.not_le.2 hlimit)

theorem times {p q : Read α} {n : Nat}
    (h : ∀ i < n, ∀ as u, Read.times p i s = .ok (as, u) → Repeats limit u p q) :
    Repeats limit s (Read.times p n) (Read.times q n) := by
  induction n generalizing s with
  | zero => exact pure []
  | succ n ih =>
    refine bind (h 0 n.succ_pos [] s rfl) fun a s₁ hfirst => ?_
    refine map (a :: ·) (ih fun i hi as u hread => ?_)
    exact h (i + 1) (Nat.succ_lt_succ hi) _ u (Read.times_succ_of_ok hfirst hread)

/-- The other source is read to the same place. -/
theorem resembles {p q : Read α} {s₁ t t₁ : Source} {a b : α} (h : Repeats limit s p q)
    (hs : p s = .ok (a, s₁)) (hle : s₁.offset ≤ limit) (hlike : s.Resembles limit t)
    (ht : q t = .ok (b, t₁)) : b = a ∧ s₁.Resembles limit t₁ := by
  obtain ⟨t', ht', hlike', -⟩ := ((h a s₁ hs).2 t hlike).1 hle
  cases ht.symm.trans ht'
  exact ⟨rfl, hlike'⟩

section

variable {p q : Read Encoded} (hconsumes : Consumes p)

include hconsumes

/-- A field repeats, although it looks ahead at the tag of what it holds. -/
theorem field (h : ∀ i u, Read.id s = .ok (i, u) → u.HoldsValue → Repeats limit u p q) :
    Repeats limit s (Read.field p) (Read.field q) := by
  intro f s' hread
  obtain ⟨i, u, hid, -⟩ := bind_eq_ok hread
  obtain ⟨hle, hrepeats⟩ := Plain.id.repeats limit s i u hid
  have hlt : u.offset < s'.offset := hconsumes.of_field hid hread
  rw [Read.field_of_id p hid] at hread
  refine ⟨hle.trans hlt.le, fun t hlike => ?_⟩
  obtain ⟨hok, hend⟩ := hrepeats t hlike
  by_cases hlimit : u.offset < limit
  · -- the other source shows the same tag
    obtain ⟨y, hidt, hlike', hsize⟩ := hok hlimit.le
    rw [Read.field_of_id q hidt, hlike'.peek_eq hlimit, ← hsize]
    cases hpeek : u.peek with
    | error e => rw [hpeek] at hread; cases hread
    | ok tag =>
      rw [hpeek] at hread
      have hvalue : (∀ w, tag ≠ .scalar w) →
          Repeats limit u (p >>= fun v => Pure.pure (Field.value i v))
            (q >>= fun v => Pure.pure (Field.value i v)) :=
        fun hne => map (Field.value i) (h i u hid ⟨tag, hpeek, hne⟩)
      cases tag with
      | scalar w => exact ((Read.plain_heldScalar i w).repeats limit u f s' hread).2 y hlike'
      | _ => exact (hvalue (fun w => nofun) f s' hread).2 y hlike'
  · -- the other source ends with the id or within it
    refine ⟨fun hle => absurd (hlt.trans_le hle) hlimit, fun _ hsize => ?_⟩
    by_cases hlast : u.offset ≤ limit
    · obtain ⟨y, hidt, hlike', hsize'⟩ := hok hlast
      have hnil : y.rest = [] :=
        hlike'.rest_eq_nil (Nat.le_of_not_lt hlimit) (hsize'.le.trans hsize)
      rw [Read.field_of_id q hidt, Source.peek, hnil]
    · rw [Read.field, bind_of_error (hend (Nat.lt_of_not_le hlast) hsize)]

omit hconsumes in
theorem array (h : ∀ u, Read.Meets p .array s u → Repeats limit u p q) :
    Repeats limit s (Read.array p) (Read.array q) := by
  refine bind (Plain.component.repeats limit s) fun c s₁ hc => ?_
  refine bind (Plain.length.repeats limit s₁) fun n s₂ hn => ?_
  have hgeneral : (∀ w, c ≠ .scalar w) → Repeats limit s₂ (Read.times p n) (Read.times q n) :=
    fun hne => times fun i hi as u hread => h u (.element hc hne hn hi hread)
  cases c with
  | scalar w => exact ((((Plain.scalar w).map _).times n).map (Encoded.array _)).repeats limit s₂
  | _ => exact map (Encoded.array _) (hgeneral fun w => nofun)

theorem object (h : ∀ u, Read.Meets p .object s u → Repeats limit u p q) :
    Repeats limit s (Read.object p) (Read.object q) := by
  refine bind (Plain.id.repeats limit s) fun type s₁ htype => ?_
  refine bind (Plain.count.repeats limit s₁) fun n s₂ hn => ?_
  refine map (fun fs => Encoded.object type (Fields.ofList fs)) (times fun i hi fs s₃ hread => ?_)
  exact field hconsumes fun id u hid hvalue => h u (.field htype hn hi hread hid hvalue)

theorem body {t : Tag} (h : ∀ u, Read.Meets p t s u → Repeats limit u p q) :
    Repeats limit s (Read.body p t) (Read.body q t) := by
  cases t with
  | boxed t => exact ((Plain.scalar t).map _).repeats limit s
  | string => exact (Plain.length.bind fun n => (Plain.text n).bind fun _ => .pure _).repeats limit s
  | array => exact array h
  | enum => exact (Plain.id.bind fun _ => Plain.id.bind fun _ => .pure _).repeats limit s
  | typeLiteral => exact (Plain.component.map _).repeats limit s
  | object => exact object hconsumes h
  | null | reference | scalar => exact (Plain.throw _).repeats limit s

omit hconsumes in
/-- Both sources give a value the same number. -/
theorem begin {β : Type} {m : Mark} {f g : Nat → Read β}
    (h : Repeats limit { s with marks := s.marks.push m } (f s.marks.size) (g s.marks.size)) :
    Repeats limit s (Read.begin m >>= f) (Read.begin m >>= g) := by
  intro b s' hread
  obtain ⟨hle, h⟩ := h b s' hread
  refine ⟨hle, fun t hlike => ?_⟩
  change Repeated limit t.size b s' (g t.marks.size { t with marks := t.marks.push m })
  rw [hlike.count]
  exact h _ (hlike.begin m)

/-- **A value repeats** if the values inside it do, and what it refers to if it is a reference. -/
theorem valueWith {follow follow' : Nat → Read Encoded}
    (hinner : ∀ u, s.Meets p u → Repeats limit u p q)
    (hfollow : ∀ k s₁, s.RefersTo k s₁ → Repeats limit s₁ (follow k) (follow' k)) :
    Repeats limit s (Read.valueWith follow p) (Read.valueWith follow' q) := by
  have htag : Repeats limit s
      (Read.byte >>= Read.tag >>= Read.afterTag follow p ⟨s.offset, s.ids.size, false⟩)
      (Read.byte >>= Read.tag >>= Read.afterTag follow' q ⟨s.offset, s.ids.size, false⟩) := by
    refine bind ((Plain.byte.bind Plain.tag).repeats limit s) fun t s₁ hshows => ?_
    have hopened : t.numbered → Repeats limit s₁
        (Read.begin ⟨s.offset, s.ids.size, false⟩ >>= fun number => Read.body p t >>= fun v =>
          Read.finish number >>= fun _ => Pure.pure v)
        (Read.begin ⟨s.offset, s.ids.size, false⟩ >>= fun number => Read.body q t >>= fun v =>
          Read.finish number >>= fun _ => Pure.pure v) := by
      intro hnumbered
      refine begin (bind (body hconsumes fun u hu => ?_) fun v _ _ => ?_)
      · exact hinner u ⟨t, _, ⟨hnumbered, s₁, hshows, rfl⟩, hu⟩
      · exact bind (finish _) fun _ _ _ => pure v
    cases t with
    | null => exact pure _
    | reference =>
      refine bind (Plain.length.repeats limit s₁) fun k s₂ hlength => ?_
      exact hfollow k s₂ ⟨s₁, hshows, hlength⟩
    | scalar u => exact (Plain.throw _).repeats limit s₁
    | _ => exact hopened rfl
  intro v s' hread
  rw [Read.valueWith_eq] at hread
  obtain ⟨hle, htag⟩ := htag v s' hread
  refine ⟨hle, fun t hlike => ?_⟩
  rw [Read.valueWith_eq, hlike.offset, hlike.ids]
  exact htag t hlike

end

end Repeats

/-! ## The parts of a value that was read -/

namespace Source.Resembles

variable {limit : Nat} {s t t₁ : Source} {tag : Tag}

theorem exists_shows (h : s.Resembles limit t) (hlt : s.offset < limit) (ht : t.Shows tag t₁) :
    ∃ s₁, s.Shows tag s₁ ∧ s₁.Resembles limit t₁ := by
  obtain ⟨s₁, hs, hoffset⟩ := Source.exists_shows (h.peek_eq hlt ▸ ht.peek)
  have hrepeats := (Plain.byte.bind Plain.tag).repeats limit s
  exact ⟨s₁, hs, (hrepeats.resembles hs (by omega) h ht).2⟩

theorem exists_opens (h : s.Resembles limit t) (hlt : s.offset < limit) (ht : t.Opens tag t₁) :
    ∃ s₁, s.Opens tag s₁ ∧ s₁.Resembles limit t₁ := by
  obtain ⟨hnumbered, t₀, hshows, rfl⟩ := ht
  obtain ⟨s₀, hs, hlike⟩ := h.exists_shows hlt hshows
  rw [h.offset, h.ids]
  exact ⟨_, ⟨hnumbered, s₀, hs, rfl⟩, hlike.begin _⟩

end Source.Resembles

namespace Read

/-- Each of several readings that succeeded, with what was read before it and after it. -/
theorem times_at {α : Type} {p : Read α} {n i : Nat} {s s' : Source} {as : List α} (hp : Advances p)
    (hi : i < n) (h : times p n s = .ok (as, s')) :
    ∃ bs u a u', times p i s = .ok (bs, u) ∧ p u = .ok (a, u') ∧ u'.Before s' := by
  induction n generalizing s as i with
  | zero => exact absurd hi (Nat.not_lt_zero i)
  | succ n ih =>
    obtain ⟨a, s₁, rest, hfirst, hrest, rfl⟩ := times_succ_eq_ok h
    cases i with
    | zero => exact ⟨[], s, a, s₁, rfl, hfirst, hp.times n _ _ _ hrest⟩
    | succ i =>
      obtain ⟨bs, u, b, u', hbefore, hread, hafter⟩ := ih (Nat.lt_of_succ_lt_succ hi) hrest
      exact ⟨a :: bs, u, b, u', times_succ_of_ok hfirst hbefore, hread, hafter⟩

/-- What a field that was read holds. -/
theorem exists_of_field {p : Read Encoded} {s s' u : Source} {i : String} {f : Field}
    (hid : Read.id s = .ok (i, u)) (hvalue : u.HoldsValue) (h : field p s = .ok (f, s')) :
    ∃ w, p u = .ok (w, s') := by
  obtain ⟨t, hpeek, hscalar⟩ := hvalue
  rw [field_of_id p hid, hpeek] at h
  cases t with
  | scalar w => exact absurd rfl (hscalar w)
  | _ =>
    obtain ⟨w, u', hw, hlast⟩ := bind_eq_ok h
    cases pure_eq_ok hlast
    exact ⟨w, hw⟩

variable {p q : Read Encoded} {tag : Tag} {s s' t u w y : Source} {v : Encoded} (hp : Advances p)

include hp

/-- In a value that was read, every value inside it was read. -/
theorem Meets.exists_read (hread : body p tag s = .ok (v, s')) (hmeets : Meets p tag s u) :
    ∃ w u', p u = .ok (w, u') ∧ u'.Before s' := by
  cases hmeets with
  | element hc hne hn hi hbefore =>
    obtain ⟨c', _, n', _, vs, hc', hn', hread⟩ := array_eq_ok hread
    cases hc.symm.trans hc'
    cases hn.symm.trans hn'
    rcases hread with ⟨w, rfl, -⟩ | ⟨-, hread⟩
    · exact absurd rfl (hne w)
    · obtain ⟨_, u₁, w, u', hbefore', hw, hafter⟩ := times_at hp hi hread
      cases hbefore.symm.trans hbefore'
      exact ⟨w, u', hw, hafter⟩
  | field htype hn hi hbefore hid hvalue =>
    obtain ⟨type', _, n', _, fs, htype', hn', hread⟩ := object_eq_ok hread
    cases htype.symm.trans htype'
    cases hn.symm.trans hn'
    obtain ⟨_, u₁, f, u', hbefore', hfield, hafter⟩ := times_at hp.field hi hread
    cases hbefore.symm.trans hbefore'
    obtain ⟨w, hw⟩ := exists_of_field hid hvalue hfield
    exact ⟨w, u', hw, hafter⟩

/-- Of two values inside a value, the one was read before the other was met. -/
theorem Meets.ordered (h : Meets p tag s u) (h' : Meets p tag s w) :
    u = w ∨ (∃ v u', p u = .ok (v, u') ∧ u'.Before w) ∨ ∃ v w', p w = .ok (v, w') ∧ w'.Before u := by
  cases h with
  | @element _ _ _ _ _ _ i _ hc hne hn hi hbefore =>
    cases h' with
    | @element _ _ _ _ _ _ j _ hc' hne' hn' hj hbefore' =>
      cases hc.symm.trans hc'
      cases hn.symm.trans hn'
      -- of two elements the one with the smaller index is read on the way to the other
      rcases lt_trichotomy i j with hlt | rfl | hlt
      · obtain ⟨_, _, v, u', hsame, hv, hafter⟩ := times_at hp hlt hbefore'
        cases hbefore.symm.trans hsame
        exact .inr (.inl ⟨v, u', hv, hafter⟩)
      · cases hbefore.symm.trans hbefore'
        exact .inl rfl
      · obtain ⟨_, _, v, w', hsame, hv, hafter⟩ := times_at hp hlt hbefore
        cases hbefore'.symm.trans hsame
        exact .inr (.inr ⟨v, w', hv, hafter⟩)
  | @field _ _ _ _ _ _ _ _ i _ htype hn hi hbefore hid hvalue =>
    cases h' with
    | @field _ _ _ _ _ _ _ _ j _ htype' hn' hj hbefore' hid' hvalue' =>
      cases htype.symm.trans htype'
      cases hn.symm.trans hn'
      rcases lt_trichotomy i j with hlt | rfl | hlt
      · obtain ⟨_, _, f, u', hsame, hfield, hafter⟩ := times_at hp.field hlt hbefore'
        cases hbefore.symm.trans hsame
        obtain ⟨v, hv⟩ := exists_of_field hid hvalue hfield
        exact .inr (.inl ⟨v, u', hv, hafter.trans (Plain.id.before hid').1⟩)
      · cases hbefore.symm.trans hbefore'
        cases hid.symm.trans hid'
        exact .inl rfl
      · obtain ⟨_, _, f, w', hsame, hfield, hafter⟩ := times_at hp.field hlt hbefore
        cases hbefore'.symm.trans hsame
        obtain ⟨v, hv⟩ := exists_of_field hid' hvalue' hfield
        exact .inr (.inr ⟨v, w', hv, hafter.trans (Plain.id.before hid).1⟩)

/-- Where a value that was read is read again, the same values are met. -/
theorem Meets.resembles {limit : Nat} (hconsumes : Consumes p)
    (hrepeats : ∀ u, Meets p tag s u → Repeats limit u p q)
    (hread : body p tag s = .ok (v, s')) (hle : s'.offset ≤ limit) (hlike : s.Resembles limit t)
    (hmeets : Meets q tag t y) : ∃ u, Meets p tag s u ∧ u.Resembles limit y := by
  cases hmeets with
  | element hct hne hnt hi hbefore =>
    obtain ⟨c, s₁, n, s₂, vs, hc, hn, hread⟩ := array_eq_ok hread
    -- what stands in front of the element ends before the limit, and so it is read alike
    have hle₂ : s₂.offset ≤ limit := by
      rcases hread with ⟨w, rfl, hread⟩ | ⟨-, hread⟩
      · exact (((Plain.scalar w).map _).times n |>.before hread).1.offset.trans hle
      · exact (hp.times n _ _ _ hread).offset.trans hle
    have hle₁ : s₁.offset ≤ limit := (Plain.length.before hn).1.offset.trans hle₂
    obtain ⟨rfl, hlike₁⟩ := (Plain.component.repeats limit s).resembles hc hle₁ hlike hct
    obtain ⟨rfl, hlike₂⟩ := (Plain.length.repeats limit s₁).resembles hn hle₂ hlike₁ hnt
    rcases hread with ⟨w, rfl, -⟩ | ⟨-, hread⟩
    · exact absurd rfl (hne w)
    · obtain ⟨bs, u, w, u', hbefore', hw, hafter⟩ := times_at hp hi hread
      have hleu : u.offset ≤ limit := ((hp u w u' hw).offset.trans hafter.offset).trans hle
      have hsame := Repeats.times fun j hj as x hx =>
        hrepeats x (.element hc hne hn (hj.trans hi) hx)
      exact ⟨u, .element hc hne hn hi hbefore', (hsame.resembles hbefore' hleu hlike₂ hbefore).2⟩
  | field htypet hnt hi hbefore hidt hvalue =>
    obtain ⟨type, s₁, n, s₂, fs, htype, hn, hread⟩ := object_eq_ok hread
    have hle₂ : s₂.offset ≤ limit := (hp.field.times n _ _ _ hread).offset.trans hle
    have hle₁ : s₁.offset ≤ limit := (Plain.count.before hn).1.offset.trans hle₂
    obtain ⟨-, hlike₁⟩ := (Plain.id.repeats limit s).resembles htype hle₁ hlike htypet
    obtain ⟨rfl, hlike₂⟩ := (Plain.count.repeats limit s₁).resembles hn hle₂ hlike₁ hnt
    obtain ⟨bs, u₁, f, u', hbefore', hfield, hafter⟩ := times_at hp.field hi hread
    obtain ⟨i, u, hid, -⟩ := bind_eq_ok hfield
    have hlt : u.offset < limit :=
      (hconsumes.of_field hid hfield).trans_le (hafter.offset.trans hle)
    have hle₃ : u₁.offset ≤ limit := (Plain.id.before hid).1.offset.trans hlt.le
    -- the fields before this one are read alike because the values in them are
    have hsame := Repeats.times fun j hj as x hx =>
      Repeats.field hconsumes fun i w hid hv => hrepeats w (.field htype hn (hj.trans hi) hx hid hv)
    have hlike₃ := (hsame.resembles hbefore' hle₃ hlike₂ hbefore).2
    have hlike₄ := ((Plain.id.repeats limit u₁).resembles hid hlt.le hlike₃ hidt).2
    obtain ⟨t, hpeek, hscalar⟩ := hvalue
    exact ⟨u, .field htype hn hi hbefore' hid ⟨t, hlike₄.peek_eq hlt ▸ hpeek, hscalar⟩, hlike₄⟩

end Read

end ScriptStore.Codec
