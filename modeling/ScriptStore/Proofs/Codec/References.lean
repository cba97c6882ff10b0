import ScriptStore.Proofs.Codec.Rereading

/-!
# What references stand for

A stream is read once from its beginning to its end, and now and then a value in it is read again,
because something refers to it. The values that are read for the first time are those that can be
reached from the outermost one (`Source.Reaches`); each numbered value among them is read for the
first time in exactly one place (`Source.First.unique`). Everything else that is read recalls such a
reading (`Source.Recalls`): it is a value that a reference names, or lies inside one, and then it was
read before the reference.

* `reference_reads_first_reading`: a reference gives the value that the first reading gave.
* `decode_terminates`: following references, and references in what they name, comes to an end.
-/

namespace ScriptStore.Codec

open Text (Bytes)

/-! ## First readings -/

namespace Source

/-- From `s₀` on, reading comes to read the value at `s` for the first time: it is the value at `s₀`,
or inside it, however deep. -/
def Reaches (s₀ s : Source) : Prop := Relation.ReflTransGen (Source.Meets Read.next) s₀ s

/-- Value `k` is read for the first time from `o` on. -/
structure First (s₀ : Source) (k : Nat) (o : Source) : Prop where
  reached : s₀.Reaches o
  number : o.marks.size = k
  opens : ∃ t s₁, o.Opens t s₁

/-- A value was read for the first time from `o` up to `o'`. -/
structure Noted (s₀ o : Source) (v : Encoded) (o' : Source) : Prop where
  first : s₀.First o.marks.size o
  kept : o.Kept Repeatable
  read : Read.next o = .ok (v, o')

variable {s₀ s s' u : Source} {v : Encoded}

theorem Kept.repeatable (h : s.Kept s₀.Noted) : s.Kept Repeatable :=
  h.mono fun _ _ _ hnoted => Read.next_repeatable hnoted.kept hnoted.read

theorem Meets.next_kept (hs : s.Kept Repeatable) (h : s.Meets Read.next u) : u.Kept Repeatable :=
  h.kept hs fun _ _ _ _ hkept hread => Read.next_keeps hkept hread

/-- The marks tell where values were read for the first time. -/
theorem Kept.next_noted (hreached : s₀.Reaches s) (hs : s.Kept s₀.Noted)
    (h : Read.next s = .ok (v, s')) : s'.Kept s₀.Noted := by
  induction hn : s.rest.length using Nat.strong_induction_on generalizing s v s' with
  | _ n ih =>
    have hread := h
    rw [Read.next_eq hs.repeatable] at hread
    refine hs.valueWith Advances.next (fun t w t' hmeets hkept hnext => ?_) hread
      fun tag s₁ hopens => ⟨⟨hreached, rfl, tag, s₁, hopens⟩, hs.repeatable, h⟩
    exact ih _ (hn ▸ hmeets.rest_length_lt .next) (hreached.tail hmeets) hkept hnext rfl

theorem Reaches.kept (h₀ : s₀.Kept s₀.Noted) (h : s₀.Reaches s) : s.Kept s₀.Noted := by
  induction h with
  | refl => exact h₀
  | tail hreached hmeets ih =>
    exact hmeets.kept ih fun t v t' ht hkept hread => hkept.next_noted (hreached.tail ht) hread

theorem Reaches.stream_eq (h : s₀.Reaches s) : s.stream = s₀.stream := by
  induction h with
  | refl => rfl
  | tail _ hmeets ih => exact (hmeets.before .next).1.stream.trans ih

/-! ## There is one first reading of each value -/

theorem Opens.size_marks {t : Tag} {s₁ : Source} (h : s.Opens t s₁) :
    s₁.marks.size = s.marks.size + 1 := by
  obtain ⟨-, s₀, hshows, rfl⟩ := h
  rw [← ((Plain.byte.bind Plain.tag).before hshows).2, Array.size_push]

theorem Meets.size_marks_lt (h : s.Meets Read.next u) : s.marks.size < u.marks.size := by
  obtain ⟨tag, s₁, hopens, hmeets⟩ := h
  have hle := (hmeets.before Advances.next).marks.size_le
  rw [hopens.size_marks] at hle
  exact hle

theorem Reaches.size_marks_le (h : s₀.Reaches s) : s₀.marks.size ≤ s.marks.size := by
  induction h with
  | refl => exact Nat.le_refl _
  | tail _ hmeets ih => exact ih.trans hmeets.size_marks_lt.le

section

variable (hs : s.Kept Repeatable) (hread : Read.next s = .ok (v, s'))

include hs hread

theorem Opens.exists_body {t : Tag} {s₁ : Source} (h : s.Opens t s₁) :
    ∃ s₂, Read.body Read.next t s₁ = .ok (v, s₂) ∧ s₂.Before s' := by
  rw [Read.next_eq hs, Read.valueWith_of_opens _ _ h] at hread
  obtain ⟨w, s₂, hbody, hread⟩ := bind_eq_ok hread
  obtain ⟨_, s₃, hfinish, hread⟩ := bind_eq_ok hread
  cases pure_eq_ok hread
  exact ⟨s₂, hbody, Advances.finish _ _ _ _ hfinish⟩

/-- In a value that was read, the values inside it were read. -/
theorem Meets.exists_next (h : s.Meets Read.next u) :
    ∃ w u', Read.next u = .ok (w, u') ∧ u'.Before s' := by
  obtain ⟨tag, s₁, hopens, hmeets⟩ := h
  obtain ⟨s₂, hbody, hbefore⟩ := hopens.exists_body hs hread
  obtain ⟨w, u', hw, hafter⟩ := hmeets.exists_read Advances.next hbody
  exact ⟨w, u', hw, hafter.trans hbefore⟩

/-- The numbers of the values inside a value come before those of what follows it. -/
theorem Reaches.size_marks_lt {o s₁ : Source} {t : Tag} (h : s.Reaches o) (hopens : o.Opens t s₁) :
    o.marks.size < s'.marks.size := by
  induction h using Relation.ReflTransGen.head_induction_on generalizing v s' with
  | refl =>
    obtain ⟨s₂, hbody, hbefore⟩ := hopens.exists_body hs hread
    have hle := ((Advances.next.body t _ _ _ hbody).trans hbefore).marks.size_le
    rw [hopens.size_marks] at hle
    exact hle
  | head hmeets _ ih =>
    obtain ⟨w, u', hw, hbefore⟩ := hmeets.exists_next hs hread
    exact (ih (hmeets.next_kept hs) hw).trans_le hbefore.marks.size_le

end

/-- Of two values inside a value, the one was read before the other was met. -/
theorem Meets.ordered {w : Source} (hu : s.Meets Read.next u) (hw : s.Meets Read.next w) :
    u = w ∨ (∃ v u', Read.next u = .ok (v, u') ∧ u'.Before w) ∨
      ∃ v w', Read.next w = .ok (v, w') ∧ w'.Before u := by
  obtain ⟨tag, s₁, ⟨-, s₀, hshows, rfl⟩, hu⟩ := hu
  obtain ⟨tag', s₁', ⟨-, s₀', hshows', rfl⟩, hw⟩ := hw
  cases hshows.symm.trans hshows'
  exact Read.Meets.ordered Advances.next hu hw

/-- **A value is read for the first time once.** Going down from the outermost value, the ways to two
first readings part at values of which one was read before the other was met, and then it has the
smaller numbers. -/
theorem First.unique {k : Nat} {o o₂ : Source} (hs : s.Kept Repeatable) (h : s.First k o)
    (h₂ : s.First k o₂) : o = o₂ := by
  obtain ⟨hreached, hk, t, s₁, hopens⟩ := h
  obtain ⟨hreached₂, hk₂, t₂, s₂, hopens₂⟩ := h₂
  induction hreached using Relation.ReflTransGen.head_induction_on with
  | refl =>
    rcases hreached₂.cases_head with rfl | ⟨u, hmeets, hu⟩
    · rfl
    · have hlt := hmeets.size_marks_lt
      have hle := Reaches.size_marks_le hu
      omega
  | @head a b hmeets hb ih =>
    rcases hreached₂.cases_head with rfl | ⟨u, hmeets₂, hu⟩
    · have hlt := hmeets.size_marks_lt
      have hle := Reaches.size_marks_le hb
      omega
    · have hle := Reaches.size_marks_le hb
      have hle₂ := Reaches.size_marks_le hu
      have hkept := hmeets.next_kept hs
      rcases hmeets.ordered hmeets₂ with rfl | ⟨v, b', hread, hbefore⟩ | ⟨v, u', hread, hbefore⟩
      · exact ih hkept hu
      · -- all numbers under `b` come before those under `u`
        have hlt := Reaches.size_marks_lt hkept hread hb hopens
        have hnext := hbefore.marks.size_le
        omega
      · -- and here the other way round
        have hlt := Reaches.size_marks_lt (hmeets₂.next_kept hs) hread hu hopens₂
        have hnext := hbefore.marks.size_le
        omega

/-! ## Readings that are done again -/

/-- A reference stands at `t`, and is followed by reading a value again from `a`. -/
def Rereads (t a : Source) : Prop :=
  ∃ k t₁ m, t.RefersTo k t₁ ∧ t₁.marks[k]? = some m ∧ m.complete = true ∧ a = t₁.again m k

/-- Reading the value at `s` takes reading the value at `t`. -/
def Calls (s t : Source) : Prop := s.Meets Read.next t ∨ s.Rereads t

/-- The value at `t` is read in the course of reading the value at `s₀`, for the first time or again,
as part of a value that is read again, and so on. -/
def Visits (s₀ t : Source) : Prop := Relation.ReflTransGen Calls s₀ t

/-- What is read from `a` on was read for the first time from `o` up to `o'`. -/
structure Recalls (s₀ a o : Source) (w : Encoded) (o' : Source) : Prop where
  reached : s₀.Reaches o
  read : Read.next o = .ok (w, o')
  alike : o.Resembles o'.offset a

section

variable (h₀ : s₀.Kept s₀.Noted) {k : Nat} {t t₁ a o o' : Source} {m : Mark}

include h₀

theorem Recalls.offset_le (h : s₀.Recalls a o v o') : o'.offset ≤ o.stream.length := by
  have hend := (Read.next_keeps (h.reached.kept h₀).repeatable h.read).offset_le
  rwa [(Advances.next _ _ _ h.read).stream] at hend

/-- What was read for the first time is read again. -/
theorem Recalls.exists_next (h : s₀.Recalls a o v o') :
    ∃ a', Read.next a = .ok (v, a') ∧ a'.offset = o'.offset := by
  have hrepeats := Read.next_repeats (h.reached.kept h₀).repeatable (h.offset_le h₀)
  obtain ⟨a', hread, hlike, -⟩ := ((hrepeats v o' h.read).2 a h.alike).1 (Nat.le_refl _)
  exact ⟨a', hread, hlike.offset⟩

/-- The parts of a value that is read again are read again. -/
theorem Recalls.meets (h : s₀.Recalls a o v o') (hu : a.Meets Read.next u) :
    ∃ y w y', s₀.Recalls u y w y' ∧ y'.offset ≤ o'.offset := by
  have hkept := (h.reached.kept h₀).repeatable
  obtain ⟨tag, a₁, hopensa, hmeets⟩ := hu
  obtain ⟨o₁, hopens, hlike⟩ := h.alike.exists_opens (Consumes.next _ _ _ h.read) hopensa
  obtain ⟨o₂, hbody, hbefore⟩ := hopens.exists_body hkept h.read
  have hrepeats : ∀ y, Read.Meets Read.next tag o₁ y → Repeats o'.offset y Read.next Read.next := by
    intro y hy
    have hmet : o.Meets Read.next y := ⟨tag, o₁, hopens, hy⟩
    refine Read.next_repeats (hmet.next_kept hkept) ?_
    rw [(hmet.before Advances.next).1.stream]
    exact h.offset_le h₀
  obtain ⟨y, hy, hlikey⟩ := hmeets.resembles Advances.next Consumes.next hrepeats hbody
    hbefore.offset hlike
  have hmet : o.Meets Read.next y := ⟨tag, o₁, hopens, hy⟩
  obtain ⟨w, y', hw, hafter⟩ := hmet.exists_next hkept h.read
  exact ⟨y, w, y', ⟨h.reached.tail hmet, hw, hlikey.mono hafter.offset⟩, hafter.offset⟩

/-- A reference that is met for the first time means a value that was read before. -/
theorem Reaches.refers (ht : s₀.Reaches t) (hk : t.RefersTo k t₁) (hm : t₁.marks[k]? = some m)
    (hc : m.complete = true) :
    ∃ o w o', s₀.First k o ∧ s₀.Recalls (t₁.again m k) o w o' ∧ o'.offset ≤ t.offset := by
  have hkept := ht.kept h₀
  obtain ⟨hbefore, hmarks⟩ := hk.before
  rw [hmarks] at hm
  obtain ⟨o, w, o', hnoted, htraced⟩ := hkept.known k m hm hc
  have hlt : k < t.marks.size := (Array.getElem?_eq_some_iff.1 hm).1
  have htraced₁ := htraced.before hbefore (hkept.ids k m hm) hlt.le (.refl m)
  exact ⟨o, w, o', htraced.number ▸ hnoted.first,
    ⟨hnoted.first.reached, hnoted.read, htraced₁.alike⟩, htraced.ends⟩

/-- A reference in a value that is read again means what it meant when it was met first. -/
theorem Recalls.refers (h : s₀.Recalls a o v o') (hk : a.RefersTo k t₁) :
    ∃ m x x', t₁.marks[k]? = some m ∧ m.complete = true ∧ s₀.First k x ∧
      s₀.Recalls (t₁.again m k) x v x' ∧ x'.offset ≤ a.offset := by
  obtain ⟨t₀, hshowst, hlengtht⟩ := hk
  obtain ⟨o₀, hshows, hlike₀⟩ := h.alike.exists_shows (Consumes.next _ _ _ h.read) hshowst
  have hfollow := h.read
  rw [Read.next_eq (h.reached.kept h₀).repeatable, Read.valueWith_of_shows _ _ hshows] at hfollow
  obtain ⟨k', o₁, hlength, hfollow⟩ := bind_eq_ok hfollow
  obtain ⟨rfl, m₀, hm₀, hc₀, b, hb⟩ := Read.followWith_eq_ok hfollow
  obtain ⟨rfl, hlike₁⟩ :=
    (Plain.length.repeats _ o₀).resembles hlength (Nat.le_refl _) hlike₀ hlengtht
  obtain ⟨m, hm, hunder⟩ := hlike₁.marks k m₀ hm₀
  obtain ⟨x, w, x', hfirst, hrecalls, hend⟩ :=
    h.reached.refers h₀ ⟨o₀, hshows, hlength⟩ hm₀ hc₀
  -- the value of the reference is that of its first reading
  obtain ⟨b', hb', -⟩ := hrecalls.exists_next h₀
  cases hb.symm.trans hb'
  refine ⟨m, x, x', hm, hunder.2.2 hc₀, hfirst, ⟨hrecalls.reached, hrecalls.read, ?_⟩, ?_⟩
  · have hle : x'.offset ≤ o'.offset := hend.trans (Advances.next _ _ _ h.read).offset
    exact hrecalls.alike.trans ((hlike₁.again hunder k).mono hle)
  · rwa [h.alike.offset]

end

/-! ## Everything that is read -/

/-- A value that is read again and that ends at `limit` or before it, or one that is read for the
first time, with the limit behind the whole stream. -/
def Within (s₀ : Source) (limit : Nat) (t : Source) : Prop :=
  (∃ o v o', s₀.Recalls t o v o' ∧ o'.offset ≤ limit) ∨ s₀.Reaches t ∧ s₀.stream.length < limit

section

variable (h₀ : s₀.Kept s₀.Noted) {limit k : Nat} {t t₁ : Source} {m : Mark}

include h₀

theorem Within.offset_lt (h : s₀.Within limit t) : t.offset < limit := by
  rcases h with ⟨o, v, o', hrecalls, hle⟩ | ⟨hreached, hlt⟩
  · rw [hrecalls.alike.offset]
    exact (Consumes.next _ _ _ hrecalls.read).trans_le hle
  · have hle := (hreached.kept h₀).offset_le
    rw [hreached.stream_eq] at hle
    exact hle.trans_lt hlt

theorem Within.meets (h : s₀.Within limit t) (hu : t.Meets Read.next u) : s₀.Within limit u := by
  rcases h with ⟨o, v, o', hrecalls, hle⟩ | ⟨hreached, hlt⟩
  · obtain ⟨y, w, y', hrecalls', hle'⟩ := hrecalls.meets h₀ hu
    exact .inl ⟨y, w, y', hrecalls', hle'.trans hle⟩
  · exact .inr ⟨hreached.tail hu, hlt⟩

/-- Whatever is referred to was read for the first time before the reference. -/
theorem Within.refers (h : s₀.Within limit t) (hk : t.RefersTo k t₁) (hm : t₁.marks[k]? = some m)
    (hc : m.complete = true) :
    ∃ o w o', s₀.First k o ∧ s₀.Recalls (t₁.again m k) o w o' ∧ o'.offset ≤ t.offset := by
  rcases h with ⟨x, v, x', hrecalls, -⟩ | ⟨hreached, -⟩
  · obtain ⟨m', o, o', hm', -, hfirst, hrecalls', hend⟩ := hrecalls.refers h₀ hk
    cases hm.symm.trans hm'
    exact ⟨o, v, o', hfirst, hrecalls', hend⟩
  · exact hreached.refers h₀ hk hm hc

theorem Within.rereads (h : s₀.Within limit t) (hu : t.Rereads u) :
    ∃ limit' < limit, s₀.Within limit' u := by
  obtain ⟨k, t₁, m, hk, hm, hc, rfl⟩ := hu
  obtain ⟨o, w, o', -, hrecalls, hend⟩ := h.refers h₀ hk hm hc
  exact ⟨o'.offset, hend.trans_lt (h.offset_lt h₀), .inl ⟨o, w, o', hrecalls, Nat.le_refl _⟩⟩

theorem Visits.within (h : s₀.Visits t) : ∃ limit, s₀.Within limit t := by
  induction h with
  | refl => exact ⟨s₀.stream.length + 1, .inr ⟨.refl, Nat.lt_succ_self _⟩⟩
  | tail _ hcalls ih =>
    obtain ⟨limit, hwithin⟩ := ih
    rcases hcalls with hmeets | hrereads
    · exact ⟨limit, hwithin.meets h₀ hmeets⟩
    · obtain ⟨limit', -, hwithin'⟩ := hwithin.rereads h₀ hrereads
      exact ⟨limit', hwithin'⟩

/-- **Readings do not call for one another forever.** A value inside another has fewer bytes left,
and a value that is read again ends before the reference to it. -/
theorem Within.acc (h : s₀.Within limit t) : Acc (fun b a => a.Calls b) t := by
  -- on the limit first, and then on the bytes that are left
  induction limit using Nat.strong_induction_on generalizing t with
  | _ limit ih =>
    induction hn : t.rest.length using Nat.strong_induction_on generalizing t with
    | _ n ihn =>
      refine .intro t fun u hcalls => ?_
      rcases hcalls with hmeets | hrereads
      · exact ihn _ (hn ▸ hmeets.rest_length_lt .next) (h.meets h₀ hmeets) rfl
      · obtain ⟨limit', hlt, hwithin⟩ := h.rereads h₀ hrereads
        exact ih limit' hlt hwithin

end

/-- If a value is read, so are the values inside it, however deep. -/
theorem Reaches.exists_next (hs : s.Kept Repeatable) (hread : Read.next s = .ok (v, s'))
    (h : s.Reaches u) : ∃ w u', Read.next u = .ok (w, u') := by
  induction h using Relation.ReflTransGen.head_induction_on generalizing v s' with
  | refl => exact ⟨v, s', hread⟩
  | head hmeets _ ih =>
    obtain ⟨w, u', hw, -⟩ := hmeets.exists_next hs hread
    exact ih (hmeets.next_kept hs) hw

/-- Behind a reference that was followed. -/
theorem RefersTo.next_eq_ok {k : Nat} {s₁ : Source} (h : s.RefersTo k s₁)
    (hread : Read.next s = .ok (v, s')) : s' = s₁ := by
  obtain ⟨s₀, hshows, hlength⟩ := h
  unfold Read.next at hread
  generalize s.stream.length = depth at hread
  generalize s.rest.length = fuel at hread
  cases depth with
  | zero => cases hread
  | succ depth =>
    cases fuel with
    | zero => cases hread
    | succ fuel =>
      rw [Read.linked_succ, Read.valueWith_of_shows _ _ hshows] at hread
      change (Read.length >>= _) s₀ = _ at hread
      rw [bind_of_ok hlength] at hread
      exact (Read.followWith_eq_ok hread).1

end Source

/-! ## A stream with references -/

/-- An array of three arrays: one of a number, one that refers to that number, and a reference to the
second one. -/
def sharedArrays : Bytes :=
  [0x59, 0x67, 0x67, 0, 0, 2, 0x30, 0x30, 0x11, 0x80, 3, 0x30, 0x11, 0x80, 1, 0x11, 7,
    0x30, 0x11, 0x80, 1, 0xFF, 0x80, 2, 0xFF, 0x80, 3]

/-- The marks in front of the third array. -/
def sharedMarks : Array Mark := #[⟨6, 0, false⟩, ⟨11, 0, true⟩, ⟨15, 0, true⟩, ⟨17, 0, true⟩]

/-- Some way into the stream, which has no shared ids. -/
def Source.intoShared (offset : Nat) (marks : Array Mark) : Source :=
  ⟨sharedArrays, offset, sharedArrays.drop offset, 2, #[], marks⟩

theorem decode_sharedArrays : Source.ofBytes sharedArrays = .ok (.intoShared 6 #[]) ∧
    decode sharedArrays = .ok (.array (.array (.boxed .byte))
      (List.replicate 3 (.array (.boxed .byte) [.boxed (.byte 7)]))) := by
  refine ⟨?_, ?_⟩ <;> cbv

theorem sharedArrays_meets :
    (Source.intoShared 6 #[]).Meets Read.next (.intoShared 24 sharedMarks) := by
  have hshows : (Read.byte >>= Read.tag) (.intoShared 6 #[]) = .ok (.array, .intoShared 7 #[]) := by
    cbv
  have hc : Read.component (.intoShared 7 #[⟨6, 0, false⟩]) =
      .ok (.array (.boxed .byte), .intoShared 9 #[⟨6, 0, false⟩]) := by
    cbv
  have hn : Read.length (.intoShared 9 #[⟨6, 0, false⟩]) =
      .ok (3, .intoShared 11 #[⟨6, 0, false⟩]) := by
    cbv
  have helements : Read.times Read.next 2 (.intoShared 11 #[⟨6, 0, false⟩]) =
      .ok (List.replicate 2 (.array (.boxed .byte) [.boxed (.byte 7)]),
        .intoShared 24 sharedMarks) := by
    cbv
  have hne : ∀ u, Component.array (.boxed .byte) ≠ .scalar u := by
    intro u h
    cases h
  exact ⟨.array, _, ⟨rfl, _, hshows, rfl⟩, .element hc hne hn (by omega) helements⟩

theorem sharedArrays_refersTo :
    (Source.intoShared 24 sharedMarks).RefersTo 3 (.intoShared 27 sharedMarks) := by
  have hshows : (Read.byte >>= Read.tag) (.intoShared 24 sharedMarks) =
      .ok (.reference, .intoShared 25 sharedMarks) := by
    cbv
  have hlength : Read.length (.intoShared 25 sharedMarks) =
      .ok (3, .intoShared 27 sharedMarks) := by
    cbv
  exact ⟨_, hshows, hlength⟩

/-! ## References and what they name -/

/-- **References decode to what they name.** Wherever the reading of a stream that is accepted comes
to a reference, in a value that is read for the first time or again, the value that it names was read
for the first time in one place, and is read again with the same result, although only the shared ids
and the values are known that were known there. -/
theorem reference_reads_first_reading {bytes : Bytes} {v : Encoded} {s₀ t t₁ : Source} {k : Nat}
    (hdecode : decode bytes = .ok v) (hs₀ : Source.ofBytes bytes = .ok s₀) (ht : s₀.Visits t)
    (hk : t.RefersTo k t₁) :
    ∃ o w o' m a, s₀.First k o ∧ (∀ o₂, s₀.First k o₂ → o₂ = o) ∧ Read.next o = .ok (w, o') ∧
      t₁.marks[k]? = some m ∧ m.complete = true ∧ Read.next (t₁.again m k) = .ok (w, a) ∧
      Read.next t = .ok (w, t₁) := by
  obtain ⟨s, s', hs, hread, -⟩ := decode_eq_ok hdecode
  cases hs.symm.trans hs₀
  have h₀ : s₀.Kept s₀.Noted := (Source.ofBytes_kept _ hs₀).1
  have hkept := h₀.repeatable
  -- everything that is read was read for the first time with success
  have hrecalls : ∃ o w o', s₀.Recalls t o w o' := by
    obtain ⟨limit, ⟨o, w, o', hrecalls, -⟩ | ⟨hreached, -⟩⟩ := ht.within h₀
    · exact ⟨o, w, o', hrecalls⟩
    · obtain ⟨w, t', hw⟩ := hreached.exists_next hkept hread
      exact ⟨t, w, t', hreached, hw, .refl _ _⟩
  obtain ⟨x, w, x', hrecalls⟩ := hrecalls
  obtain ⟨m, o, o', hm, hc, hfirst, hrecalls', -⟩ := hrecalls.refers h₀ hk
  obtain ⟨a, ha, -⟩ := hrecalls'.exists_next h₀
  obtain ⟨t', ht', -⟩ := hrecalls.exists_next h₀
  cases hk.next_eq_ok ht'
  exact ⟨o, w, o', m, a, hfirst, fun o₂ h₂ => h₂.unique hkept hfirst, hrecalls'.read, hm, hc, ha, ht'⟩

/-- The third array is read as the second one, with its reference. -/
theorem reference_reads_first_reading_shared : ∃ o o' m a, (Source.intoShared 6 #[]).First 3 o ∧
    Read.next o = .ok (.array (.boxed .byte) [.boxed (.byte 7)], o') ∧ sharedMarks[3]? = some m ∧
      Read.next ((Source.intoShared 27 sharedMarks).again m 3) =
        .ok (.array (.boxed .byte) [.boxed (.byte 7)], a) := by
  have hvalue : Read.next (.intoShared 24 sharedMarks) =
      .ok (.array (.boxed .byte) [.boxed (.byte 7)], .intoShared 27 sharedMarks) := by
    cbv
  obtain ⟨o, w, o', m, a, hfirst, -, ho, hm, -, ha, ht⟩ :=
    reference_reads_first_reading decode_sharedArrays.2 decode_sharedArrays.1
      (.single (.inl sharedArrays_meets)) sharedArrays_refersTo
  cases hvalue.symm.trans ht
  exact ⟨o, o', m, a, hfirst, ho, hm, ha⟩

/-! ## Reading ends -/

/-- The reader without bounds, one level of it: the values inside a value are read by `below`, and
those that are referred to. -/
def Read.level (below : Read Encoded) : Read Encoded := valueWith (followWith fun _ => below) below

/-- Levels on levels are a reader that goes deep. -/
theorem Deep.iterate_level (below : Read Encoded) {limit n depth : Nat}
    (h : n + limit * limit < depth) : Deep limit n (Read.level^[depth] below) := by
  induction depth generalizing limit n with
  | zero => omega
  | succ depth ih =>
    rw [Function.iterate_succ_apply']
    cases n with
    | zero => exact .bottom (.inr rfl) fun _ => valueWith_nil _ _
    | succ n =>
      refine .level (ih (by omega)) fun l hl m fuel hm _ => ih ?_
      have hsquare : (l + 1) * (l + 1) ≤ limit * limit := Nat.mul_le_mul hl hl
      rw [Nat.succ_mul, Nat.mul_succ] at hsquare
      omega

theorem decodeWith_iterate_level {bytes : Bytes} {depth : Nat}
    (hdepth : bytes.length + bytes.length * bytes.length < depth) (below : Read Encoded) :
    decodeWith (Read.level^[depth] below) bytes = decode bytes := by
  cases hs : Source.ofBytes bytes with
  | error e =>
    rw [decode_of_header_error hs, decodeWith, hs]
    rfl
  | ok s =>
    obtain ⟨hkept, hstream, -⟩ := Source.ofBytes_kept Repeatable hs
    have hfull := hkept.full
    rw [Source.size, hstream] at hfull
    have hdeep : Deep s.stream.length s.rest.length (Read.level^[depth] below) := by
      rw [hstream]
      exact Deep.iterate_level below (by omega)
    have hsame : (Read.level^[depth] below) s = Read.next s :=
      eq_linked hkept hdeep (Nat.le_refl _)
    rw [decode_eq, decodeWith, decodeWith, hs]
    change ((Read.level^[depth] below) s >>= _) = _
    rw [hsame]
    rfl

/-- **Reading ends on every input**, with a value or an error. The reader without bounds comes to its
answer within finitely many levels, whatever would be below them. Every reference that it follows
leads to a value that has been read to its end before the reference, so that no chain of readings that
call for one another goes on forever. -/
theorem decode_terminates (bytes : Bytes) :
    (∀ depth > bytes.length + bytes.length * bytes.length, ∀ below,
      decodeWith (Read.level^[depth] below) bytes = decode bytes) ∧
    ∀ s₀, Source.ofBytes bytes = .ok s₀ →
      (∀ t k t₁ m, s₀.Visits t → t.RefersTo k t₁ → t₁.marks[k]? = some m → m.complete = true →
        ∃ v a, Read.next (t₁.again m k) = .ok (v, a) ∧ m.offset < a.offset ∧ a.offset ≤ t.offset) ∧
      Acc (fun b a => a.Calls b) s₀ := by
  refine ⟨fun depth hdepth below => decodeWith_iterate_level hdepth below, fun s₀ hs₀ => ?_⟩
  have h₀ : s₀.Kept s₀.Noted := (Source.ofBytes_kept _ hs₀).1
  refine ⟨fun t k t₁ m ht hk hm hc => ?_, ?_⟩
  · obtain ⟨limit, hwithin⟩ := ht.within h₀
    obtain ⟨o, w, o', -, hrecalls, hend⟩ := hwithin.refers h₀ hk hm hc
    obtain ⟨a, ha, hoffset⟩ := hrecalls.exists_next h₀
    have hbegin : m.offset = o.offset := hrecalls.alike.offset
    have hlt := Consumes.next _ _ _ hrecalls.read
    exact ⟨w, a, ha, by omega, by omega⟩
  · exact Source.Within.acc h₀ (.inr ⟨.refl, Nat.lt_succ_self _⟩)

/-- The second array lies in front of the reference to it. -/
theorem decode_terminates_shared :
    decodeWith (Read.level^[757] (throw .unexpectedEnd)) sharedArrays = .ok (.array
      (.array (.boxed .byte)) (List.replicate 3 (.array (.boxed .byte) [.boxed (.byte 7)]))) ∧
    ∃ v a, Read.next ((Source.intoShared 27 sharedMarks).again ⟨17, 0, true⟩ 3) = .ok (v, a) ∧
      17 < a.offset ∧ a.offset ≤ 24 := by
  obtain ⟨hlevels, hfollows⟩ := decode_terminates sharedArrays
  refine ⟨(hlevels 757 (by decide) _).trans decode_sharedArrays.2, ?_⟩
  exact (hfollows _ decode_sharedArrays.1).1 _ 3 _ ⟨17, 0, true⟩ (.single (.inl sharedArrays_meets))
    sharedArrays_refersTo rfl rfl

end ScriptStore.Codec
