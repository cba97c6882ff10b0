import ScriptStore.Proofs.Codec.Parts

/-!
# Values are read again as they were read first

A reference is followed by reading a value again, in which there may be references to values before
it, and so on. The marks of a source are right if every value that is marked as complete was read
before, by a reading that can be done again (`Source.Kept`, `Repeatable`). Readings keep the marks
right, and where the marks are right a reading repeats: `linked_repeats_and_keeps`.

How deep a reader goes is bounded twice, by the values inside one another and by the references that
lead to references. Where both bounds are large enough for what there is to read (`Deep`), they make
no difference (`eq_linked`), so that the reader of a whole stream, `Read.next`, fulfils the equation
without them (`Read.next_eq`).
-/

namespace ScriptStore.Codec

open Text (Bytes)

/-! ## Readers that follow references -/

/-- What it takes to follow a reference. -/
theorem Read.followWith_eq_ok {read : Nat → Read Encoded} {k : Nat} {s s' : Source} {v : Encoded}
    (h : followWith read k s = .ok (v, s')) :
    s' = s ∧ ∃ m, s.marks[k]? = some m ∧ m.complete = true ∧
      ∃ a, read (s.again m k).rest.length (s.again m k) = .ok (v, a) := by
  unfold followWith at h
  split at h
  · cases h
  · next m hm =>
    split at h
    · next hc =>
      dsimp only at h
      split at h
      · next hread =>
        cases h
        exact ⟨rfl, m, hm, hc, _, hread⟩
      · cases h
    · cases h

theorem Read.followWith_of_ok {read : Nat → Read Encoded} {k : Nat} {s a : Source} {v : Encoded}
    {m : Mark} (hm : s.marks[k]? = some m) (hc : m.complete = true)
    (hread : read (s.again m k).rest.length (s.again m k) = .ok (v, a)) :
    followWith read k s = .ok (v, s) := by
  unfold followWith
  rw [hm]
  dsimp only
  rw [if_pos hc, hread]

theorem Advances.followWith (read : Nat → Read Encoded) (k : Nat) :
    Advances (Read.followWith read k) := by
  intro s v s' h
  obtain ⟨rfl, -⟩ := Read.followWith_eq_ok h
  exact .refl s'

theorem Read.linked_succ (depth fuel : Nat) :
    linked (depth + 1) (fuel + 1) =
      valueWith (followWith (linked depth)) (linked (depth + 1) fuel) := rfl

theorem Advances.linked (depth fuel : Nat) : Advances (Read.linked depth fuel) := by
  cases depth with
  | zero => exact .throw _
  | succ depth =>
    induction fuel with
    | zero => exact .throw _
    | succ fuel ih => exact ih.valueWith (.followWith _)

theorem Consumes.linked (depth fuel : Nat) : Consumes (Read.linked depth fuel) := by
  intro s v s' h
  cases depth with
  | zero => cases h
  | succ depth =>
    cases fuel with
    | zero => cases h
    | succ fuel =>
      rw [Read.linked_succ] at h
      exact Consumes.valueWith (.followWith _) (.linked _ fuel) s v s' h

/-- A reader whose recursion goes deep enough for values that end at `limit` or before it, and take
up to so many bytes. Values inside a value take fewer bytes, and values that are referred to end
before. -/
inductive Deep : (limit bytes : Nat) → Read Encoded → Prop
  | bottom {limit bytes : Nat} {q : Read Encoded} : limit = 0 ∨ bytes = 0 →
      (∀ t, t.rest = [] → q t = .error .unexpectedEnd) → Deep limit bytes q
  | level {limit bytes : Nat} {read : Nat → Read Encoded} {inner : Read Encoded} :
      Deep limit bytes inner →
      (∀ l < limit, ∀ n fuel, n ≤ l → n ≤ fuel → Deep l n (read fuel)) →
      Deep limit (bytes + 1) (Read.valueWith (Read.followWith read) inner)

namespace Deep

variable {limit n : Nat} {q : Read Encoded}

theorem valueWith_nil (follow : Nat → Read Encoded) (inner : Read Encoded) {t : Source}
    (h : t.rest = []) : Read.valueWith follow inner t = .error .unexpectedEnd := by
  refine Read.valueWith_of_error follow inner (bind_of_error ?_)
  simp only [Read.byte, h]

/-- However deep a reader goes, it needs a byte. -/
theorem at_end (h : Deep limit n q) {t : Source} (ht : t.rest = []) :
    q t = .error .unexpectedEnd := by
  cases h with
  | bottom _ hend => exact hend t ht
  | level => exact valueWith_nil _ _ ht

theorem mono (h : Deep limit n q) {n' : Nat} (hle : n' ≤ n) : Deep limit n' q := by
  induction h generalizing n' with
  | bottom hor hend => exact .bottom (by omega) hend
  | level hinner hread ih _ =>
    cases n' with
    | zero => exact .bottom (.inr rfl) fun t => valueWith_nil _ _
    | succ n' => exact .level (ih (by omega)) hread

/-- A reader with bounds is as deep as its bounds are. -/
theorem linked {depth fuel : Nat} (hlimit : limit ≤ depth) (hn : n ≤ fuel) :
    Deep limit n (Read.linked depth fuel) := by
  induction depth generalizing limit n fuel with
  | zero => exact .bottom (.inl (by omega)) fun _ _ => rfl
  | succ depth ih =>
    induction fuel generalizing n with
    | zero => exact .bottom (.inr (by omega)) fun _ _ => rfl
    | succ fuel ihfuel =>
      rw [Read.linked_succ]
      refine mono (.level (ihfuel fuel.le_refl) fun l hl n fuel _ hfuel => ?_) hn
      exact ih (by omega) hfuel

end Deep

/-! ## What is noted of values -/

namespace Source

/-- Where value `k`, which `m` is the mark of, was read first: from `o` up to `o'`. -/
structure Traced (s : Source) (k : Nat) (m : Mark) (o o' : Source) : Prop where
  number : o.marks.size = k
  begins : o.offset < o'.offset
  ends : o'.offset ≤ s.offset
  alike : o.Resembles o'.offset (s.again m k)

/-- A source that stands where it says, and whose marks are right: every complete value was read to
its end before, with a reading that has the property `X`. -/
structure Kept (X : Source → Encoded → Source → Prop) (s : Source) : Prop where
  placed : s.rest = s.stream.drop s.offset
  full : s.size = s.stream.length
  ids : ∀ (i : Nat) (m : Mark), s.marks[i]? = some m → m.ids ≤ s.ids.size
  known : ∀ (k : Nat) (m : Mark), s.marks[k]? = some m → m.complete = true →
    ∃ o v o', X o v o' ∧ s.Traced k m o o'

theorem toList_take_ids (ids : Array String) (n : Nat) : (ids.take n).toList = ids.toList.take n := by
  simp

/-- A value is read again from the same place, whatever has been read in between. -/
theorem Before.again {s s' : Source} {m m' : Mark} {k : Nat} (limit : Nat) (h : s.Before s')
    (hids : m.ids ≤ s.ids.size) (hk : k ≤ s.marks.size) (hm : m.Under m') :
    (s.again m k).Resembles limit (s'.again m' k) := by
  obtain ⟨hoffset, hcount, -⟩ := hm
  have hle := h.marks.size_le
  refine ⟨hoffset, ?_, ?_, h.version, ?_, ?_, h.marks.take k⟩
  · simp only [Source.again, hoffset, h.stream]
  · simp only [Source.again, h.stream]
  · simp only [Source.again, hcount]
    apply Array.toList_inj.1
    rw [toList_take_ids, toList_take_ids]
    obtain ⟨more, hmore⟩ := h.ids
    rw [← hmore, List.take_append_of_le_length (by simpa using hids)]
  · simp only [Source.again, Array.take_eq_extract, Array.size_extract]
    omega

/-- A value that is just beginning would be read again from here. -/
theorem again_self {s : Source} (h : s.rest = s.stream.drop s.offset) :
    s.again ⟨s.offset, s.ids.size, false⟩ s.marks.size = s := by
  simp [Source.again, ← h]

theorem Resembles.again {s t : Source} {m m' : Mark} {limit : Nat} (h : s.Resembles limit t)
    (hm : m.Under m') (k : Nat) : (s.again m k).Resembles limit (t.again m' k) := by
  obtain ⟨hoffset, hids, -⟩ := hm
  refine ⟨hoffset, ?_, h.stream, h.version, ?_, ?_, h.marks.take k⟩
  · simp only [Source.again, hoffset]
    rw [← List.drop_take, ← List.drop_take, h.stream]
  · simp only [Source.again, hids, h.ids]
  · simp only [Source.again, Array.take_eq_extract, Array.size_extract, h.count]

theorem Traced.before {s s' o o' : Source} {k : Nat} {m m' : Mark} (h : s.Traced k m o o')
    (hbefore : s.Before s') (hids : m.ids ≤ s.ids.size) (hk : k ≤ s.marks.size) (hm : m.Under m') :
    s'.Traced k m' o o' :=
  ⟨h.number, h.begins, h.ends.trans hbefore.offset, h.alike.trans (hbefore.again _ hids hk hm)⟩

namespace Kept

variable {X : Source → Encoded → Source → Prop} {s s' : Source}

theorem offset_le (h : s.Kept X) : s.offset ≤ s.stream.length := by
  have hfull := h.full
  unfold Source.size at hfull
  omega

theorem mono {Y : Source → Encoded → Source → Prop} (h : s.Kept X)
    (hXY : ∀ o v o', X o v o' → Y o v o') : s.Kept Y := by
  refine ⟨h.placed, h.full, h.ids, fun k m hm hc => ?_⟩
  obtain ⟨o, v, o', hX, htraced⟩ := h.known k m hm hc
  exact ⟨o, v, o', hXY o v o' hX, htraced⟩

/-- Of a reading that goes on, only the values that have become complete matter. -/
theorem before (h : s.Kept X) (hbefore : s.Before s')
    (hids : ∀ (i : Nat) (m : Mark), s'.marks[i]? = some m → m.ids ≤ s'.ids.size)
    (hnew : ∀ (k : Nat) (m' : Mark), s'.marks[k]? = some m' → m'.complete = true →
      (∀ m, s.marks[k]? = some m → m.complete = false) →
      ∃ o v o', X o v o' ∧ s'.Traced k m' o o') : s'.Kept X := by
  refine ⟨?_, ?_, hids, fun k m' hm' hc' => ?_⟩
  · have hle := hbefore.offset
    rw [hbefore.rest, h.placed, hbefore.stream, List.drop_drop]
    congr 1
    omega
  · rw [hbefore.size, h.full, hbefore.stream]
  · by_cases hold : ∃ m, s.marks[k]? = some m ∧ m.complete = true
    · obtain ⟨m, hm, hc⟩ := hold
      obtain ⟨m₁, hm₁, hunder⟩ := hbefore.marks k m hm
      cases hm'.symm.trans hm₁
      obtain ⟨o, v, o', hX, htraced⟩ := h.known k m hm hc
      have hk : k < s.marks.size := (Array.getElem?_eq_some_iff.1 hm).1
      exact ⟨o, v, o', hX, htraced.before hbefore (h.ids k m hm) hk.le hunder⟩
    · refine hnew k m' hm' hc' fun m hm => ?_
      by_contra hc
      exact hold ⟨m, hm, by simpa using hc⟩

theorem plainly (X : Source → Encoded → Source → Prop) : KeptPlainly (Kept X) := by
  intro s s' hbefore hmarks h
  refine h.before hbefore (fun i m hm => ?_) fun k m' hm' hc' hnew => ?_
  · have hle := hbefore.ids.length_le
    rw [Array.length_toList, Array.length_toList] at hle
    exact (h.ids i m (hmarks ▸ hm)).trans hle
  · rw [hmarks] at hm'
    exact absurd (hnew m' hm') (by simp [hc'])

theorem offset_lt {k : Nat} {s₁ : Source} (h : s.Kept X) (hrefers : s.RefersTo k s₁) :
    s.offset < s.stream.length := by
  obtain ⟨hbefore, hmarks⟩ := hrefers.before
  have hle := (plainly X s s₁ hbefore hmarks h).offset_le
  rw [hbefore.stream] at hle
  exact hrefers.offset_lt.trans_le hle

/-- A value that begins is not complete. -/
theorem opened {t : Tag} {s₁ : Source} (h : s.Kept X) (hopens : s.Opens t s₁) : s₁.Kept X := by
  obtain ⟨-, s₀, hshows, rfl⟩ := hopens
  obtain ⟨hbefore, hmarks⟩ := (Plain.byte.bind Plain.tag).before hshows
  have h₀ : s₀.Kept X := plainly X s s₀ hbefore hmarks h
  have hle := hbefore.ids.length_le
  rw [Array.length_toList, Array.length_toList] at hle
  refine h₀.before (Advances.begin _ s₀ _ _ rfl) (fun i m hm => ?_) fun k m' hm' hc' hnew => ?_
  · rw [Array.getElem?_push] at hm
    split at hm
    · cases hm
      exact hle
    · exact h₀.ids i m hm
  · rw [Array.getElem?_push] at hm'
    split at hm'
    · cases hm'
      cases hc'
    · exact absurd (hnew m' hm') (by simp [hc'])

/-- **A value that has been read to its end** is where it was read. -/
theorem finished {t : Tag} {s₁ s₂ : Source} {v : Encoded} (h : s.Kept X) (hopens : s.Opens t s₁)
    (hbefore : s₁.Before s₂) (h₂ : s₂.Kept X)
    (hfinish : Read.finish s.marks.size s₂ = .ok ((), s')) (hX : X s v s') : s'.Kept X := by
  have hbefore₂ : s₂.Before s' := Advances.finish _ _ _ _ hfinish
  have hwhole : s.Before s' := (hopens.before.trans hbefore).trans hbefore₂
  have hlt : s.offset < s'.offset := hopens.offset_lt.trans_le (hbefore.trans hbefore₂).offset
  have hmark : s₁.marks[s.marks.size]? = some ⟨s.offset, s.ids.size, false⟩ := by
    obtain ⟨-, s₀, hshows, rfl⟩ := hopens
    have hmarks₀ := ((Plain.byte.bind Plain.tag).before hshows).2
    simp [← hmarks₀]
  cases hfinish
  refine h₂.before hbefore₂ (fun i m hm => ?_) fun k m' hm' hc' hnew => ?_
  · rw [Array.getElem?_modify] at hm
    split at hm
    · obtain ⟨m₀, hm₀, rfl⟩ := Option.map_eq_some_iff.1 hm
      exact h₂.ids i m₀ hm₀
    · exact h₂.ids i m hm
  · -- no other value becomes complete now
    have hk : k = s.marks.size := by
      by_contra hne
      rw [Array.getElem?_modify, if_neg (Ne.symm hne)] at hm'
      exact absurd (hnew m' hm') (by simp [hc'])
    subst hk
    obtain ⟨m₁, hm₁, hoffset, hids, -⟩ := (hbefore.trans hbefore₂).marks _ _ hmark
    cases hm'.symm.trans hm₁
    refine ⟨s, v, _, hX, rfl, hlt, Nat.le_refl _, ?_⟩
    have halike := hwhole.again s₂.offset (Nat.le_refl s.ids.size) (Nat.le_refl s.marks.size)
      (show Mark.Under ⟨s.offset, s.ids.size, false⟩ m' from ⟨hoffset, hids, nofun⟩)
    rwa [again_self h.placed] at halike

end Kept

/-! ## The values that are met -/

variable {p : Read Encoded} {s u : Source}

theorem Meets.before (hp : Advances p) (h : s.Meets p u) : s.Before u ∧ s.offset < u.offset := by
  obtain ⟨tag, s₁, hopens, hmeets⟩ := h
  have hbefore := hmeets.before hp
  exact ⟨hopens.before.trans hbefore, hopens.offset_lt.trans_le hbefore.offset⟩

theorem Meets.rest_length_lt (hp : Advances p) (h : s.Meets p u) : u.rest.length < s.rest.length := by
  obtain ⟨hbefore, hlt⟩ := h.before hp
  have hsize := hbefore.size
  unfold Source.size at hsize
  omega

theorem Meets.kept {X : Source → Encoded → Source → Prop} (hs : s.Kept X)
    (h : ∀ t v t', s.Meets p t → t.Kept X → p t = .ok (v, t') → t'.Kept X)
    (hmeets : s.Meets p u) : u.Kept X := by
  obtain ⟨tag, s₁, hopens, hmeets⟩ := hmeets
  refine hmeets.keeps (Kept.plainly X) (fun t v t' ht => ?_) (hs.opened hopens)
  exact h t v t' ⟨tag, s₁, hopens, ht⟩

end Source

/-- **What one value keeps**: if the values inside it keep the marks right, and it has been read with
the property, it keeps them right itself. -/
theorem Source.Kept.valueWith {X : Source → Encoded → Source → Prop} {read : Nat → Read Encoded}
    {inner : Read Encoded} {s s' : Source} {v : Encoded} (hs : s.Kept X) (hinner : Advances inner)
    (h : ∀ t v t', s.Meets inner t → t.Kept X → inner t = .ok (v, t') → t'.Kept X)
    (hread : Read.valueWith (Read.followWith read) inner s = .ok (v, s'))
    (hX : ∀ t s₁, s.Opens t s₁ → X s v s') : s'.Kept X := by
  have hplain := Kept.plainly X
  rcases Read.valueWith_eq_ok hread with ⟨hshows, -⟩ | ⟨k, s₁, hrefers, hfollow⟩ |
    ⟨t, s₁, s₂, hopens, hbody, hfinish⟩
  · exact Read.keeps_of_plain hplain (Plain.byte.bind Plain.tag) hshows hs
  · obtain ⟨rfl, -⟩ := Read.followWith_eq_ok hfollow
    exact hplain _ _ hrefers.before.1 hrefers.before.2 hs
  · have hs₂ : s₂.Kept X := Read.body_keeps hplain
      (fun t' w w' hmeets => h t' w w' ⟨t, s₁, hopens, hmeets⟩) (hs.opened hopens) hbody
    exact hs.finished hopens (hinner.body t _ _ _ hbody) hs₂ hfinish (hX t s₁ hopens)

/-! ## Readings that can be done again -/

/-- What was read from `o` up to `o'` is read again from every source like `o`, by every reader that
goes deep enough. -/
def Repeatable (o : Source) (v : Encoded) (o' : Source) : Prop :=
  ∀ (q : Read Encoded) (n : Nat) (t : Source), Deep o'.offset n q → o'.offset ≤ o.offset + n →
    o.Resembles o'.offset t → ∃ t', q t = .ok (v, t') ∧ o'.Resembles o'.offset t'

/-- A reader by which values are read again goes deep enough for those that end at an offset or
before it. -/
def DeepTo (offset : Nat) (read : Nat → Read Encoded) : Prop :=
  ∀ l ≤ offset, ∀ n fuel, n ≤ l → n ≤ fuel → Deep l n (read fuel)

theorem DeepTo.linked {offset depth : Nat} (h : offset ≤ depth) :
    DeepTo offset (Read.linked depth) :=
  fun _ hl _ _ _ hfuel => Deep.linked (hl.trans h) hfuel

section

variable {s s₂ : Source} {k : Nat} {m : Mark} (hs : s.Kept Repeatable) (hbefore : s.Before s₂)
  (hmarks : s₂.marks = s.marks)

include hs hbefore hmarks

/-- **A complete value is found**: whichever source is like this one, and whichever reader follows
the reference, the value is the same. -/
theorem exists_follow (hm : s₂.marks[k]? = some m) (hc : m.complete = true) :
    ∃ w, ∀ (limit : Nat) (t : Source) (read : Nat → Read Encoded), s₂.offset ≤ limit →
      s₂.Resembles limit t → DeepTo s.offset read → Read.followWith read k t = .ok (w, t) := by
  rw [hmarks] at hm
  obtain ⟨o, w, o', hrepeat, htraced⟩ := hs.known k m hm hc
  refine ⟨w, fun limit t read hlimit hlike hread => ?_⟩
  have hk : k < s.marks.size := (Array.getElem?_eq_some_iff.1 hm).1
  have htraced₂ := htraced.before hbefore (hs.ids k m hm) hk.le (.refl m)
  obtain ⟨m', hm', hunder⟩ := hlike.marks k m (hmarks ▸ hm)
  have hend : o'.offset ≤ limit := htraced₂.ends.trans hlimit
  have halike : o.Resembles o'.offset (t.again m' k) :=
    htraced₂.alike.trans ((hlike.again hunder k).mono hend)
  -- there are as many bytes as the value took
  have hlength : o'.offset - o.offset ≤ (t.again m' k).rest.length := by
    have hstream := congrArg List.length hlike.stream
    have hle := hs.offset_le
    have hends := htraced.ends
    have hoffset : m'.offset = o.offset := halike.offset
    rw [List.length_take, List.length_take, hbefore.stream] at hstream
    simp only [Source.again, List.length_drop, hoffset]
    omega
  obtain ⟨a, hread, -⟩ := hrepeat _ _ _
    (hread o'.offset htraced.ends (o'.offset - o.offset) _ (Nat.sub_le _ _) hlength) (by omega) halike
  exact Read.followWith_of_ok hm' (hunder.2.2 hc) hread

/-- How deep readers go makes no difference, once they go deep enough. -/
theorem followWith_congr {read read' : Nat → Read Encoded} (hread : DeepTo s.offset read)
    (hread' : DeepTo s.offset read') : Read.followWith read k s₂ = Read.followWith read' k s₂ := by
  cases hm : s₂.marks[k]? with
  | none => simp only [Read.followWith, hm]
  | some m =>
    by_cases hc : m.complete = true
    · obtain ⟨w, hw⟩ := exists_follow hs hbefore hmarks hm hc
      rw [hw _ s₂ read (Nat.le_refl _) (.refl _ _) hread,
        hw _ s₂ read' (Nat.le_refl _) (.refl _ _) hread']
    · simp only [Read.followWith, hm, if_neg hc]

theorem Repeats.followWith {limit : Nat} {read read' : Nat → Read Encoded}
    (hread : DeepTo s.offset read) (hread' : s₂.offset ≤ limit → DeepTo s.offset read') :
    Repeats limit s₂ (Read.followWith read k) (Read.followWith read' k) := by
  intro v s' h
  obtain ⟨rfl, m, hm, hc, -⟩ := Read.followWith_eq_ok h
  obtain ⟨w, hw⟩ := exists_follow hs hbefore hmarks hm hc
  cases h.symm.trans (hw _ s' read (Nat.le_refl _) (.refl _ _) hread)
  refine ⟨Nat.le_refl _, fun t hlike => ⟨fun hlimit => ?_, fun hlimit hsize => ?_⟩⟩
  · exact ⟨t, hw limit t read' hlimit hlike (hread' hlimit), hlike, rfl⟩
  · exact absurd (hlike.offset_le hsize) (Nat.not_le.2 hlimit)

end

/-- A reading that ends at `s'` and repeats can be done again. -/
theorem Repeatable.of_repeats {p : Read Encoded} {s s' : Source} {v : Encoded}
    (h : ∀ n q, Deep s'.offset n q → s'.offset ≤ s.offset + n → Repeats s'.offset s p q)
    (hread : p s = .ok (v, s')) : Repeatable s v s' := by
  intro q n t hq hn hlike
  obtain ⟨t', ht', hlike', -⟩ := ((h n q hq hn v s' hread).2 t hlike).1 (Nat.le_refl _)
  exact ⟨t', ht', hlike'⟩

/-- All that `p` reads from `s` is read again by readers that go deep enough. -/
def RepeatsDeep (s : Source) (p : Read Encoded) : Prop :=
  ∀ limit n q, Deep limit n q → limit ≤ s.offset + n → Repeats limit s p q

section

variable {s : Source} {d n : Nat} (hs : s.Kept Repeatable) (hd : s.stream.length = d + 1)

include hs hd

theorem RepeatsDeep.succ
    (hinner : ∀ u, s.Meets (Read.linked (d + 1) n) u → RepeatsDeep u (Read.linked (d + 1) n)) :
    RepeatsDeep s (Read.linked (d + 1) (n + 1)) := by
  intro limit b q hq hlimit
  cases hq with
  | bottom hor hend =>
    intro v s' h
    have hlt : s.offset < s'.offset := Consumes.linked _ _ s v s' h
    -- the limit is no further than `s`, so no value ends before it
    refine ⟨hlt.le, fun t hlike => ⟨fun hle => by omega, fun _ hsize => ?_⟩⟩
    exact hend t (hlike.rest_eq_nil (by omega) hsize)
  | level hlevel hread =>
    rw [Read.linked_succ]
    refine Repeats.valueWith (Consumes.linked _ _) (fun u hu => ?_) fun k s₁ hrefers => ?_
    · have hlt := (hu.before (Advances.linked _ _)).2
      exact hinner u hu _ _ _ hlevel (by omega)
    · obtain ⟨hbefore, hmarks⟩ := hrefers.before
      have hlt := hrefers.offset_lt
      have hplace := hs.offset_lt hrefers
      refine Repeats.followWith hs hbefore hmarks (.linked (by omega)) fun hle l hl => ?_
      exact hread l (by omega)

theorem Source.Kept.linked_succ {v : Encoded} {s' : Source}
    (hinner : ∀ u, s.Meets (Read.linked (d + 1) n) u → RepeatsDeep u (Read.linked (d + 1) n))
    (hkeeps : ∀ u w u', s.Meets (Read.linked (d + 1) n) u → u.Kept Repeatable →
      Read.linked (d + 1) n u = .ok (w, u') → u'.Kept Repeatable)
    (hread : Read.linked (d + 1) (n + 1) s = .ok (v, s')) : s'.Kept Repeatable := by
  have hX : Repeatable s v s' :=
    .of_repeats (fun b q => RepeatsDeep.succ hs hd hinner s'.offset b q) hread
  rw [Read.linked_succ] at hread
  exact hs.valueWith (.linked _ _) hkeeps hread fun _ _ _ => hX

end

/-- **Readings can be repeated, and keep the marks right.** The two are shown together, by induction
on the bytes that are left: that a value repeats rests on the marks of the values before it, and the
mark of a value is right because its reading can be repeated. -/
theorem linked_repeats_and_keeps (n : Nat) (s : Source) (hs : s.Kept Repeatable)
    (hn : s.rest.length ≤ n) :
    RepeatsDeep s (Read.linked s.stream.length n) ∧
      ∀ v s', Read.linked s.stream.length n s = .ok (v, s') → s'.Kept Repeatable := by
  induction n generalizing s with
  | zero =>
    have hnone : ∀ v s', Read.linked s.stream.length 0 s ≠ .ok (v, s') := by
      intro v s' h
      cases hd : s.stream.length <;> (rw [hd] at h; cases h)
    exact ⟨fun _ _ _ _ _ v s' h => absurd h (hnone v s'), fun v s' h => absurd h (hnone v s')⟩
  | succ n ih =>
    cases hd : s.stream.length with
    | zero => exact ⟨fun _ _ _ _ _ v s' => nofun, fun v s' => nofun⟩
    | succ d =>
      -- the values inside have fewer bytes left
      have hih : ∀ u, s.Meets (Read.linked (d + 1) n) u → u.Kept Repeatable →
          RepeatsDeep u (Read.linked (d + 1) n) ∧
            ∀ w u', Read.linked (d + 1) n u = .ok (w, u') → u'.Kept Repeatable := by
        intro u hu hkept
        have hlength := hu.rest_length_lt (.linked _ _)
        have hstream := (hu.before (.linked _ _)).1.stream
        rw [← hd, ← hstream]
        exact ih u hkept (by omega)
      have hkeeps := fun u w u' hu hkept => (hih u hu hkept).2 w u'
      have hinner := fun u hu => (hih u hu (Source.Meets.kept hs hkeeps hu)).1
      exact ⟨RepeatsDeep.succ hs hd hinner, fun v s' => hs.linked_succ hd hinner hkeeps⟩

/-! ## The value that comes next -/

/-- The value that comes next, which is what is read of a whole stream. -/
def Read.next : Read Encoded := fun s => linked s.stream.length s.rest.length s

theorem Advances.next : Advances Read.next := fun s => Advances.linked _ _ s

theorem Consumes.next : Consumes Read.next := fun s => Consumes.linked _ _ s

section

variable {s : Source} (hs : s.Kept Repeatable)

include hs

theorem Source.Kept.exists_stream_length (hne : s.rest ≠ []) :
    ∃ d, s.stream.length = d + 1 := by
  have hfull := hs.full
  have hpos := List.length_pos_iff.2 hne
  unfold Source.size at hfull
  exact ⟨s.stream.length - 1, by omega⟩

/-- Where a value is met, the marks are right, and fewer bytes are left. -/
theorem Source.Kept.met {n : Nat} {u : Source} (hn : s.rest.length ≤ n + 1)
    (hu : s.Meets (Read.linked s.stream.length n) u) :
    u.Kept Repeatable ∧ u.stream = s.stream ∧ u.rest.length ≤ n := by
  have hless : ∀ w, s.Meets (Read.linked s.stream.length n) w →
      w.stream = s.stream ∧ w.rest.length ≤ n := by
    intro w hw
    have hlt := hw.rest_length_lt (.linked _ _)
    exact ⟨(hw.before (.linked _ _)).1.stream, by omega⟩
  refine ⟨Source.Meets.kept hs (fun w v w' hw hkept hread => ?_) hu, hless u hu⟩
  obtain ⟨hstream, hlength⟩ := hless w hw
  rw [← hstream] at hread
  exact (linked_repeats_and_keeps n w hkept hlength).2 v w' hread

/-- **Readers that go deep enough agree**, whatever they read. By induction on the bytes that are
left; the marks, which are right, take care of the references. -/
theorem eq_linked {n : Nat} {q : Read Encoded} (hq : Deep s.stream.length n q)
    (hn : s.rest.length ≤ n) : q s = Read.linked s.stream.length n s := by
  induction n generalizing s q with
  | zero =>
    have hnil : s.rest = [] := List.eq_nil_of_length_eq_zero (by omega)
    rw [hq.at_end hnil, (Deep.linked (Nat.le_refl _) (Nat.le_refl 0)).at_end hnil]
  | succ n ih =>
    by_cases hnil : s.rest = []
    · rw [hq.at_end hnil, (Deep.linked (Nat.le_refl _) (Nat.le_refl (n + 1))).at_end hnil]
    obtain ⟨d, hd⟩ := hs.exists_stream_length hnil
    cases hq with
    | bottom hor => omega
    | level hinner hread =>
      rw [hd, Read.linked_succ, ← hd]
      refine (Read.valueWith_congr (fun u hu => ?_) fun k s₁ hrefers => ?_).symm
      · obtain ⟨hkept, hstream, hlength⟩ := hs.met hn hu
        rw [← hstream] at hinner ⊢
        exact (ih hkept hinner hlength).symm
      · obtain ⟨hbefore, hmarks⟩ := hrefers.before
        have hplace := hs.offset_lt hrefers
        refine followWith_congr hs hbefore hmarks (.linked (by omega)) fun l hl => ?_
        exact hread l (by omega)

namespace Read

/-- **The equation of the reader**, in which no bounds are left: the values inside a value, and those
that are referred to, are values that come next. -/
theorem next_eq : next s = valueWith (followWith fun _ => next) next s := by
  by_cases hnil : s.rest = []
  · rw [Deep.valueWith_nil _ _ hnil]
    exact (Deep.linked (Nat.le_refl _) (Nat.le_refl _)).at_end hnil
  obtain ⟨d, hd⟩ := hs.exists_stream_length hnil
  obtain ⟨n, hn⟩ : ∃ n, s.rest.length = n + 1 := Nat.exists_eq_add_one.2 (List.length_pos_iff.2 hnil)
  unfold next
  rw [hn, hd, linked_succ, ← hd]
  refine valueWith_congr (fun u hu => ?_) fun k s₁ hrefers => ?_
  · obtain ⟨hkept, hstream, hlength⟩ := hs.met hn.le hu
    rw [← hstream]
    exact (eq_linked hkept (Deep.linked (Nat.le_refl _) hlength) (Nat.le_refl _))
  · obtain ⟨hbefore, hmarks⟩ := hrefers.before
    have hplace := hs.offset_lt hrefers
    rw [← hbefore.stream] at hplace hd
    -- the source from which a value is read again has the same stream
    have hsame : followWith (linked d) k s₁ = followWith (linked s₁.stream.length) k s₁ :=
      followWith_congr hs hbefore hmarks (.linked (by omega)) (.linked hplace.le)
    exact hsame

theorem next_repeats {limit : Nat} (hlimit : limit ≤ s.stream.length) :
    Repeats limit s next next := by
  intro v s' h
  have hdeep := (linked_repeats_and_keeps _ s hs (Nat.le_refl _)).1
  refine ⟨(Advances.next s v s' h).offset, fun t hlike => ?_⟩
  have hstream : limit ≤ t.stream.length := by
    have hlength := congrArg List.length hlike.stream
    rw [List.length_take, List.length_take] at hlength
    omega
  have hrest : limit ≤ s.offset + t.rest.length := by
    have hlength := congrArg List.length hlike.rest
    have hfull := hs.full
    unfold Source.size at hfull
    rw [List.length_take, List.length_take] at hlength
    omega
  exact (hdeep limit _ _ (Deep.linked hstream (Nat.le_refl _)) hrest v s' h).2 t hlike

theorem next_repeatable {v : Encoded} {s' : Source} (h : next s = .ok (v, s')) :
    Repeatable s v s' :=
  .of_repeats ((linked_repeats_and_keeps _ s hs (Nat.le_refl _)).1 s'.offset) h

theorem next_keeps {v : Encoded} {s' : Source} (h : next s = .ok (v, s')) : s'.Kept Repeatable :=
  (linked_repeats_and_keeps _ s hs (Nat.le_refl _)).2 v s' h

end Read

end

/-! ## Whole streams -/

/-- A stream of which nothing has been read. -/
def Source.start (bytes : Bytes) : Source := ⟨bytes, 0, bytes, 0, #[], #[]⟩

/-- The version that the header of a stream tells. -/
def Read.heading : Read Nat := do
  let found ← number 4
  if found ≠ magic then throw (.badMagic found)
  else
    let version ← number 2
    if version = 0 ∨ currentVersion < version then throw (.unsupportedVersion version)
    else return version

theorem Plain.heading : Plain Read.heading := by
  refine bind (number 4) fun found => ?_
  split
  · exact throw _
  · refine bind (number 2) fun version => ?_
    split
    · exact throw _
    · exact pure version

theorem Source.ofBytes_eq (bytes : Bytes) :
    ofBytes bytes = (Read.heading (start bytes)).map fun r => { r.2 with version := r.1 } := by
  unfold ofBytes Read.heading
  change (Read.number 4 (start bytes) >>= _) = _
  cases hfound : Read.number 4 (start bytes) with
  | error e => rw [bind_of_error hfound]; rfl
  | ok r =>
    rw [bind_of_ok (a := r.1) hfound]
    change (if r.1 ≠ magic then _ else _) = _
    split
    · rfl
    · cases hversion : Read.number 2 r.2 with
      | error e => rw [bind_of_error hversion]; rfl
      | ok r' =>
        rw [bind_of_ok (a := r'.1) hversion]
        change (if r'.1 = 0 ∨ currentVersion < r'.1 then _ else _) = _
        split <;> rfl

/-- Behind the header no value has begun. -/
theorem Source.ofBytes_kept {bytes : Bytes} {s : Source} (X : Source → Encoded → Source → Prop)
    (h : ofBytes bytes = .ok s) : s.Kept X ∧ s.stream = bytes ∧ s.marks = #[] := by
  rw [ofBytes_eq] at h
  obtain ⟨r, hread, rfl⟩ := map_eq_ok h
  obtain ⟨hbefore, hmarks⟩ := Plain.heading.before (a := r.1) hread
  have hstart : (start bytes).Kept X := ⟨rfl, by simp [Source.size, start], nofun, nofun⟩
  have hkept := Kept.plainly X _ _ hbefore hmarks hstart
  have hnone : r.2.marks = #[] := hmarks
  refine ⟨⟨hkept.placed, hkept.full, hkept.ids, fun k m hm _ => ?_⟩, hbefore.stream, hmarks⟩
  rw [hnone] at hm
  cases hm

/-- The one value of a stream, which nothing may follow, as `read` reads it. -/
def decodeWith (read : Read Encoded) (bytes : Bytes) : Except Error Encoded := do
  let s ← Source.ofBytes bytes
  let r ← read s
  if r.2.rest.isEmpty then return r.1
  else throw (.trailingBytes r.2.rest.length)

theorem decode_eq (bytes : Bytes) : decode bytes = decodeWith Read.next bytes := rfl

theorem decode_of_header_error {bytes : Bytes} {e : Error} (hs : Source.ofBytes bytes = .error e) :
    decode bytes = .error e := by
  rw [decode_eq, decodeWith, hs]
  rfl

theorem decode_of_error {bytes : Bytes} {s : Source} {e : Error}
    (hs : Source.ofBytes bytes = .ok s) (h : Read.next s = .error e) : decode bytes = .error e := by
  rw [decode_eq, decodeWith, hs]
  change (Read.next s >>= _) = _
  rw [h]
  rfl

theorem decode_of_next {bytes : Bytes} {s s' : Source} {v : Encoded}
    (hs : Source.ofBytes bytes = .ok s) (h : Read.next s = .ok (v, s')) :
    decode bytes = if s'.rest = [] then .ok v else .error (.trailingBytes s'.rest.length) := by
  rw [decode_eq, decodeWith, hs]
  change (Read.next s >>= _) = _
  rw [h]
  simp only [List.isEmpty_iff]
  rfl

theorem decode_eq_ok {bytes : Bytes} {v : Encoded} (h : decode bytes = .ok v) :
    ∃ s s', Source.ofBytes bytes = .ok s ∧ Read.next s = .ok (v, s') ∧ s'.rest = [] := by
  cases hs : Source.ofBytes bytes with
  | error e =>
    rw [decode_of_header_error hs] at h
    cases h
  | ok s =>
    cases hread : Read.next s with
    | error e =>
      rw [decode_of_error hs hread] at h
      cases h
    | ok r =>
      rw [decode_of_next (v := r.1) hs hread] at h
      split at h
      · next hnil =>
        cases h
        exact ⟨s, r.2, rfl, hread, hnil⟩
      · cases h

end ScriptStore.Codec
