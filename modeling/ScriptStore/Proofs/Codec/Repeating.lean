import ScriptStore.Proofs.Codec.Reading

/-!
# Reading the same bytes twice

A reading looks at nothing but what it consumes, the shared ids, and the marks of the values before.
So where two sources hold the same bytes up to a limit, and agree on the rest, a reading that ends
before the limit on the one source gives the same on the other (`Repeats`). A reading that goes
beyond the limit runs into the end of a source that has no bytes there.

The second source may know more values to be complete than the first. That is what becomes of the
marks while a value is being read and afterwards, and more complete values only mean more references
that can be followed.

The steps that make up the numbers, texts, ids and types of a stream leave the marks alone (`Plain`).
How whole values repeat depends on how their references are followed, and comes later.
-/

namespace ScriptStore.Codec

open Text (Bytes)

/-! ## Marks -/

/-- Two marks of one value, the second from later on, when the value may be complete. -/
def Mark.Under (m m' : Mark) : Prop :=
  m'.offset = m.offset ∧ m'.ids = m.ids ∧ (m.complete = true → m'.complete = true)

theorem Mark.Under.refl (m : Mark) : m.Under m := ⟨rfl, rfl, fun h => h⟩

theorem Mark.Under.trans {m₁ m₂ m₃ : Mark} (h : m₁.Under m₂) (h' : m₂.Under m₃) : m₁.Under m₃ :=
  ⟨h'.1.trans h.1, h'.2.1.trans h.2.1, fun hc => h'.2.2 (h.2.2 hc)⟩

/-- Whatever has a mark in the first list has it in the second, under the same number. -/
def Mark.AllUnder (a b : Array Mark) : Prop :=
  ∀ (i : Nat) (m : Mark), a[i]? = some m → ∃ m', b[i]? = some m' ∧ m.Under m'

namespace Mark.AllUnder

variable {a b c : Array Mark}

theorem refl (a : Array Mark) : AllUnder a a := fun _ m h => ⟨m, h, .refl m⟩

theorem trans (h : AllUnder a b) (h' : AllUnder b c) : AllUnder a c := by
  intro i m hm
  obtain ⟨m₁, hm₁, hunder₁⟩ := h i m hm
  obtain ⟨m₂, hm₂, hunder₂⟩ := h' i m₁ hm₁
  exact ⟨m₂, hm₂, hunder₁.trans hunder₂⟩

theorem size_le (h : AllUnder a b) : a.size ≤ b.size := by
  by_contra hlt
  have hb : b.size < a.size := by omega
  obtain ⟨m, hm, -⟩ := h b.size _ (Array.getElem?_eq_getElem hb)
  simp at hm

/-- A value that begins is noted behind those that are there. -/
theorem push (m : Mark) : AllUnder a (a.push m) := by
  intro i m' hm'
  have hi : i < a.size := (Array.getElem?_eq_some_iff.1 hm').1
  exact ⟨m', by rw [Array.getElem?_push, if_neg (by omega), hm'], .refl m'⟩

theorem push_push (h : AllUnder a b) (hsize : b.size = a.size) (m : Mark) :
    AllUnder (a.push m) (b.push m) := by
  intro i m' hm'
  rw [Array.getElem?_push] at hm' ⊢
  rw [hsize]
  split at hm'
  · next hi =>
    rw [if_pos hi]
    exact ⟨m', hm', .refl m'⟩
  · next hi =>
    rw [if_neg hi]
    exact h i m' hm'

/-- The mark of a value that has been read to its end. -/
theorem modify (number : Nat) : AllUnder a (a.modify number fun m => { m with complete := true }) := by
  intro i m hm
  rw [Array.getElem?_modify, hm]
  split
  · exact ⟨_, rfl, rfl, rfl, fun _ => rfl⟩
  · exact ⟨m, rfl, .refl m⟩

theorem modify_modify (h : AllUnder a b) (number : Nat) :
    AllUnder (a.modify number fun m => { m with complete := true })
      (b.modify number fun m => { m with complete := true }) := by
  intro i m hm
  rw [Array.getElem?_modify] at hm ⊢
  split at hm
  · next hi =>
    obtain ⟨m₀, hm₀, rfl⟩ := Option.map_eq_some_iff.1 hm
    obtain ⟨m₁, hm₁, hoffset, hids, -⟩ := h i m₀ hm₀
    rw [if_pos hi, hm₁]
    exact ⟨_, rfl, hoffset, hids, fun _ => rfl⟩
  · next hi =>
    rw [if_neg hi]
    exact h i m hm

theorem take (h : AllUnder a b) (number : Nat) : AllUnder (a.take number) (b.take number) := by
  intro i m hm
  rw [Array.take_eq_extract, Array.getElem?_extract] at hm ⊢
  have hle := h.size_le
  split at hm
  · next hi =>
    rw [if_pos (by omega)]
    exact h _ m hm
  · exact absurd hm (by simp)

end Mark.AllUnder

/-! ## One source after another -/

/-- How many bytes a source has in all. -/
def Source.size (s : Source) : Nat := s.offset + s.rest.length

/-- What a reading leaves of a source. -/
structure Source.Before (s s' : Source) : Prop where
  stream : s'.stream = s.stream
  version : s'.version = s.version
  offset : s.offset ≤ s'.offset
  rest : s'.rest = s.rest.drop (s'.offset - s.offset)
  size : s'.size = s.size
  ids : s.ids.toList <+: s'.ids.toList
  marks : Mark.AllUnder s.marks s'.marks

namespace Source.Before

theorem refl (s : Source) : s.Before s :=
  ⟨rfl, rfl, Nat.le_refl _, by rw [Nat.sub_self, List.drop_zero], rfl, List.prefix_refl _, .refl _⟩

theorem trans {s₁ s₂ s₃ : Source} (h : s₁.Before s₂) (h' : s₂.Before s₃) : s₁.Before s₃ := by
  have hle := h.offset
  have hle' := h'.offset
  refine ⟨h'.stream.trans h.stream, h'.version.trans h.version, hle.trans hle', ?_,
    h'.size.trans h.size, h.ids.trans h'.ids, h.marks.trans h'.marks⟩
  rw [h'.rest, h.rest, List.drop_drop]
  congr 1
  omega

end Source.Before

/-- Every reading goes on from where it begins. -/
def Advances {α : Type} (p : Read α) : Prop :=
  ∀ (s : Source) (a : α) (s' : Source), p s = .ok (a, s') → s.Before s'

/-! ## One source like another -/

/-- A source that is like another as far as `limit`, but that it may know more values to be
complete. -/
structure Source.Resembles (limit : Nat) (s t : Source) : Prop where
  offset : t.offset = s.offset
  rest : t.rest.take (limit - s.offset) = s.rest.take (limit - s.offset)
  stream : t.stream.take limit = s.stream.take limit
  version : t.version = s.version
  ids : t.ids = s.ids
  count : t.marks.size = s.marks.size
  marks : Mark.AllUnder s.marks t.marks

namespace Source.Resembles

variable {limit : Nat} {s t u : Source}

theorem refl (limit : Nat) (s : Source) : s.Resembles limit s :=
  ⟨rfl, rfl, rfl, rfl, rfl, rfl, .refl _⟩

theorem trans (h : s.Resembles limit t) (h' : t.Resembles limit u) : s.Resembles limit u := by
  have hrest := h'.rest
  rw [h.offset] at hrest
  exact ⟨h'.offset.trans h.offset, hrest.trans h.rest, h'.stream.trans h.stream,
    h'.version.trans h.version, h'.ids.trans h.ids, h'.count.trans h.count, h.marks.trans h'.marks⟩

theorem mono {limit' : Nat} (h : s.Resembles limit t) (hle : limit' ≤ limit) :
    s.Resembles limit' t := by
  refine ⟨h.offset, ?_, ?_, h.version, h.ids, h.count, h.marks⟩
  · have hrest := congrArg (List.take (limit' - s.offset)) h.rest
    rwa [List.take_take, List.take_take, Nat.min_eq_left (by omega)] at hrest
  · have hstream := congrArg (List.take limit') h.stream
    rwa [List.take_take, List.take_take, Nat.min_eq_left hle] at hstream

/-- As many bytes as come before the limit are the same. -/
theorem take_rest (h : s.Resembles limit t) {n : Nat} (hn : s.offset + n ≤ limit) :
    t.rest.take n = s.rest.take n := by
  have hrest := congrArg (List.take n) h.rest
  rwa [List.take_take, List.take_take, Nat.min_eq_left (by omega)] at hrest

/-- No source without bytes behind the limit is read from there on. -/
theorem offset_le (h : s.Resembles limit t) (hsize : t.size ≤ limit) : s.offset ≤ limit := by
  unfold Source.size at hsize
  rw [h.offset] at hsize
  omega

/-- A source without bytes behind the limit has none left there. -/
theorem rest_eq_nil (h : s.Resembles limit t) (hlimit : limit ≤ s.offset) (hsize : t.size ≤ limit) :
    t.rest = [] := by
  unfold Source.size at hsize
  rw [h.offset] at hsize
  exact List.eq_nil_of_length_eq_zero (by omega)

end Source.Resembles

/-! ## Readings that repeat -/

section

variable {α β : Type} {limit : Nat} {s t : Source}

/-- What comes of a reading on a source of `size` bytes, given that on another source, which it is
like, the reading gave `a` and left `s'`. -/
def Repeated (limit size : Nat) (a : α) (s' : Source) (r : Except Error (α × Source)) : Prop :=
  (s'.offset ≤ limit → ∃ t', r = .ok (a, t') ∧ s'.Resembles limit t' ∧ t'.size = size) ∧
    (limit < s'.offset → size ≤ limit → r = .error .unexpectedEnd)

/-- What `p` reads from `s`, `q` reads from every source that is like it. -/
def Repeats (limit : Nat) (s : Source) (p q : Read α) : Prop :=
  ∀ (a : α) (s' : Source), p s = .ok (a, s') → s.offset ≤ s'.offset ∧
    ∀ t, s.Resembles limit t → Repeated limit t.size a s' (q t)

theorem bind_of_error {x : Read α} {f : α → Read β} {e : Error} (h : x s = .error e) :
    (x >>= f) s = .error e := by
  change (x s >>= fun p => f p.1 p.2) = _
  rw [h]
  rfl

namespace Repeats

/-- Once a reading has run into the end, what would come next does not matter. -/
theorem bind {x y : Read α} {f g : α → Read β} (hx : Repeats limit s x y)
    (hf : ∀ a s₁, x s = .ok (a, s₁) → Repeats limit s₁ (f a) (g a)) :
    Repeats limit s (x >>= f) (y >>= g) := by
  intro b s₂ hread
  obtain ⟨a, s₁, hfirst, hsecond⟩ := bind_eq_ok hread
  obtain ⟨hle, hx⟩ := hx a s₁ hfirst
  obtain ⟨hle', hf⟩ := hf a s₁ hfirst b s₂ hsecond
  refine ⟨hle.trans hle', fun t hlike => ?_⟩
  obtain ⟨hok, hend⟩ := hx t hlike
  by_cases hlimit : s₁.offset ≤ limit
  · -- the first reading repeats, and the second one goes on from where it ends
    obtain ⟨t₁, hy, hlike₁, hsize⟩ := hok hlimit
    rw [bind_of_ok hy, ← hsize]
    exact hf t₁ hlike₁
  · refine ⟨fun h => absurd (hle'.trans h) hlimit, fun _ hsize => ?_⟩
    exact bind_of_error (hend (by omega) hsize)

theorem pure (a : α) : Repeats limit s (Pure.pure a) (Pure.pure a) := by
  intro b s' hread
  cases pure_eq_ok hread
  refine ⟨Nat.le_refl _, fun t hlike => ⟨fun _ => ⟨t, rfl, hlike, rfl⟩, fun hlimit hsize => ?_⟩⟩
  exact absurd (hlike.offset_le hsize) (Nat.not_le.2 hlimit)

theorem map {x y : Read α} (f : α → β) (hx : Repeats limit s x y) :
    Repeats limit s (f <$> x) (f <$> y) :=
  bind hx fun a _ _ => pure (f a)

end Repeats

end

/-! ## Plain steps -/

/-- A step that repeats and leaves the marks of values alone. -/
structure Plain {α : Type} (p : Read α) : Prop where
  before : ∀ {s : Source} {a : α} {s' : Source}, p s = .ok (a, s') → s.Before s' ∧ s'.marks = s.marks
  repeats : ∀ (limit : Nat) (s : Source), Repeats limit s p p

namespace Plain

variable {α β : Type}

theorem advances {p : Read α} (hp : Plain p) : Advances p := fun _ _ _ h => (hp.before h).1

theorem pure (a : α) : Plain (Pure.pure a) := by
  refine ⟨fun h => ?_, fun _ _ => .pure a⟩
  cases pure_eq_ok h
  exact ⟨.refl _, rfl⟩

theorem throw (e : Error) : Plain (throw e : Read α) := by
  refine ⟨fun h => ?_, fun limit s a s' h => ?_⟩
  · cases h
  · cases h

theorem bind {x : Read α} {f : α → Read β} (hx : Plain x) (hf : ∀ a, Plain (f a)) :
    Plain (x >>= f) := by
  refine ⟨fun h => ?_, fun limit s => ?_⟩
  · obtain ⟨a, s₁, hfirst, hnext⟩ := bind_eq_ok h
    obtain ⟨hbefore, hmarks⟩ := hx.before hfirst
    obtain ⟨hbefore', hmarks'⟩ := (hf a).before hnext
    exact ⟨hbefore.trans hbefore', hmarks'.trans hmarks⟩
  · exact (hx.repeats limit s).bind fun a s₁ _ => (hf a).repeats limit s₁

theorem map {x : Read α} (f : α → β) (hx : Plain x) : Plain (f <$> x) := bind hx fun a => pure (f a)

/-- A step that looks at what sources that are alike agree on. -/
theorem get {f : Source → Read β} (hf : ∀ s, Plain (f s))
    (hsame : ∀ {limit : Nat} {s t : Source}, s.Resembles limit t → f t = f s) :
    Plain (get >>= f) := by
  refine ⟨fun {s _ _} h => (hf s).before h, fun limit s b s' hread => ?_⟩
  obtain ⟨hle, hrepeats⟩ := (hf s).repeats limit s b s' hread
  refine ⟨hle, fun t hlike => ?_⟩
  change Repeated limit t.size b s' (f t t)
  rw [hsame hlike]
  exact hrepeats t hlike

theorem byte : Plain Read.byte := by
  refine ⟨fun {s a s'} h => ?_, fun limit s a s' h => ?_⟩
  · unfold Read.byte at h
    split at h
    · cases h
    · next b rest hrest =>
      cases h
      refine ⟨⟨rfl, rfl, Nat.le_succ _, ?_, ?_, List.prefix_refl _, .refl _⟩, rfl⟩
      · simp [hrest]
      · simp only [Source.size, hrest, List.length_cons]
        omega
  · unfold Read.byte at h
    split at h
    · cases h
    · next b rest hrest =>
      cases h
      refine ⟨Nat.le_succ _, fun t hlike => ⟨fun hlimit => ?_, fun hlimit hsize => ?_⟩⟩
      · have hfirst := hlike.take_rest hlimit
        have htail := congrArg List.tail hlike.rest
        obtain ⟨n, hn⟩ : ∃ n, limit - s.offset = n + 1 := by
          dsimp only at hlimit
          exact ⟨limit - s.offset - 1, by omega⟩
        cases ht : t.rest with
        | nil => simp [ht, hrest] at hfirst
        | cons b' rest' =>
          simp only [ht, hrest, List.take_succ_cons, List.take_zero, List.cons.injEq,
            and_true] at hfirst
          subst hfirst
          refine ⟨{ t with rest := rest', offset := t.offset + 1 }, ?_, ?_, ?_⟩
          · simp only [Read.byte, ht]
          · refine ⟨by rw [hlike.offset], ?_, hlike.stream, hlike.version, hlike.ids,
              hlike.count, hlike.marks⟩
            rw [hn, ht, hrest, List.take_succ_cons, List.take_succ_cons] at htail
            have hn' : limit - (s.offset + 1) = n := by omega
            rw [hn']
            exact htail
          · simp only [Source.size, ht, List.length_cons]
            omega
      · have hnil := hlike.rest_eq_nil (Nat.le_of_lt_succ hlimit) hsize
        simp only [Read.byte, hnil]

theorem take (n : Nat) : Plain (Read.take n) := by
  refine ⟨fun {s a s'} h => ?_, fun limit s a s' h => ?_⟩
  · unfold Read.take at h
    dsimp only at h
    split at h
    · cases h
    · next hlength =>
      cases h
      rw [List.length_take] at hlength
      refine ⟨⟨rfl, rfl, Nat.le_add_right _ _, ?_, ?_, List.prefix_refl _, .refl _⟩, rfl⟩
      · rw [Nat.add_sub_cancel_left]
      · simp only [Source.size, List.length_drop]
        omega
  · unfold Read.take at h ⊢
    dsimp only at h ⊢
    split at h
    · cases h
    · next hlength =>
      cases h
      rw [List.length_take] at hlength
      refine ⟨Nat.le_add_right _ _, fun t hlike => ⟨fun hlimit => ?_, fun hlimit hsize => ?_⟩⟩
      · have htake := hlike.take_rest hlimit
        have hlength' : (t.rest.take n).length = n := by
          rw [htake, List.length_take]
          omega
        refine ⟨{ t with rest := t.rest.drop n, offset := t.offset + n }, ?_, ?_, ?_⟩
        · rw [hlength', htake, if_neg (Nat.lt_irrefl n)]
        · refine ⟨by rw [hlike.offset], ?_, hlike.stream, hlike.version, hlike.ids, hlike.count,
            hlike.marks⟩
          have hdrop := congrArg (List.drop n) hlike.rest
          rwa [List.drop_take, List.drop_take, Nat.sub_sub] at hdrop
        · rw [List.length_take] at hlength'
          simp only [Source.size, List.length_drop]
          omega
      · rw [if_pos]
        dsimp only at hlimit
        unfold Source.size at hsize
        rw [hlike.offset] at hsize
        rw [List.length_take]
        omega

/-! ## Numbers, texts and ids -/

theorem number (width : Nat) : Plain (Read.number width) := map _ (take width)

theorem count : Plain Read.count := by
  refine bind byte fun first => ?_
  split
  · exact pure _
  · exact bind (number 1) fun low => pure _

theorem length : Plain Read.length := by
  refine bind byte fun first => ?_
  split
  · exact bind (number 1) fun low => pure _
  · exact bind (number 3) fun low => pure _

theorem scalar (t : ScalarType) : Plain (Read.scalar t) := by
  cases t <;> exact map _ (number _)

theorem text (size : Nat) : Plain (Read.text size) := by
  refine bind (take size) fun bytes => ?_
  split
  · exact pure _
  · exact throw _

theorem idAt (index : Nat) : Plain (Read.idAt index) := by
  refine get (fun s => ?_) fun hlike => by rw [hlike.ids]
  split
  · exact pure _
  · exact throw _

theorem sharedId : Plain Read.sharedId := by
  refine get (fun s => ?_) fun hlike => by rw [hlike.version]
  split
  · exact bind (number 4) idAt
  · exact bind length idAt

/-- An id that is met for the first time is put behind those that are known. -/
theorem push (id : String) : Plain (modify fun s : Source => { s with ids := s.ids.push id }) := by
  refine ⟨fun {s a s'} h => ?_, fun limit s a s' h => ?_⟩
  · cases h
    refine ⟨⟨rfl, rfl, Nat.le_refl _, ?_, rfl, ?_, .refl _⟩, rfl⟩
    · simp
    · simp
  · cases h
    refine ⟨Nat.le_refl _, fun t hlike => ⟨fun _ => ⟨{ t with ids := t.ids.push id }, rfl, ?_, rfl⟩,
      fun hlimit hsize => ?_⟩⟩
    · exact ⟨hlike.offset, hlike.rest, hlike.stream, hlike.version, by rw [hlike.ids], hlike.count,
        hlike.marks⟩
    · exact absurd (hlike.offset_le hsize) (Nat.not_le.2 hlimit)

theorem id : Plain Read.id := by
  refine bind byte fun size => ?_
  split
  · exact sharedId
  · refine bind (text size.toNat) fun id => ?_
    split
    · exact bind (push id) fun _ => pure id
    · exact pure id

theorem tag (b : UInt8) : Plain (Read.tag b) := by
  unfold Read.tag
  split
  · exact pure _
  · exact throw _

/-! ## Types -/

theorem innermost (b : UInt8) : Plain (Read.innermost b) := by
  refine bind (tag b) fun t => ?_
  cases t with
  | enum | object => exact map _ id
  | null | reference | array => exact throw _
  | _ => exact pure _

/-- A type under so many array tags. -/
theorem dimensions (n : Nat) :
    Plain (Read.take n >>= fun _ => Read.byte >>= fun b => Read.nested n <$> Read.innermost b) :=
  bind (take n) fun _ => bind byte fun b => map _ (innermost b)

/-- Where one more element is the same than fulfil a condition, as many fulfil it. -/
theorem length_takeWhile_of_take_eq {p : UInt8 → Bool} {l l' : Bytes} {n : Nat}
    (hn : (l.takeWhile p).length = n) (hlt : n < l.length) (h : l'.take (n + 1) = l.take (n + 1)) :
    (l'.takeWhile p).length = n := by
  induction n generalizing l l' with
  | zero =>
    cases l with
    | nil => simp at hlt
    | cons b l =>
      cases l' with
      | nil => simp at h
      | cons b' l' =>
        have hb : b' = b := by simpa using h
        rw [List.takeWhile_cons] at hn ⊢
        rw [hb]
        split at hn
        · simp at hn
        · next hp => rw [if_neg hp]; rfl
  | succ n ih =>
    cases l with
    | nil => simp at hlt
    | cons b l =>
      cases l' with
      | nil => simp at h
      | cons b' l' =>
        rw [List.take_succ_cons, List.take_succ_cons, List.cons.injEq] at h
        obtain ⟨hb, h⟩ := h
        rw [List.takeWhile_cons] at hn ⊢
        rw [hb]
        split at hn
        · next hp =>
          rw [if_pos hp, List.length_cons, ih (Nat.succ.inj hn) (Nat.lt_of_succ_lt_succ hlt) h]
        · simp at hn

/-- **A type repeats**, although its array tags are counted ahead. A source that ends among them or
right behind them has nothing left for the type itself. -/
theorem component : Plain Read.component := by
  refine ⟨fun {s a s'} h => (dimensions _).before h, fun limit s c s' h => ?_⟩
  generalize hn : (s.rest.takeWhile (· = Tag.array.byte)).length = n
  have hread : (Read.take n >>= fun _ => Read.byte >>= fun b =>
      Read.nested n <$> Read.innermost b) s = .ok (c, s') := hn ▸ h
  obtain ⟨hle, hrepeats⟩ := (dimensions n).repeats limit s c s' hread
  refine ⟨hle, fun t hlike => ?_⟩
  change Repeated limit t.size c s' ((Read.take (t.rest.takeWhile (· = Tag.array.byte)).length >>=
    fun _ => Read.byte >>= fun b => Read.nested _ <$> Read.innermost b) t)
  -- behind the array tags there is at least the tag of the innermost type
  have hend : n < s.rest.length ∧ s.offset + n < s'.offset := by
    obtain ⟨_, s₁, htake, hread⟩ := bind_eq_ok hread
    obtain ⟨b, s₂, hbyte, hread⟩ := bind_eq_ok hread
    have hnext := ((map _ (innermost b)).before hread).1.offset
    unfold Read.take at htake
    dsimp only at htake
    split at htake
    · cases htake
    · cases htake
      unfold Read.byte at hbyte
      split at hbyte
      · cases hbyte
      · next hrest =>
        cases hbyte
        refine ⟨?_, Nat.lt_of_succ_le hnext⟩
        by_contra hle
        rw [List.drop_eq_nil_of_le (Nat.le_of_not_lt hle)] at hrest
        cases hrest
  by_cases hlimit : s.offset + n < limit
  · -- as many array tags stand in the other source
    have hsame : (t.rest.takeWhile (· = Tag.array.byte)).length = n :=
      length_takeWhile_of_take_eq hn hend.1 (hlike.take_rest hlimit)
    rw [hsame]
    exact hrepeats t hlike
  · -- the other source has nothing but array tags left
    refine ⟨fun hle => absurd (hend.2.trans_le hle) hlimit, fun _ hsize => ?_⟩
    have hrest : t.rest = s.rest.take (limit - s.offset) := by
      rw [← hlike.rest, List.take_of_length_le]
      unfold Source.size at hsize
      rw [hlike.offset] at hsize
      omega
    have hall : t.rest.takeWhile (· = Tag.array.byte) = t.rest := by
      refine List.takeWhile_eq_self_iff.2 fun b hb => ?_
      have hmem : b ∈ s.rest.takeWhile (· = Tag.array.byte) := by
        have hpre : s.rest.take n = s.rest.takeWhile (· = Tag.array.byte) := by
          rw [← hn]
          exact (List.prefix_iff_eq_take.1 (List.takeWhile_prefix _)).symm
        rw [← hpre]
        rw [hrest] at hb
        exact List.take_subset_take_left _ (by omega) hb
      have htag := List.mem_takeWhile_imp hmem
      exact htag
    rw [hall]
    have htake : Read.take t.rest.length t =
        .ok (t.rest, { t with rest := [], offset := t.offset + t.rest.length }) := by
      unfold Read.take
      simp
    rw [bind_of_ok htake]
    rfl

theorem times {p : Read α} (hp : Plain p) (n : Nat) : Plain (Read.times p n) := by
  induction n with
  | zero => exact pure []
  | succ n ih => exact bind hp fun a => bind ih fun as => pure (a :: as)

end Plain

end ScriptStore.Codec
