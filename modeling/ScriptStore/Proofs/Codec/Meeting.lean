import ScriptStore.Proofs.Codec.Repeating

/-!
# The values inside a value

Only arrays and objects hold values: elements, and what fields hold. `Source.Meets` says where a
reading comes to read one of them, once it has read all that stands before. What is to be known of a
reading then follows from what is known of the readings that it meets: that it is the same with
another reader for the values inside (`Read.valueWith_congr`), and that it keeps a property of the
source (`Read.Meets.keeps`, `Read.body_keeps`).
-/

namespace ScriptStore.Codec

/-! ## Readings go on -/

namespace Advances

variable {α β : Type}

theorem bind {x : Read α} {f : α → Read β} (hx : Advances x) (hf : ∀ a, Advances (f a)) :
    Advances (x >>= f) := by
  intro s b s' h
  obtain ⟨a, s₁, hfirst, hnext⟩ := bind_eq_ok h
  exact (hx s a s₁ hfirst).trans (hf a s₁ b s' hnext)

theorem get {f : Source → Read β} (hf : ∀ s, Advances (f s)) : Advances (get >>= f) :=
  fun s b s' h => hf s s b s' h

theorem pure (a : α) : Advances (Pure.pure a) := (Plain.pure a).advances

theorem throw (e : Error) : Advances (throw e : Read α) := (Plain.throw e).advances

theorem begin (m : Mark) : Advances (Read.begin m) := by
  intro s n s' h
  cases h
  exact ⟨rfl, rfl, Nat.le_refl _, by simp, rfl, List.prefix_refl _, .push m⟩

theorem finish (number : Nat) : Advances (Read.finish number) := by
  intro s _ s' h
  cases h
  exact ⟨rfl, rfl, Nat.le_refl _, by simp, rfl, List.prefix_refl _, .modify number⟩

theorem times {p : Read α} (hp : Advances p) (n : Nat) : Advances (Read.times p n) := by
  induction n with
  | zero => exact pure []
  | succ n ih => exact bind hp fun a => bind ih fun as => pure (a :: as)

section

variable {value : Read Encoded} (hvalue : Advances value)

include hvalue

theorem field : Advances (Read.field value) := by
  refine bind Plain.id.advances fun i => get fun s => ?_
  split
  · exact throw _
  · next b _ _ =>
    refine bind (Plain.tag b).advances fun t => ?_
    cases t with
    | scalar t =>
      exact bind Plain.byte.advances fun _ => bind (Plain.scalar t).advances fun _ => pure _
    | _ => exact bind hvalue fun v => pure _

theorem array : Advances (Read.array value) := by
  refine bind Plain.component.advances fun c => bind Plain.length.advances fun n => ?_
  cases c with
  | scalar t => exact bind ((Plain.scalar t).map _ |>.times n).advances fun vs => pure _
  | _ => exact bind (times hvalue n) fun vs => pure _

theorem object : Advances (Read.object value) :=
  bind Plain.id.advances fun _ => bind Plain.count.advances fun n =>
    bind (times (field hvalue) n) fun _ => pure _

theorem body (t : Tag) : Advances (Read.body value t) := by
  cases t with
  | boxed t => exact ((Plain.scalar t).map _).advances
  | string => exact (Plain.length.bind fun n => (Plain.text n).bind fun _ => .pure _).advances
  | array => exact array hvalue
  | enum => exact (Plain.id.bind fun _ => Plain.id.bind fun _ => .pure _).advances
  | typeLiteral => exact (Plain.component.map _).advances
  | object => exact object hvalue
  | null | reference | scalar => exact throw _

theorem valueWith {follow : Nat → Read Encoded} (hfollow : ∀ k, Advances (follow k)) :
    Advances (Read.valueWith follow value) := by
  refine get fun s => get fun s' => bind Plain.byte.advances fun b =>
    bind (Plain.tag b).advances fun t => ?_
  cases t with
  | null => exact pure _
  | reference => exact bind Plain.length.advances hfollow
  | scalar t => exact throw _
  | _ => exact bind (begin _) fun number => bind (body hvalue _) fun v =>
      bind (finish number) fun _ => pure v

end

end Advances

/-! ## Where the values stand -/

/-- Values of these kinds are numbered, so that they can be referred to. -/
def Tag.numbered : Tag → Bool
  | .null | .reference | .scalar _ => false
  | _ => true

/-- The tag that stands next, if one does. -/
def Source.peek (s : Source) : Except Error Tag :=
  match s.rest with
  | [] => .error .unexpectedEnd
  | b :: _ =>
    match Tag.ofByte? b with
    | some t => .ok t
    | none => .error (.invalidTag b)

/-- A tag stands next, and `s₁` is behind it. -/
def Source.Shows (s : Source) (t : Tag) (s₁ : Source) : Prop :=
  (Read.byte >>= Read.tag) s = .ok (t, s₁)

/-- A numbered value begins, and its mark is made. -/
def Source.Opens (s : Source) (t : Tag) (s₁ : Source) : Prop :=
  t.numbered ∧ ∃ s₀, s.Shows t s₀ ∧
    s₁ = { s₀ with marks := s₀.marks.push ⟨s.offset, s.ids.size, false⟩ }

/-- A reference to value `k` stands next, and `s₁` is behind it. -/
def Source.RefersTo (s : Source) (k : Nat) (s₁ : Source) : Prop :=
  ∃ s₀, s.Shows .reference s₀ ∧ Read.length s₀ = .ok (k, s₁)

/-- A field holds a value, and not a raw scalar. -/
def Source.HoldsValue (s : Source) : Prop := ∃ t, s.peek = .ok t ∧ ∀ u, t ≠ .scalar u

/-- Reading what follows a tag from `s` on comes to read a value at `t`, if values are read by
`value`: an element of an array, or what a field of an object holds. -/
inductive Read.Meets (value : Read Encoded) : Tag → Source → Source → Prop
  | element {s s₁ s₂ t : Source} {c : Component} {n i : Nat} {vs : List Encoded} :
      Read.component s = .ok (c, s₁) → (∀ u, c ≠ .scalar u) → Read.length s₁ = .ok (n, s₂) →
      i < n → Read.times value i s₂ = .ok (vs, t) → Meets value .array s t
  | field {s s₁ s₂ s₃ t : Source} {type id : String} {n i : Nat} {fs : List Field} :
      Read.id s = .ok (type, s₁) → Read.count s₁ = .ok (n, s₂) → i < n →
      Read.times (Read.field value) i s₂ = .ok (fs, s₃) → Read.id s₃ = .ok (id, t) →
      t.HoldsValue → Meets value .object s t

/-- Reading the value at `s` comes to read the value at `t`, which is one of its parts. -/
def Source.Meets (value : Read Encoded) (s t : Source) : Prop :=
  ∃ tag s₁, s.Opens tag s₁ ∧ Read.Meets value tag s₁ t

/-! ## A reading depends on the values it meets -/

section

variable {α β : Type}

theorem bind_congr_at {x y : Read α} {f g : α → Read β} {s : Source} (hx : x s = y s)
    (hf : ∀ a s₁, x s = .ok (a, s₁) → f a s₁ = g a s₁) : (x >>= f) s = (y >>= g) s := by
  cases h : x s with
  | error e => rw [bind_of_error h, bind_of_error (hx ▸ h)]
  | ok r =>
    obtain ⟨a, s₁⟩ := r
    rw [bind_of_ok h, bind_of_ok (hx ▸ h)]
    exact hf a s₁ h

namespace Read

theorem times_succ_of_ok {p : Read α} {n : Nat} {s s₁ s₂ : Source} {a : α} {as : List α}
    (h : p s = .ok (a, s₁)) (hrest : times p n s₁ = .ok (as, s₂)) :
    times p (n + 1) s = .ok (a :: as, s₂) := by
  rw [times, bind_of_ok h, bind_of_ok hrest]
  rfl

theorem times_succ_eq_ok {p : Read α} {n : Nat} {s s₂ : Source} {as : List α}
    (h : times p (n + 1) s = .ok (as, s₂)) :
    ∃ a s₁ rest, p s = .ok (a, s₁) ∧ times p n s₁ = .ok (rest, s₂) ∧ as = a :: rest := by
  rw [times] at h
  obtain ⟨a, s₁, hfirst, h⟩ := bind_eq_ok h
  obtain ⟨rest, s₃, hrest, h⟩ := bind_eq_ok h
  cases pure_eq_ok h
  exact ⟨a, s₁, rest, hfirst, hrest, rfl⟩

theorem times_congr {p q : Read α} {n : Nat} {s : Source}
    (h : ∀ i < n, ∀ as t, times p i s = .ok (as, t) → p t = q t) :
    times p n s = times q n s := by
  induction n generalizing s with
  | zero => rfl
  | succ n ih =>
    rw [times, times]
    refine bind_congr_at (h 0 n.succ_pos [] s rfl) fun a s₁ hfirst => ?_
    refine bind_congr_at (ih fun i hi as t hread => ?_) fun _ _ _ => rfl
    exact h (i + 1) (Nat.succ_lt_succ hi) _ t (times_succ_of_ok hfirst hread)

/-- A raw scalar in a field, with its tag. -/
def heldScalar (i : String) (u : ScalarType) : Read Field :=
  byte >>= fun _ => scalar u >>= fun x => Pure.pure (.scalar i x)

/-- What a field holds depends on the tag that follows its id. -/
theorem field_of_id (p : Read Encoded) {s t : Source} {i : String} (hid : Read.id s = .ok (i, t)) :
    field p s = match t.peek with
      | .error e => .error e
      | .ok (.scalar u) => heldScalar i u t
      | .ok _ => (p >>= fun v => Pure.pure (.value i v)) t := by
  rw [field, bind_of_ok hid]
  unfold Source.peek
  change (match t.rest with | [] => _ | b :: _ => _ : Read Field) t = _
  cases t.rest with
  | nil => rfl
  | cons b rest =>
    dsimp only
    unfold tag
    cases Tag.ofByte? b with
    | none => rfl
    | some u => cases u <;> rfl

theorem field_congr {p q : Read Encoded} {s : Source}
    (h : ∀ i t, Read.id s = .ok (i, t) → t.HoldsValue → p t = q t) : field p s = field q s := by
  cases hid : Read.id s with
  | error e => rw [field, field, bind_of_error hid, bind_of_error hid]
  | ok r =>
    obtain ⟨i, t⟩ := r
    rw [field_of_id p hid, field_of_id q hid]
    split
    · rfl
    · rfl
    · next tag hscalar hpeek =>
      exact bind_congr_at (h i t hid ⟨tag, hpeek, hscalar⟩) fun _ _ _ => rfl

theorem array_congr {p q : Read Encoded} {s : Source}
    (h : ∀ t, Meets p .array s t → p t = q t) : array p s = array q s := by
  refine bind_congr_at rfl fun c s₁ hc => bind_congr_at rfl fun n s₂ hn => ?_
  have hgeneral : (∀ u, c ≠ .scalar u) → times p n s₂ = times q n s₂ := fun hne =>
    times_congr fun i hi as t hread => h t (.element hc hne hn hi hread)
  cases c with
  | scalar t => rfl
  | _ => exact bind_congr_at (hgeneral fun u => nofun) fun _ _ _ => rfl

theorem object_congr {p q : Read Encoded} {s : Source}
    (h : ∀ t, Meets p .object s t → p t = q t) : object p s = object q s := by
  refine bind_congr_at rfl fun type s₁ htype => bind_congr_at rfl fun n s₂ hn => ?_
  refine bind_congr_at (times_congr fun i hi fs s₃ hread => ?_) fun _ _ _ => rfl
  exact field_congr fun id t hid hvalue => h t (.field htype hn hi hread hid hvalue)

/-- What follows a tag depends on how the values in it are read. -/
theorem body_congr {p q : Read Encoded} {t : Tag} {s : Source}
    (h : ∀ u, Meets p t s u → p u = q u) : body p t s = body q t s := by
  cases t with
  | array => exact array_congr h
  | object => exact object_congr h
  | _ => rfl

/-- What it takes to read an array. -/
theorem array_eq_ok {p : Read Encoded} {s s' : Source} {v : Encoded} (h : array p s = .ok (v, s')) :
    ∃ c s₁ n s₂ vs, component s = .ok (c, s₁) ∧ length s₁ = .ok (n, s₂) ∧
      ((∃ u, c = .scalar u ∧ times (Encoded.boxed <$> scalar u) n s₂ = .ok (vs, s')) ∨
        (∀ u, c ≠ .scalar u) ∧ times p n s₂ = .ok (vs, s')) := by
  obtain ⟨c, s₁, hc, h⟩ := bind_eq_ok h
  obtain ⟨n, s₂, hn, h⟩ := bind_eq_ok h
  refine ⟨c, s₁, n, s₂, ?_⟩
  cases c with
  | scalar u =>
    obtain ⟨vs, s₃, hread, hlast⟩ := bind_eq_ok h
    cases pure_eq_ok hlast
    exact ⟨vs, hc, hn, .inl ⟨u, rfl, hread⟩⟩
  | _ =>
    obtain ⟨vs, s₃, hread, hlast⟩ := bind_eq_ok h
    cases pure_eq_ok hlast
    exact ⟨vs, hc, hn, .inr ⟨fun u => nofun, hread⟩⟩

theorem object_eq_ok {p : Read Encoded} {s s' : Source} {v : Encoded}
    (h : object p s = .ok (v, s')) :
    ∃ type s₁ n s₂ fs, Read.id s = .ok (type, s₁) ∧ count s₁ = .ok (n, s₂) ∧
      times (field p) n s₂ = .ok (fs, s') := by
  obtain ⟨type, s₁, htype, h⟩ := bind_eq_ok h
  obtain ⟨n, s₂, hn, h⟩ := bind_eq_ok h
  obtain ⟨fs, s₃, hread, hlast⟩ := bind_eq_ok h
  cases pure_eq_ok hlast
  exact ⟨type, s₁, n, s₂, fs, htype, hn, hread⟩

/-- How a value goes on behind its tag, with the mark it gets if it is numbered. -/
def afterTag (follow : Nat → Read Encoded) (inner : Read Encoded) (m : Mark) : Tag → Read Encoded
  | .null => Pure.pure .null
  | .reference => length >>= follow
  | .scalar u => throw (.unexpectedTag (Tag.scalar u).byte)
  | t => begin m >>= fun number => body inner t >>= fun v => finish number >>= fun _ => Pure.pure v

theorem valueWith_eq (follow : Nat → Read Encoded) (inner : Read Encoded) (s : Source) :
    valueWith follow inner s =
      (byte >>= tag >>= afterTag follow inner ⟨s.offset, s.ids.size, false⟩) s := by
  change (byte >>= fun b => tag b >>= _) s = _
  rw [bind_assoc]
  refine bind_congr_at rfl fun b s₁ _ => bind_congr_at rfl fun t s₂ _ => ?_
  cases t <;> rfl

theorem valueWith_of_shows (follow : Nat → Read Encoded) (inner : Read Encoded) {s s₁ : Source}
    {t : Tag} (h : s.Shows t s₁) :
    valueWith follow inner s = afterTag follow inner ⟨s.offset, s.ids.size, false⟩ t s₁ := by
  rw [valueWith_eq, bind_of_ok h]

theorem valueWith_of_error (follow : Nat → Read Encoded) (inner : Read Encoded) {s : Source}
    {e : Error} (h : (byte >>= tag) s = .error e) : valueWith follow inner s = .error e := by
  rw [valueWith_eq, bind_of_error h]

/-- A value that is numbered gets the next number. -/
theorem valueWith_of_opens (follow : Nat → Read Encoded) (inner : Read Encoded) {s s₁ : Source}
    {t : Tag} (h : s.Opens t s₁) :
    valueWith follow inner s =
      (body inner t >>= fun v => finish s.marks.size >>= fun _ => Pure.pure v) s₁ := by
  obtain ⟨hnumbered, s₀, hshows, rfl⟩ := h
  have hmarks : s₀.marks = s.marks := ((Plain.byte.bind Plain.tag).before hshows).2
  rw [valueWith_of_shows follow inner hshows]
  cases t with
  | null | reference | scalar => cases hnumbered
  | _ =>
    rw [← hmarks]
    rfl

/-- What it takes to read a value. -/
theorem valueWith_eq_ok {follow : Nat → Read Encoded} {inner : Read Encoded} {s s' : Source}
    {v : Encoded} (h : valueWith follow inner s = .ok (v, s')) :
    (s.Shows .null s' ∧ v = .null) ∨
      (∃ k s₁, s.RefersTo k s₁ ∧ follow k s₁ = .ok (v, s')) ∨
      ∃ t s₁ s₂, s.Opens t s₁ ∧ body inner t s₁ = .ok (v, s₂) ∧
        finish s.marks.size s₂ = .ok ((), s') := by
  cases htag : (byte >>= tag) s with
  | error e =>
    rw [valueWith_of_error follow inner htag] at h
    cases h
  | ok r =>
    obtain ⟨t, s₁⟩ := r
    -- null, references and bare scalars apart, a tag opens a value with a number of its own
    have hopened : t.numbered → ∃ t s₁ s₂, s.Opens t s₁ ∧ body inner t s₁ = .ok (v, s₂) ∧
        finish s.marks.size s₂ = .ok ((), s') := by
      intro hnumbered
      have hopens : s.Opens t _ := ⟨hnumbered, s₁, htag, rfl⟩
      rw [valueWith_of_opens follow inner hopens] at h
      obtain ⟨w, s₂, hbody, h⟩ := bind_eq_ok h
      obtain ⟨_, s₃, hfinish, h⟩ := bind_eq_ok h
      cases pure_eq_ok h
      exact ⟨t, _, s₂, hopens, hbody, hfinish⟩
    cases t with
    | null =>
      rw [valueWith_of_shows follow inner htag] at h
      cases h
      exact .inl ⟨htag, rfl⟩
    | reference =>
      rw [valueWith_of_shows follow inner htag] at h
      obtain ⟨k, s₂, hlength, h⟩ := bind_eq_ok h
      exact .inr (.inl ⟨k, s₂, ⟨s₁, htag, hlength⟩, h⟩)
    | scalar u =>
      rw [valueWith_of_shows follow inner htag] at h
      cases h
    | _ => exact .inr (.inr (hopened rfl))

/-- **A reading depends on what it meets**: on how the values inside the value are read, and on how
the reference is followed if it is one. -/
theorem valueWith_congr {follow follow' : Nat → Read Encoded} {p q : Read Encoded} {s : Source}
    (hinner : ∀ t, s.Meets p t → p t = q t)
    (hfollow : ∀ k s₁, s.RefersTo k s₁ → follow k s₁ = follow' k s₁) :
    valueWith follow p s = valueWith follow' q s := by
  cases htag : (byte >>= tag) s with
  | error e => rw [valueWith_of_error follow p htag, valueWith_of_error follow' q htag]
  | ok r =>
    obtain ⟨t, s₁⟩ := r
    have hopened : t.numbered → valueWith follow p s = valueWith follow' q s := by
      intro hnumbered
      have hopens : s.Opens t _ := ⟨hnumbered, s₁, htag, rfl⟩
      rw [valueWith_of_opens follow p hopens, valueWith_of_opens follow' q hopens]
      refine bind_congr_at (body_congr fun u hu => ?_) fun _ _ _ => rfl
      exact hinner u ⟨t, _, hopens, hu⟩
    cases t with
    | null | scalar =>
      rw [valueWith_of_shows follow p htag, valueWith_of_shows follow' q htag]
      rfl
    | reference =>
      rw [valueWith_of_shows follow p htag, valueWith_of_shows follow' q htag]
      exact bind_congr_at rfl fun k s₂ hlength => hfollow k s₂ ⟨s₁, htag, hlength⟩
    | _ => exact hopened rfl

end Read

end

/-! ## What a reading keeps -/

/-- No plain step changes whether a source has the property. -/
def KeptPlainly (J : Source → Prop) : Prop :=
  ∀ s s' : Source, s.Before s' → s'.marks = s.marks → J s → J s'

namespace Read

variable {J : Source → Prop}

theorem times_keeps {α : Type} {p : Read α} {n : Nat} {s s' : Source} {as : List α}
    (h : ∀ i < n, ∀ as t a t', times p i s = .ok (as, t) → J t → p t = .ok (a, t') → J t')
    (hs : J s) (hread : times p n s = .ok (as, s')) : J s' := by
  induction n generalizing s as with
  | zero =>
    cases pure_eq_ok hread
    exact hs
  | succ n ih =>
    obtain ⟨a, s₁, rest, hfirst, hrest, rfl⟩ := times_succ_eq_ok hread
    refine ih (fun i hi as t b t' hbefore => ?_) (h 0 n.succ_pos [] s a s₁ rfl hs hfirst) hrest
    exact h (i + 1) (Nat.succ_lt_succ hi) _ t b t' (times_succ_of_ok hfirst hbefore)

theorem plain_heldScalar (i : String) (u : ScalarType) : Plain (heldScalar i u) :=
  Plain.byte.bind fun _ => (Plain.scalar u).bind fun _ => .pure _

section

variable {p : Read Encoded} {tag : Tag} {s s' t : Source} {v : Encoded} (hJ : KeptPlainly J)

include hJ

theorem keeps_of_plain {α : Type} {x : Read α} {a : α} (hx : Plain x) (h : x s = .ok (a, s'))
    (hs : J s) : J s' :=
  hJ s s' (hx.before h).1 (hx.before h).2 hs

theorem field_keeps {f : Field}
    (h : ∀ i t v t', Read.id s = .ok (i, t) → t.HoldsValue → J t → p t = .ok (v, t') → J t')
    (hs : J s) (hread : field p s = .ok (f, s')) : J s' := by
  obtain ⟨i, t, hid, -⟩ := bind_eq_ok hread
  have ht : J t := keeps_of_plain hJ Plain.id hid hs
  rw [field_of_id p hid] at hread
  split at hread
  · cases hread
  · next u _ => exact keeps_of_plain hJ (plain_heldScalar i u) hread ht
  · next tag hscalar hpeek =>
    obtain ⟨v, t', hvalue, hread⟩ := bind_eq_ok hread
    cases pure_eq_ok hread
    exact h i t v _ hid ⟨tag, hpeek, hscalar⟩ ht hvalue

variable (h : ∀ t v t', Meets p tag s t → J t → p t = .ok (v, t') → J t') (hs : J s)

include h hs

theorem elements_keep {s₁ s₂ : Source} {c : Component} {n i : Nat} {vs : List Encoded}
    (htag : tag = .array) (hc : component s = .ok (c, s₁)) (hne : ∀ u, c ≠ .scalar u)
    (hn : length s₁ = .ok (n, s₂)) (hi : i ≤ n) (hread : times p i s₂ = .ok (vs, t)) : J t := by
  subst htag
  have hs₂ := keeps_of_plain hJ Plain.length hn (keeps_of_plain hJ Plain.component hc hs)
  refine times_keeps (fun j hj as u v u' hbefore => ?_) hs₂ hread
  exact h u v u' (.element hc hne hn (hj.trans_le hi) hbefore)

theorem fields_keep {s₁ s₂ : Source} {type : String} {n i : Nat} {fs : List Field}
    (htag : tag = .object) (htype : Read.id s = .ok (type, s₁)) (hn : count s₁ = .ok (n, s₂))
    (hi : i ≤ n) (hread : times (field p) i s₂ = .ok (fs, t)) : J t := by
  subst htag
  have hs₂ := keeps_of_plain hJ Plain.count hn (keeps_of_plain hJ Plain.id htype hs)
  refine times_keeps (fun j hj as u f u' hbefore hu hfield => ?_) hs₂ hread
  refine field_keeps hJ (fun id w v w' hid hvalue => ?_) hu hfield
  exact h w v w' (.field htype hn (hj.trans_le hi) hbefore hid hvalue)

/-- A property that every value inside keeps holds wherever a value is met. -/
theorem Meets.keeps (hmeets : Meets p tag s t) : J t := by
  cases hmeets with
  | element hc hne hn hi hread => exact elements_keep hJ h hs rfl hc hne hn hi.le hread
  | field htype hn hi hread hid hvalue =>
    exact keeps_of_plain hJ Plain.id hid (fields_keep hJ h hs rfl htype hn hi.le hread)

/-- And it holds behind them. -/
theorem body_keeps (hread : body p tag s = .ok (v, s')) : J s' := by
  cases tag with
  | boxed t => exact keeps_of_plain hJ ((Plain.scalar t).map _) hread hs
  | string =>
    exact keeps_of_plain hJ (Plain.length.bind fun n => (Plain.text n).bind fun _ => .pure _) hread hs
  | enum => exact keeps_of_plain hJ (Plain.id.bind fun _ => Plain.id.bind fun _ => .pure _) hread hs
  | typeLiteral => exact keeps_of_plain hJ (Plain.component.map _) hread hs
  | null | reference | scalar => cases hread
  | array =>
    obtain ⟨c, s₁, n, s₂, vs, hc, hn, hread⟩ := array_eq_ok hread
    rcases hread with ⟨u, rfl, hread⟩ | ⟨hne, hread⟩
    · refine keeps_of_plain hJ (((Plain.scalar u).map _).times n) hread ?_
      exact keeps_of_plain hJ Plain.length hn (keeps_of_plain hJ Plain.component hc hs)
    · exact elements_keep hJ h hs rfl hc hne hn n.le_refl hread
  | object =>
    obtain ⟨type, s₁, n, s₂, fs, htype, hn, hread⟩ := object_eq_ok hread
    exact fields_keep hJ h hs rfl htype hn n.le_refl hread

end

/-- Values are met further on. -/
theorem Meets.before {p : Read Encoded} {tag : Tag} {s u : Source} (hp : Advances p)
    (h : Meets p tag s u) : s.Before u :=
  h.keeps (J := s.Before) (fun _ _ hbefore _ ht => ht.trans hbefore)
    (fun t v t' _ ht hread => ht.trans (hp t v t' hread)) (.refl s)

end Read

end ScriptStore.Codec
