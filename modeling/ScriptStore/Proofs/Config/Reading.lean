import ScriptStore.Proofs.Config.Line

/-!
# Documents without errors

`Reads` says, without a parser, which nodes the lines of a section are when none of them breaks
the rules: a void line at any indentation, a line at the section's level that is a leaf or opens a
block one level deeper, up to the end or to a line that stands at a smaller level. Loading finds
these nodes, and when it reports no error it has found them. Beside the nodes the relation keeps
whether the unit of indentation has been seen: it has after the first line with content in a nested
section.
-/

namespace ScriptStore.Config

open Text (isBlank trim)

/-- The node of a line that opens no section, with the complaint if it is no entry. -/
def leafOf (options : Options) (text : List Char) (comment : String) (number : Nat) :
    Node × Option Diagnostic :=
  if options.simple then
    (Node.ofLeaf (some (String.ofList text)) comment (some number) .simple, none)
  else Section.entryFromText (String.ofList text) options.separator comment (some number)

/-- `Reads options unit level known lines nodes known' rest`: the first of the `lines` are the
`nodes` of a section at the `level`, and the `rest` comes after the section. -/
inductive Reads (options : Options) (unit : List Char) :
    Nat → Bool → List (Nat × String) → List Node → Bool → List (Nat × String) → Prop
  | nil {level : Nat} {known : Bool} : Reads options unit level known [] [] known []
  | outside {level k number : Nat} {known : Bool} {line : String} {lines : List (Nat × String)}
      (hk : k < level) (hat : StandsAt unit k (valueOf line)) :
      Reads options unit level known ((number, line) :: lines) [] known ((number, line) :: lines)
  | void {level number : Nat} {known known' : Bool} {line : String}
      {lines rest : List (Nat × String)} {nodes : List Node}
      (hvoid : trim (valueOf line) = [])
      (h : Reads options unit level known lines nodes known' rest) :
      Reads options unit level known ((number, line) :: lines)
        (Node.ofLeaf none (commentOf line) (some number) .void :: nodes) known' rest
  | leaf {level number : Nat} {known known' : Bool} {line : String}
      {lines rest : List (Nat × String)} {n : Node} {nodes : List Node}
      (hat : StandsAt unit level (valueOf line))
      (hkey : headerKey? options (trim (valueOf line)) = none)
      (hleaf : leafOf options (trim (valueOf line)) (commentOf line) number = (n, none))
      (h : Reads options unit level (known || decide (0 < level)) lines nodes known' rest) :
      Reads options unit level known ((number, line) :: lines) (n :: nodes) known' rest
  | block {level number : Nat} {known known₁ known' : Bool} {line : String}
      {lines lines₁ rest : List (Nat × String)} {key : List Char} {inner nodes : List Node}
      (hat : StandsAt unit level (valueOf line))
      (hkey : headerKey? options (trim (valueOf line)) = some key)
      (hinner : Reads options unit (level + 1) (known || decide (0 < level)) lines inner known₁ lines₁)
      (h : Reads options unit level known₁ lines₁ nodes known' rest) :
      Reads options unit level known ((number, line) :: lines)
        (Node.ofSection (String.ofList key) (commentOf line) (some number) (.ofNodes inner) :: nodes)
        known' rest

/-- Whether nothing is left, or a line at a smaller level. -/
def Stops (unit : List Char) (level : Nat) (lines : List (Nat × String)) : Prop :=
  ∀ e ∈ lines.head?, ∃ k < level, StandsAt unit k (valueOf e.2)

section

variable {options : Options} {unit : List Char} {level : Nat} {known known' : Bool}
  {lines rest : List (Nat × String)} {nodes : List Node}

theorem Reads.of_stops (h : Stops unit level rest) :
    Reads options unit level known rest [] known rest := by
  cases rest with
  | nil => exact .nil
  | cons e rest =>
    obtain ⟨k, hk, hat⟩ := h e rfl
    exact .outside hk hat

theorem Reads.stops (h : Reads options unit level known lines nodes known' rest) :
    Stops unit level rest := by
  induction h with
  | nil => simp [Stops]
  | outside hk hat =>
    intro e he
    cases he
    exact ⟨_, hk, hat⟩
  | void _ _ ih => exact ih
  | leaf _ _ _ _ ih => exact ih
  | block _ _ _ _ _ ih => exact ih

/-- A unit that has been seen stays so. -/
theorem Reads.known_of_known (h : Reads options unit level known lines nodes known' rest)
    (hknown : known = true) : known' = true := by
  induction h with
  | nil => exact hknown
  | outside => exact hknown
  | void _ _ ih => exact ih hknown
  | leaf _ _ _ _ ih => exact ih (by rw [hknown, Bool.true_or])
  | block _ _ _ _ ihInner ih => exact ih (ihInner (by rw [hknown, Bool.true_or]))

/-- What comes after a section is the end of the lines. -/
theorem Reads.suffix (h : Reads options unit level known lines nodes known' rest) :
    rest <:+ lines := by
  induction h with
  | nil => exact List.suffix_refl _
  | outside => exact List.suffix_refl _
  | void _ _ ih => exact ih.trans (List.suffix_cons _ _)
  | leaf _ _ _ _ ih => exact ih.trans (List.suffix_cons _ _)
  | block _ _ _ _ ihInner ih => exact (ih.trans ihInner).trans (List.suffix_cons _ _)

end

/-! ## Loading what can be read -/

/-- What loading knows of the unit: that it is `unit`, or nothing yet. -/
structure Progress.Knows (p : Progress) (unit : List Char) (known : Bool) : Prop where
  known_eq : p.unitKnown = known
  seen : known = true → p.unit = unit
  unseen : known = false → p.unit = ['\t']

theorem sniffUnit_of_void {value : List Char} (h : trim value = []) (p : Progress) (level : Nat) :
    sniffUnit p level value = .ok p := by
  rw [sniffUnit, if_pos (by simp [h])]

theorem sniffUnit_of_content {value : List Char} (h : Line.startsWithContent value = true)
    (p : Progress) (level : Nat) : sniffUnit p level value = .ok p := by
  rw [sniffUnit, if_pos (by simp [h])]

theorem sniffUnit_of_known {p : Progress} (h : p.unitKnown = true) (level : Nat)
    (value : List Char) : sniffUnit p level value = .ok p := by
  rw [sniffUnit, if_pos (by simp [h])]

/-- The first line with content in a nested section shows the unit. -/
theorem sniffUnit_of_standsAt {unit value : List Char} (hunit : IsUnit unit) {p : Progress}
    (hp : p.unitKnown = false) (hat : StandsAt unit 1 value) :
    sniffUnit p 1 value = .ok { p with unit, unitKnown := true } := by
  have htrim := hat.trim_ne_nil
  obtain ⟨text, rfl, htext⟩ := hat
  have hone := indentOf_one unit
  have hblanks : Line.indentation (indentOf unit 1 ++ text) = unit := by
    rw [hunit.indentation_eq htext, hone]
  have hstart : Line.startsWithContent (indentOf unit 1 ++ text) = false := by
    obtain ⟨c, more, hcons⟩ := List.exists_cons_of_ne_nil hunit.ne_nil
    rw [hone, hcons, List.cons_append, Line.startsWithContent, hunit.blank (hcons ▸ .head _)]
    rfl
  have huniform : unit.all (· == ' ') || unit.all (· == '\t') := by
    rcases hunit.uniform with hall | hall
    · simp [List.all_eq_true.2 fun c hc => beq_iff_eq.2 (hall c hc)]
    · simp [List.all_eq_true.2 fun c hc => beq_iff_eq.2 (hall c hc)]
  rw [sniffUnit, if_neg (by simp [hp, htrim, hstart])]
  simp only [hblanks]
  rw [if_pos huniform]

section

variable {unit : List Char} (hunit : IsUnit unit) {p : Progress} {known : Bool}
  (hp : p.Knows unit known) {level : Nat} (hlevel : level ≤ 1 ∨ known = true) {value : List Char}

include hunit hp hlevel

/-- A line at the level of the section is content, and shows the unit if the section is nested. -/
theorem place_content (hat : StandsAt unit level value) :
    ∃ p₁, sniffUnit p level value = .ok p₁ ∧
      placeLine p₁.unit level value = .content (trim value) ∧
      p₁.Knows unit (known || decide (0 < level)) ∧ p₁.findings = p.findings := by
  cases known with
  | true =>
    have heq : p.unit = unit := hp.seen rfl
    exact ⟨p, sniffUnit_of_known hp.known_eq level value,
      placeLine_content (heq.symm ▸ hat), hp, rfl⟩
  | false =>
    match level, hlevel with
    | 0, _ =>
      have hzero := standsAt_zero.1 hat
      exact ⟨p, sniffUnit_of_content hzero p 0,
        placeLine_content (standsAt_zero.2 hzero), hp, rfl⟩
    | 1, _ =>
      exact ⟨_, sniffUnit_of_standsAt hunit hp.known_eq hat, placeLine_content hat,
        ⟨rfl, fun _ => rfl, nofun⟩, rfl⟩

/-- A line at a smaller level ends the section. -/
theorem place_outside {k : Nat} (hk : k < level) (hat : StandsAt unit k value) :
    sniffUnit p level value = .ok p ∧ placeLine p.unit level value = .outside := by
  cases known with
  | true =>
    have heq : p.unit = unit := hp.seen rfl
    exact ⟨sniffUnit_of_known hp.known_eq level value,
      placeLine_outside (heq.symm ▸ hunit) hk (heq.symm ▸ hat)⟩
  | false =>
    -- in the first nested section only level zero is smaller
    obtain rfl : k = 0 := by
      rcases hlevel with hle | hfalse
      · omega
      · cases hfalse
    have hzero := standsAt_zero.1 hat
    have htab : p.unit = ['\t'] := hp.unseen rfl
    exact ⟨sniffUnit_of_content hzero p level,
      placeLine_outside (htab ▸ isUnit_tab) hk (standsAt_zero.2 hzero)⟩

end

/-! One equation for each way in which a line without fault is taken. -/

section

variable {options : Options} {fuel level number : Nat} {p p₁ : Progress} {nodes : List Node}
  {line : String} {lines : List (Nat × String)}
  (hsniff : sniffUnit p level (valueOf line) = .ok p₁)

include hsniff

theorem loadSection_void (hplace : placeLine p₁.unit level (valueOf line) = .void) :
    loadSection options (fuel + 1) level p nodes ((number, line) :: lines)
      = loadSection options fuel level p₁
          (Node.ofLeaf none (commentOf line) (some number) .void :: nodes) lines := by
  unfold valueOf at hsniff hplace
  rw [loadSection]
  simp only [hsniff, hplace]
  rfl

theorem loadSection_outside (hplace : placeLine p₁.unit level (valueOf line) = .outside) :
    ∃ p', loadSection options (fuel + 1) level p nodes ((number, line) :: lines)
        = (.ofNodes nodes.reverse, p', (number, line) :: lines) ∧
      p'.unit = p₁.unit ∧ p'.unitKnown = p₁.unitKnown ∧
      Document.countErrors p'.findings = Document.countErrors p₁.findings := by
  unfold valueOf at hsniff hplace
  rw [loadSection]
  simp only [hsniff, hplace]
  refine ⟨_, rfl, ?_⟩
  split
  · exact ⟨rfl, rfl, rfl⟩
  · exact ⟨rfl, rfl, rfl⟩

theorem loadSection_leaf {text : List Char} {n : Node}
    (hplace : placeLine p₁.unit level (valueOf line) = .content text)
    (hkey : headerKey? options text = none)
    (hleaf : leafOf options text (commentOf line) number = (n, none)) :
    loadSection options (fuel + 1) level p nodes ((number, line) :: lines)
      = loadSection options fuel level p₁ (n :: nodes) lines := by
  unfold valueOf at hsniff hplace
  unfold commentOf leafOf at hleaf
  rw [loadSection]
  simp only [hsniff, hplace, hkey]
  split at hleaf
  · next hsimple =>
    cases hleaf
    rw [if_pos hsimple]
  · next hsimple =>
    rw [if_neg hsimple, hleaf]

theorem loadSection_block {text key : List Char} {inner : Section} {p₂ : Progress}
    {lines₁ : List (Nat × String)}
    (hplace : placeLine p₁.unit level (valueOf line) = .content text)
    (hkey : headerKey? options text = some key)
    (hinner : loadSection options fuel (level + 1) p₁ [] lines = (inner, p₂, lines₁)) :
    loadSection options (fuel + 1) level p nodes ((number, line) :: lines)
      = loadSection options fuel level p₂
          (Node.ofSection (String.ofList key) (commentOf line) (some number) inner :: nodes)
          lines₁ := by
  unfold valueOf at hsniff hplace
  rw [loadSection]
  simp only [hsniff, hplace, hkey, hinner]
  rfl

end

/-- Below the first level the unit has been seen. -/
theorem level_le_one_or_known {level : Nat} {known known₁ : Bool}
    (h : known₁ = (known || decide (0 < level))) : level + 1 ≤ 1 ∨ known₁ = true := by
  rcases Nat.eq_zero_or_pos level with h0 | hpos
  · exact .inl (by omega)
  · exact .inr (by simp [h, hpos])

/-- **Loading finds the nodes that the lines are.** -/
theorem Reads.loadSection_eq {options : Options} {unit : List Char} (hunit : IsUnit unit)
    {level : Nat} {known known' : Bool} {lines rest : List (Nat × String)} {nodes : List Node}
    (h : Reads options unit level known lines nodes known' rest) :
    ∀ {fuel : Nat} {p : Progress} {front : List Node}, lines.length ≤ fuel → p.Knows unit known →
      (level ≤ 1 ∨ known = true) →
      ∃ p', loadSection options fuel level p front lines
          = (.ofNodes (front.reverse ++ nodes), p', rest) ∧ p'.Knows unit known' ∧
        Document.countErrors p'.findings = Document.countErrors p.findings := by
  induction h with
  | nil =>
    intro fuel p front _ hp _
    refine ⟨p, ?_, hp, rfl⟩
    cases fuel <;> simp [loadSection]
  | outside hk hat =>
    intro fuel p front hfuel hp hlevel
    cases fuel with
    | zero => cases hfuel
    | succ fuel =>
      obtain ⟨hsniff, hplace⟩ := place_outside hunit hp hlevel hk hat
      obtain ⟨p', heq, hunit', hknown', herrors⟩ := loadSection_outside hsniff hplace
      rw [List.append_nil]
      exact ⟨p', heq, ⟨hknown'.trans hp.known_eq, fun hk => hunit'.trans (hp.seen hk),
        fun hk => hunit'.trans (hp.unseen hk)⟩, herrors⟩
  | void hvoid _ ih =>
    intro fuel p front hfuel hp hlevel
    cases fuel with
    | zero => cases hfuel
    | succ fuel =>
      rw [loadSection_void (sniffUnit_of_void hvoid p _) (placeLine_void hvoid),
        List.append_cons, ← List.reverse_cons]
      exact ih (Nat.le_of_succ_le_succ hfuel) hp hlevel
  | leaf hat hkey hleaf _ ih =>
    intro fuel p front hfuel hp hlevel
    cases fuel with
    | zero => cases hfuel
    | succ fuel =>
      obtain ⟨p₁, hsniff, hplace, hp₁, hfindings⟩ := place_content hunit hp hlevel hat
      obtain ⟨p', heq, hp', herrors⟩ := ih (Nat.le_of_succ_le_succ hfuel) hp₁
        (hlevel.imp_right fun hknown => by rw [hknown, Bool.true_or])
      refine ⟨p', ?_, hp', herrors.trans (by rw [hfindings])⟩
      rw [loadSection_leaf hsniff hplace hkey hleaf, List.append_cons, ← List.reverse_cons]
      exact heq
  | block hat hkey hinner h ihInner ih =>
    intro fuel p front hfuel hp hlevel
    cases fuel with
    | zero => cases hfuel
    | succ fuel =>
      have hfuel' := Nat.le_of_succ_le_succ hfuel
      obtain ⟨p₁, hsniff, hplace, hp₁, hfindings⟩ := place_content hunit hp hlevel hat
      obtain ⟨p₂, heq₂, hp₂, herrors₂⟩ := @ihInner fuel p₁ [] hfuel' hp₁ (level_le_one_or_known rfl)
      have hlevel₂ := hlevel.imp_right fun hknown =>
        hinner.known_of_known (by rw [hknown, Bool.true_or])
      obtain ⟨p', heq, hp', herrors⟩ := ih (Nat.le_trans hinner.suffix.length_le hfuel') hp₂ hlevel₂
      refine ⟨p', ?_, hp', by rw [herrors, herrors₂, hfindings]⟩
      rw [loadSection_block hsniff hplace hkey heq₂, List.append_cons, ← List.reverse_cons]
      exact heq

/-! ## What loading without errors has read -/

/-- What loading has learned only grows: errors are not forgotten, and a unit is kept. -/
structure Progress.Grows (p p' : Progress) : Prop where
  errors : Document.countErrors p.findings ≤ Document.countErrors p'.findings
  kept : p.unitKnown = true → p'.unitKnown = true ∧ p'.unit = p.unit
  unset : p'.unitKnown = false → p'.unit = p.unit
  isUnit : IsUnit p.unit → IsUnit p'.unit

namespace Progress.Grows

theorem refl (p : Progress) : p.Grows p := ⟨Nat.le_refl _, fun h => ⟨h, rfl⟩, fun _ => rfl, id⟩

theorem trans {p₁ p₂ p₃ : Progress} (h₁ : p₁.Grows p₂) (h₂ : p₂.Grows p₃) : p₁.Grows p₃ where
  errors := Nat.le_trans h₁.errors h₂.errors
  kept h := ⟨(h₂.kept (h₁.kept h).1).1, (h₂.kept (h₁.kept h).1).2.trans (h₁.kept h).2⟩
  unset h := by
    have h₂' : p₂.unitKnown = false := by
      cases hk : p₂.unitKnown with
      | false => rfl
      | true => rw [(h₂.kept hk).1] at h; cases h
    exact (h₂.unset h).trans (h₁.unset h₂')
  isUnit h := h₂.isUnit (h₁.isUnit h)

theorem report (p : Progress) (severity : Severity) (message : String) (number : Nat) :
    p.Grows (p.report severity message number) where
  errors := by
    simp only [Progress.report, Document.countErrors, List.filter_cons]
    split
    · exact Nat.le_succ _
    · exact Nat.le_refl _
  kept h := ⟨h, rfl⟩
  unset _ := rfl
  isUnit := id

end Progress.Grows

theorem countErrors_report (p : Progress) (message : String) (number : Nat) :
    Document.countErrors (p.report .error message number).findings
      = Document.countErrors p.findings + 1 := rfl

/-- What a line tells about the unit: nothing, or the unit itself. -/
theorem sniffUnit_eq_ok {p p₁ : Progress} {level : Nat} {value : List Char}
    (h : sniffUnit p level value = .ok p₁) :
    p₁ = p ∧ (p.unitKnown = true ∨ level ≠ 1 ∨ trim value = [] ∨
        Line.startsWithContent value = true) ∨
      p.unitKnown = false ∧ level = 1 ∧ trim value ≠ [] ∧ Line.startsWithContent value = false ∧
        IsUnit p₁.unit ∧ p₁ = { p with unit := p₁.unit, unitKnown := true } := by
  rw [sniffUnit] at h
  split at h
  · next hskip =>
    cases h
    refine .inl ⟨rfl, ?_⟩
    simpa [or_assoc] using hskip
  · next hask =>
    simp only [Bool.or_eq_true, not_or, bne_iff_ne, ne_eq, Decidable.not_not,
      Bool.not_eq_true] at hask
    obtain ⟨⟨⟨hknown, hlevel⟩, htrim⟩, hstart⟩ := hask
    dsimp only at h
    split at h
    · next huniform =>
      cases h
      refine .inr ⟨hknown, hlevel, by simpa using htrim, hstart,
        ⟨?_, by simpa using huniform⟩, rfl⟩
      -- the line has content, and a blank in front of it
      cases value with
      | nil => cases htrim
      | cons c rest =>
        have hc : isBlank c = true := by simpa [Line.startsWithContent] using hstart
        rw [Line.indentation, List.takeWhile_cons_of_pos hc]
        exact List.cons_ne_nil _ _
    · cases h

theorem sniffUnit_grows {p p₁ : Progress} {level : Nat} {value : List Char}
    (h : sniffUnit p level value = .ok p₁) : p.Grows p₁ := by
  rcases sniffUnit_eq_ok h with ⟨rfl, _⟩ | ⟨hknown, _, _, _, hunit, heq⟩
  · exact .refl _
  · rw [heq]
    refine ⟨Nat.le_refl _, fun hk => ?_, nofun, fun _ => hunit⟩
    rw [hknown] at hk
    cases hk

theorem loadSection_grows (options : Options) (fuel level : Nat) (p : Progress)
    (nodes : List Node) (lines : List (Nat × String)) :
    p.Grows (loadSection options fuel level p nodes lines).2.1 := by
  fun_induction loadSection options fuel level p nodes lines with
  | case1 => exact .refl _
  | case2 => exact .refl _
  | case3 _ _ p _ number _ _ _ _ _ _ message _ _ ih => exact (Progress.Grows.report ..).trans ih
  | case4 _ _ _ _ _ _ _ _ _ _ _ _ hsniff _ _ _ _ ih =>
    exact (sniffUnit_grows hsniff).trans ((Progress.Grows.report ..).trans ih)
  | case5 _ _ _ _ _ _ _ _ _ _ _ hsniff _ warn =>
    refine (sniffUnit_grows hsniff).trans ?_
    show Progress.Grows _ (if warn = true then _ else _)
    split
    · exact .report ..
    · exact .refl _
  | case6 _ _ _ _ _ _ _ _ _ _ _ _ hsniff _ _ ih => exact (sniffUnit_grows hsniff).trans ih
  | case7 _ _ _ _ _ _ _ _ _ _ _ _ hsniff _ _ _ _ _ _ _ hinner _ ihInner ih =>
    rw [hinner] at ihInner
    exact (sniffUnit_grows hsniff).trans (ihInner.trans ih)
  | case8 _ _ _ _ _ _ _ _ _ _ _ _ hsniff _ _ _ _ _ _ ih => exact (sniffUnit_grows hsniff).trans ih
  | case9 _ _ _ _ _ _ _ _ _ _ _ _ hsniff _ _ _ _ _ _ found _ _ ih =>
    refine (sniffUnit_grows hsniff).trans (.trans ?_ ih)
    cases found with
    | none => exact .refl _
    | some d => exact .report ..

/-- What is known of the unit before a line, seen from the end. -/
theorem Progress.Grows.knows {p p' : Progress} (h : p.Grows p')
    (htab : p.unitKnown = false → p.unit = ['\t']) {unit : List Char}
    (hunit : p'.unitKnown = true → p'.unit = unit) : p.Knows unit p.unitKnown :=
  ⟨rfl, fun hk => (h.kept hk).2.symm.trans (hunit (h.kept hk).1), htab⟩

theorem sniffUnit_void {p p₁ : Progress} {value : List Char} {level : Nat}
    (hsniff : sniffUnit p level value = .ok p₁) (hvoid : trim value = []) : p₁ = p := by
  rcases sniffUnit_eq_ok hsniff with ⟨heq, _⟩ | ⟨_, _, htrim, _⟩
  · exact heq
  · exact absurd hvoid htrim

section

variable {p p₁ : Progress} {unit value : List Char} {level : Nat}
  (hsniff : sniffUnit p level value = .ok p₁) (hp₁ : p₁.Knows unit p₁.unitKnown)
  (hlevel : level ≤ 1 ∨ p.unitKnown = true)

include hsniff hp₁ hlevel

/-- A line that is content for the loader stands at the level of the section. -/
theorem standsAt_of_content {text : List Char}
    (hplace : placeLine p₁.unit level value = .content text) :
    StandsAt unit level value ∧ p₁.unitKnown = (p.unitKnown || decide (0 < level)) := by
  have hat := (standsAt_of_placeLine_content hplace).2
  rcases sniffUnit_eq_ok hsniff with ⟨rfl, hskip⟩ | ⟨_, rfl, _, _, _, heq⟩
  · cases hk : p₁.unitKnown with
    | true => exact ⟨hp₁.seen hk ▸ hat, by rw [Bool.true_or]⟩
    | false =>
      rw [hk] at hskip hlevel
      match level, hlevel with
      | 0, _ => exact ⟨standsAt_zero.2 (standsAt_zero.1 hat), rfl⟩
      | 1, _ =>
        -- content behind a tab would have shown the unit
        exfalso
        obtain ⟨more, rfl, _⟩ := hp₁.unseen hk ▸ hat
        rcases hskip with h | h | h | h
        · cases h
        · exact h rfl
        · exact hat.trim_ne_nil h
        · cases h
  · have hk : p₁.unitKnown = true := by rw [heq]
    exact ⟨hp₁.seen hk ▸ hat, by rw [hk, Bool.or_comm]; rfl⟩

/-- A line that ends a section for the loader stands at a smaller level. -/
theorem standsAt_of_outside (hplace : placeLine p₁.unit level value = .outside) :
    p₁ = p ∧ ∃ k < level, StandsAt unit k value := by
  obtain ⟨k, hk, hat⟩ := standsAt_of_placeLine_outside hplace
  rcases sniffUnit_eq_ok hsniff with ⟨rfl, _⟩ | ⟨_, rfl, _, hstart, _⟩
  · refine ⟨rfl, k, hk, ?_⟩
    cases hknown : p₁.unitKnown with
    | true => exact hp₁.seen hknown ▸ hat
    | false =>
      rw [hknown] at hlevel
      obtain rfl : k = 0 := by
        rcases hlevel with hle | hfalse
        · omega
        · cases hfalse
      exact standsAt_zero.2 (standsAt_zero.1 hat)
  · obtain rfl : k = 0 := by omega
    rw [standsAt_zero.1 hat] at hstart
    cases hstart

end

theorem Reads.leaf_of_place {options : Options} {p p₁ : Progress} {unit : List Char}
    {level number : Nat} {line : String} {lines rest : List (Nat × String)} {text : List Char}
    {n : Node} {nodes : List Node} {known' : Bool}
    (hsniff : sniffUnit p level (valueOf line) = .ok p₁) (hp₁ : p₁.Knows unit p₁.unitKnown)
    (hlevel : level ≤ 1 ∨ p.unitKnown = true)
    (hplace : placeLine p₁.unit level (valueOf line) = .content text)
    (hkey : headerKey? options text = none)
    (hleaf : leafOf options text (commentOf line) number = (n, none))
    (h : Reads options unit level p₁.unitKnown lines nodes known' rest) :
    Reads options unit level p.unitKnown ((number, line) :: lines) (n :: nodes) known' rest := by
  obtain ⟨hat, hknown⟩ := standsAt_of_content hsniff hp₁ hlevel hplace
  obtain rfl := (standsAt_of_placeLine_content hplace).1
  exact .leaf hat hkey hleaf (hknown ▸ h)

theorem Progress.Grows.tab {p p' : Progress} (h : p.Grows p')
    (htab : p.unitKnown = false → p.unit = ['\t']) (hk : p'.unitKnown = false) :
    p'.unit = ['\t'] := by
  rw [h.unset hk]
  apply htab
  cases hp : p.unitKnown with
  | false => rfl
  | true =>
    rw [(h.kept hp).1] at hk
    cases hk

theorem grows_of_loadSection {options : Options} {fuel level : Nat} {p p' : Progress}
    {nodes : List Node} {lines rest : List (Nat × String)} {s : Section}
    (h : loadSection options fuel level p nodes lines = (s, p', rest)) : p.Grows p' := by
  have hgrows := loadSection_grows options fuel level p nodes lines
  rwa [h] at hgrows

theorem not_found_of_errors {p : Progress} {text separator comment : String}
    {line : Option Nat} {number : Nat} {n : Node} {found : Option Diagnostic}
    (hentry : Section.entryFromText text separator comment line = (n, found))
    (h : Document.countErrors (match found with
      | some d => p.report d.severity d.message number
      | none => p).findings ≤ Document.countErrors p.findings) : found = none := by
  cases found with
  | none => rfl
  | some d =>
    rw [Section.entryFromText] at hentry
    split at hentry
    · cases hentry
    · cases hentry
      exact absurd h (Nat.not_succ_le_self _)

/-- From `p` to `p'` a section at the `level` is loaded without an error, and the unit that has been
seen by then is `unit`. -/
structure Progress.Faultless (p p' : Progress) (unit : List Char) (level : Nat) : Prop where
  grows : p.Grows p'
  depth : level ≤ 1 ∨ p.unitKnown = true
  tab : p.unitKnown = false → p.unit = ['\t']
  errors : Document.countErrors p'.findings ≤ Document.countErrors p.findings
  seen : p'.unitKnown = true → p'.unit = unit

namespace Progress.Faultless

variable {p p₁ p' : Progress} {unit : List Char} {level : Nat}

theorem knows (h : p.Faultless p' unit level) : p.Knows unit p.unitKnown :=
  h.grows.knows h.tab h.seen

/-- What comes later in the section is without errors too. -/
theorem later (h : p.Faultless p' unit level) (hfirst : p.Grows p₁) (hlater : p₁.Grows p') :
    p₁.Faultless p' unit level :=
  ⟨hlater, h.depth.imp_right fun hk => (hfirst.kept hk).1, hfirst.tab h.tab,
    Nat.le_trans h.errors hfirst.errors, h.seen⟩

/-- So is what comes first, as a section one level deeper. -/
theorem inner (h : p.Faultless p' unit level) (hdepth : level + 1 ≤ 1 ∨ p.unitKnown = true)
    (hfirst : p.Grows p₁) (hlater : p₁.Grows p') : p.Faultless p₁ unit (level + 1) :=
  ⟨hfirst, hdepth, h.tab, Nat.le_trans hlater.errors h.errors, fun hk =>
    (hlater.kept hk).2.symm.trans (h.seen (hlater.kept hk).1)⟩

theorem not_reported (h : p.Faultless p' unit level) (hfirst : p.Grows p₁) {message : String}
    {number : Nat} : ¬(p₁.report .error message number).Grows p' := by
  intro hlater
  have hmore := hlater.errors
  rw [countErrors_report] at hmore
  have hmore₁ := hfirst.errors
  have herrors := h.errors
  omega

end Progress.Faultless

/-- **Loading without errors reads the lines.** -/
theorem reads_of_loadSection {options : Options} {unit : List Char} (fuel level : Nat)
    (p : Progress) (front : List Node) (lines : List (Nat × String)) {s : Section} {p' : Progress}
    {rest : List (Nat × String)}
    (h : loadSection options fuel level p front lines = (s, p', rest))
    (hfuel : lines.length ≤ fuel) (hp : p.Faultless p' unit level) :
    ∃ nodes, s = .ofNodes (front.reverse ++ nodes) ∧
      Reads options unit level p.unitKnown lines nodes p'.unitKnown rest := by
  -- a node that is read comes behind those that were read before it
  have hsnoc : ∀ (front : List Node) (n : Node) (nodes : List Node),
      (n :: front).reverse ++ nodes = front.reverse ++ n :: nodes := fun front n nodes => by
    rw [List.reverse_cons, List.append_assoc, List.singleton_append]
  fun_induction loadSection options fuel level p front lines generalizing s p' rest with
  | case1 level p front lines =>
    cases h
    cases List.length_eq_zero_iff.1 (Nat.le_zero.1 hfuel)
    exact ⟨[], by rw [List.append_nil], .nil⟩
  | case2 fuel level p front =>
    cases h
    exact ⟨[], by rw [List.append_nil], .nil⟩
  | case3 fuel level p front number line lines value comment hsplit _ message hsniff =>
    exact absurd (grows_of_loadSection h) (hp.not_reported (.refl _))
  | case4 fuel level p front number line lines value comment hsplit _ p₁ hsniff _ _ hplace =>
    exact absurd (grows_of_loadSection h) (hp.not_reported (sniffUnit_grows hsniff))
  | case5 fuel level p front number line lines value comment hsplit p₁ hsniff hplace =>
    rename_i warn p₂
    obtain rfl : valueOf line = value := by rw [valueOf, hsplit]
    have hgrows : p₁.Grows p₂ := by
      show Progress.Grows _ (if warn = true then _ else _)
      split
      · exact .report ..
      · exact .refl _
    have hknown : p₂.unitKnown = p₁.unitKnown := by
      show Progress.unitKnown (if warn = true then _ else _) = _
      split <;> rfl
    cases h
    have hp₁ := hp.later (sniffUnit_grows hsniff) hgrows
    obtain ⟨rfl, k, hk, hat⟩ := standsAt_of_outside hsniff hp₁.knows hp.depth hplace
    refine ⟨[], by rw [List.append_nil], ?_⟩
    rw [hknown]
    exact .outside hk hat
  | case6 fuel level p front number line lines value comment hsplit _ p₁ hsniff hplace =>
    rename_i n ih
    obtain rfl : valueOf line = value := by rw [valueOf, hsplit]
    have hvoid := trim_of_placeLine_void hplace
    cases sniffUnit_void hsniff hvoid
    obtain ⟨nodes, rfl, hreads⟩ := ih h (Nat.le_of_succ_le_succ hfuel) hp
    have hn : n = Node.ofLeaf none (commentOf line) (some number) .void := by
      rw [commentOf, hsplit]
    refine ⟨n :: nodes, by rw [hsnoc], ?_⟩
    rw [hn]
    exact .void hvoid hreads
  | case7 fuel level p front number line lines value comment hsplit _ p₁ hsniff text hplace key hkey
      inner p₂ lines₁ hinner n =>
      rename_i ihInner ih
      obtain rfl : valueOf line = value := by rw [valueOf, hsplit]
      have hgrows₂ := grows_of_loadSection hinner
      have hgrows := grows_of_loadSection h
      have hp₁ := hp.later (sniffUnit_grows hsniff) (hgrows₂.trans hgrows)
      obtain ⟨hat, hknown₁⟩ := standsAt_of_content hsniff hp₁.knows hp.depth hplace
      obtain rfl := (standsAt_of_placeLine_content hplace).1
      obtain ⟨children, rfl, hreads₁⟩ := ihInner hinner (Nat.le_of_succ_le_succ hfuel)
        (hp₁.inner (level_le_one_or_known hknown₁) hgrows₂ hgrows)
      obtain ⟨nodes, rfl, hreads⟩ := ih h
        (Nat.le_trans hreads₁.suffix.length_le (Nat.le_of_succ_le_succ hfuel))
        (hp₁.later hgrows₂ hgrows)
      have hn : n = Node.ofSection (String.ofList key) (commentOf line) (some number)
          (.ofNodes children) := by
        rw [commentOf, hsplit]
        rfl
      refine ⟨n :: nodes, by rw [hsnoc], ?_⟩
      rw [hn]
      exact .block hat hkey (hknown₁ ▸ hreads₁) hreads
  | case8 fuel level p front number line lines value comment hsplit _ p₁ hsniff text hplace hkey =>
    rename_i hsimple n ih
    obtain rfl : valueOf line = value := by rw [valueOf, hsplit]
    have hp₁ := hp.later (sniffUnit_grows hsniff) (grows_of_loadSection h)
    have hleaf : leafOf options text (commentOf line) number = (n, none) := by
      rw [leafOf, if_pos hsimple, commentOf, hsplit]
    obtain ⟨nodes, rfl, hreads⟩ := ih h (Nat.le_of_succ_le_succ hfuel) hp₁
    exact ⟨n :: nodes, by rw [hsnoc],
      .leaf_of_place hsniff hp₁.knows hp.depth hplace hkey hleaf hreads⟩
  | case9 fuel level p front number line lines value comment hsplit _ p₁ hsniff text hplace hkey =>
    rename_i hsimple n found hentry p₂ ih
    obtain rfl : valueOf line = value := by rw [valueOf, hsplit]
    have hfound : found = none := not_found_of_errors hentry (Nat.le_trans
      (grows_of_loadSection h).errors (Nat.le_trans hp.errors (sniffUnit_grows hsniff).errors))
    subst hfound
    have hp₁ := hp.later (sniffUnit_grows hsniff) (grows_of_loadSection h)
    have hleaf : leafOf options text (commentOf line) number = (n, none) := by
      rw [leafOf, if_neg hsimple, commentOf, hsplit]
      exact hentry
    obtain ⟨nodes, rfl, hreads⟩ := ih h (Nat.le_of_succ_le_succ hfuel) hp₁
    exact ⟨n :: nodes, by rw [hsnoc],
      .leaf_of_place hsniff hp₁.knows hp.depth hplace hkey hleaf hreads⟩

/-! ## Whole documents -/

theorem countErrors_reverse (found : List Diagnostic) :
    Document.countErrors found.reverse = Document.countErrors found := by
  rw [Document.countErrors, Document.countErrors, List.filter_reverse, List.length_reverse]

/-- Lines that are nodes are loaded without errors as these nodes. -/
theorem Reads.ofLines_eq {options : Options} {unit : List Char} (hunit : IsUnit unit)
    {known : Bool} (htab : known = false → unit = ['\t']) {lines : List (Nat × String)}
    {nodes : List Node} (h : Reads options unit 0 false lines nodes known []) (fileName : String) :
    (Document.ofLines fileName options lines).root = .ofNodes nodes ∧
      (Document.ofLines fileName options lines).indentation = String.ofList unit ∧
      (Document.ofLines fileName options lines).errors = 0 := by
  have hstart : Progress.Knows {} unit false :=
    ⟨rfl, fun hk => (Bool.false_ne_true hk).elim, fun _ => rfl⟩
  obtain ⟨p, heq, hknows, herrors⟩ : ∃ p, loadSection options lines.length 0 {} [] lines
      = (.ofNodes nodes, p, []) ∧ p.Knows unit known ∧ Document.countErrors p.findings = 0 :=
    h.loadSection_eq hunit (Nat.le_refl _) hstart (.inl (Nat.zero_le 1))
  have hunit' : p.unit = unit := by
    cases hk : known with
    | false => rw [hknows.unseen hk, htab hk]
    | true => exact hknows.seen hk
  rw [Document.ofLines, heq]
  exact ⟨rfl, congrArg String.ofList hunit', (countErrors_reverse _).trans herrors⟩

/-- A document without errors is the nodes of its lines. -/
theorem reads_of_errors {fileName : String} {options : Options} {lines : List (Nat × String)}
    (h : (Document.ofLines fileName options lines).errors = 0) :
    ∃ unit known nodes, IsUnit unit ∧ (known = false → unit = ['\t']) ∧
      Reads options unit 0 false lines nodes known [] := by
  rcases heq : loadSection options lines.length 0 {} [] lines with ⟨root, p, rest⟩
  rw [Document.ofLines, heq] at h
  have herrors : Document.countErrors p.findings ≤ 0 :=
    Nat.le_of_eq ((countErrors_reverse _).symm.trans h)
  have hgrows := grows_of_loadSection heq
  obtain ⟨nodes, _, hreads⟩ := reads_of_loadSection _ _ _ _ _ heq (Nat.le_refl _)
    ⟨hgrows, .inl (Nat.zero_le 1), fun _ => rfl, herrors, fun _ => rfl⟩
  have hrest : rest = [] := by
    cases rest with
    | nil => rfl
    | cons e rest =>
      obtain ⟨k, hk, _⟩ := hreads.stops e rfl
      exact absurd hk (Nat.not_lt_zero k)
  subst hrest
  exact ⟨p.unit, p.unitKnown, nodes, hgrows.isUnit isUnit_tab, hgrows.tab (fun _ => rfl), hreads⟩

end ScriptStore.Config
