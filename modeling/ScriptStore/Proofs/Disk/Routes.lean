import Mathlib.Data.List.Induction
import Mathlib.Data.List.TakeWhile
import ScriptStore.Disk
import ScriptStore.Proofs.Dict

/-!
# Where routes lead

A route may stay where it is or go back on its way, so the path it leads to depends on the
directories that it passes. `Disk.EndsAt` says that a route comes to a name in a directory. That
takes directories only, so it stays true when more are made (`EndsAt.grows`); the directory itself
is where the parent of the route leads, and need not be created (`EndsAt.createDirectories_parent`).
A file can be written there (`Disk.Writable`) for as long as the directories are the same, whatever is
done to files (`Writable.sameTree`).
-/

namespace ScriptStore.Disk

/-! ## Single steps -/

theorem bind_eq_ok {ε α β : Type} {x : Except ε α} {f : α → Except ε β} {b : β} :
    x >>= f = .ok b ↔ ∃ a, x = .ok a ∧ f a = .ok b := by
  cases x <;> simp [bind, Except.bind]

/-- Whether something is at a path. -/
def Exists (d : Disk) (p : Path) : Prop := d.hasDirectory p = true ∨ d.hasFile p = true

theorem exists_iff {d : Disk} {p : Path} :
    d.Exists p ↔ (d.hasDirectory p || d.hasFile p) = true := Bool.or_eq_true_iff.symm

theorem checkName_eq_ok {p : Path} {u : Unit} :
    checkName p = .ok u ↔ (p.getLastD "").utf8ByteSize ≤ maxName := by
  rw [checkName]
  split
  · next h => exact ⟨nofun, fun hle => absurd h (Nat.not_lt.2 hle)⟩
  · next h => exact ⟨fun _ => Nat.not_lt.1 h, fun _ => rfl⟩

theorem isDirectory_iff {d : Disk} {r : Route} :
    d.isDirectory r = true ↔ ∃ p, d.locate r = .ok p ∧ d.hasDirectory p = true := by
  rw [isDirectory]
  cases d.locate r <;> simp [Except.toOption]

theorem checkRoute_of_locate {d : Disk} {r : Route} {p : Path} (h : d.locate r = .ok p) :
    d.checkRoute r = .ok () := by
  obtain ⟨⟨⟩, hcheck, _⟩ := bind_eq_ok.1 h
  exact hcheck

/-- A name leads from a directory to what it has under that name. -/
theorem step_name {d : Disk} {p : Path} {part : String} (hp : d.hasDirectory p = true)
    (hpart : part ≠ "." ∧ part ≠ "..") (hsize : part.utf8ByteSize ≤ maxName)
    (hexists : d.Exists (p ++ [part])) : d.step p part = .ok (p ++ [part]) := by
  rw [exists_iff] at hexists
  simp [step, hp, hpart.1, hpart.2, Nat.not_lt.2 hsize, hexists]

/-- A step stays, goes back, or goes on to what exists. -/
theorem step_eq_ok {d : Disk} {p q : Path} {part : String} (h : d.step p part = .ok q) :
    d.hasDirectory p = true ∧ (part = "." ∧ q = p ∨ part = ".." ∧ q = p.up ∨
      (part ≠ "." ∧ part ≠ "..") ∧ part.utf8ByteSize ≤ maxName ∧ q = p ++ [part]) := by
  unfold step at h
  split at h
  · cases h
  · next hdir =>
    have hp : d.hasDirectory p = true := by simpa using hdir
    split at h
    · next hdot =>
      cases h
      exact ⟨hp, .inl ⟨beq_iff_eq.1 hdot, rfl⟩⟩
    · next hdot =>
      split at h
      · next hdots =>
        cases h
        exact ⟨hp, .inr (.inl ⟨beq_iff_eq.1 hdots, rfl⟩)⟩
      · next hdots =>
        split at h
        · cases h
        · next hsize =>
          split at h
          · cases h
            exact ⟨hp, .inr (.inr ⟨⟨mt beq_iff_eq.2 hdot, mt beq_iff_eq.2 hdots⟩,
              Nat.not_lt.1 hsize, rfl⟩)⟩
          · cases h

/-! ## More directories -/

/-- Whether a disk has the directories of another one, and the same base. -/
structure Grows (d d' : Disk) : Prop where
  base : d'.base = d.base
  directories : ∀ {q}, d.hasDirectory q = true → d'.hasDirectory q = true

section

variable {d d' : Disk} {r : Route} {p q : Path} {parts : List String} {part : String}

theorem Grows.checkRoute (h : d.Grows d') (r : Route) : d'.checkRoute r = d.checkRoute r := by
  rw [Disk.checkRoute, Disk.checkRoute, shown, shown, h.base]

theorem Grows.step (h : d.Grows d') (hstep : d.step p part = .ok q)
    (hq : d.hasDirectory q = true) : d'.step p part = .ok q := by
  obtain ⟨hp, hcases⟩ := step_eq_ok hstep
  have hp' := h.directories hp
  rcases hcases with ⟨rfl, rfl⟩ | ⟨rfl, rfl⟩ | ⟨hpart, hsize, rfl⟩
  · simp [Disk.step, hp']
  · simp [Disk.step, hp']
  · exact step_name hp' hpart hsize (.inl (h.directories hq))

/-- What leads to a directory still does when there are more. -/
theorem Grows.foldlM_step (h : d.Grows d') (hparts : parts.foldlM d.step p = .ok q)
    (hq : d.hasDirectory q = true) : parts.foldlM d'.step p = .ok q := by
  induction parts generalizing p with
  | nil => exact hparts
  | cons part rest ih =>
    rw [List.foldlM_cons] at hparts ⊢
    obtain ⟨p₁, hstep, hrest⟩ := bind_eq_ok.1 hparts
    -- every place on the way is a directory, for the way goes on from there or ends there
    have hp₁ : d.hasDirectory p₁ = true := by
      cases rest with
      | nil =>
        obtain rfl : p₁ = q := Except.ok.inj hrest
        exact hq
      | cons next rest =>
        rw [List.foldlM_cons] at hrest
        obtain ⟨p₂, hnext, _⟩ := bind_eq_ok.1 hrest
        exact (step_eq_ok hnext).1
    exact bind_eq_ok.2 ⟨p₁, h.step hstep hp₁, ih hrest⟩

/-! ## Names in a directory -/

/-- Whether a route comes to a name in a directory. -/
structure EndsAt (d : Disk) (r : Route) (directory : Path) (part : String) : Prop where
  checks : d.checkRoute r = .ok ()
  steps : ∃ front, r.steps = front ++ [part] ∧ front.foldlM d.step [] = .ok directory
  directory : d.hasDirectory directory = true
  name : part ≠ "." ∧ part ≠ ".."

theorem approach_eq_name {slash : Bool} (h : d.approach r = .ok (.name p slash)) :
    ∃ q part, d.EndsAt r q part ∧ p = q ++ [part] ∧ slash = r.endsWithSlash := by
  rw [approach] at h
  obtain ⟨⟨⟩, hcheck, h⟩ := bind_eq_ok.1 h
  obtain ⟨q, hsteps, h⟩ := bind_eq_ok.1 h
  split at h
  · cases h
  · next part hlast =>
    split at h
    · cases h
    · next hdir =>
      split at h
      · cases h
      · next hname =>
        cases h
        rw [Bool.or_eq_true, not_or, beq_iff_eq, beq_iff_eq] at hname
        obtain ⟨front, hfront⟩ := List.getLast?_eq_some_iff.1 hlast
        rw [hfront, List.dropLast_concat] at hsteps
        exact ⟨q, part, ⟨hcheck, ⟨front, hfront, hsteps⟩, by simpa using hdir, hname⟩, rfl, rfl⟩

namespace EndsAt

variable (h : d.EndsAt r q part)

include h

theorem approach_eq : d.approach r = .ok (.name (q ++ [part]) r.endsWithSlash) := by
  obtain ⟨front, hsteps, hfront⟩ := h.steps
  rw [approach, h.checks, hsteps, List.dropLast_concat, List.getLast?_concat]
  dsimp only [bind, Except.bind]
  rw [hfront]
  simp [h.directory, h.name.1, h.name.2, pure, Except.pure]

theorem grows (hd' : d.Grows d') : d'.EndsAt r q part := by
  obtain ⟨front, hsteps, hfront⟩ := h.steps
  exact ⟨(hd'.checkRoute r).trans h.checks, ⟨front, hsteps, hd'.foldlM_step hfront h.directory⟩,
    hd'.directories h.directory, h.name⟩

/-- A route leads to what has the name at its end; behind a slash it has to be a directory. -/
theorem locate_eq (hsize : part.utf8ByteSize ≤ maxName) (hexists : d.Exists (q ++ [part]))
    (hslash : r.endsWithSlash = true → d.hasDirectory (q ++ [part]) = true) :
    d.locate r = .ok (q ++ [part]) := by
  obtain ⟨front, hsteps, hfront⟩ := h.steps
  have hlast := step_name h.directory h.name hsize hexists
  have hall : r.steps.foldlM d.step [] = .ok (q ++ [part]) := by
    rw [hsteps, List.foldlM_append]
    refine bind_eq_ok.2 ⟨q, hfront, ?_⟩
    rw [List.foldlM_cons]
    exact bind_eq_ok.2 ⟨_, hlast, rfl⟩
  rw [locate, h.checks, hall]
  dsimp only [bind, Except.bind]
  rw [if_neg]
  rw [Bool.and_eq_true, Bool.not_eq_true']
  rintro ⟨hs, hnone⟩
  rw [hslash hs] at hnone
  cases hnone

theorem eq_of_locate (hlocate : d.locate r = .ok p) : p = q ++ [part] := by
  obtain ⟨front, hsteps, hfront⟩ := h.steps
  rw [locate, h.checks, hsteps, List.foldlM_append] at hlocate
  obtain ⟨p₁, hall, hlocate⟩ := bind_eq_ok.1 (bind_eq_ok.1 hlocate).choose_spec.2
  obtain ⟨q', hq', hlast⟩ := bind_eq_ok.1 hall
  obtain rfl : q' = q := Except.ok.inj (hq'.symm.trans hfront)
  obtain ⟨p₂, hstep, hend⟩ := bind_eq_ok.1 hlast
  obtain rfl : p₂ = p₁ := Except.ok.inj hend
  split at hlocate
  · cases hlocate
  · cases hlocate
    rcases step_eq_ok hstep with ⟨_, ⟨hdot, _⟩ | ⟨hdots, _⟩ | ⟨_, _, hp⟩⟩
    · exact absurd hdot h.name.1
    · exact absurd hdots h.name.2
    · exact hp

/-- A route that ends with a name has it as its last part. -/
theorem parts_eq (hopen : r.endsWithSlash = false) :
    ∃ front, r.parts = front ++ [part] ∧ (front.filter (· != "")).foldlM d.step [] = .ok q := by
  obtain ⟨steps, hsteps, hfold⟩ := h.steps
  rw [Route.endsWithSlash] at hopen
  obtain ⟨last, hlast, hne⟩ : ∃ last, r.parts.getLast? = some last ∧ last ≠ "" := by
    cases hlast : r.parts.getLast? with
    | none => rw [hlast] at hopen; cases hopen
    | some last =>
      rw [hlast] at hopen
      exact ⟨last, rfl, by simpa using hopen⟩
  obtain ⟨front, hparts⟩ := List.getLast?_eq_some_iff.1 hlast
  have hone : [last].filter (· != "") = [last] := List.filter_eq_self.2 (by simpa using hne)
  rw [Route.steps, hparts, List.filter_append, hone] at hsteps
  obtain ⟨hfront, hpart⟩ := List.append_inj' hsteps rfl
  obtain rfl : last = part := (List.cons.inj hpart).1
  exact ⟨front, hparts, hfront ▸ hfold⟩

end EndsAt

/-! ## The directory of a file -/

/-- The parts behind the bare ones stay where they are. -/
theorem Route.exists_idle (r : Route) :
    ∃ idle, r.parts = r.bare ++ idle ∧ ∀ part ∈ idle, Route.isIdle part = true := by
  refine ⟨(r.parts.reverse.takeWhile Route.isIdle).reverse, ?_, fun part hpart => ?_⟩
  · rw [Route.bare, ← List.reverse_append, List.takeWhile_append_dropWhile, List.reverse_reverse]
  · exact List.mem_takeWhile_imp (List.mem_reverse.1 hpart)

/-- The directory above a name is that of the parts before it. -/
theorem Route.parent_of_name {front : List String} (hparts : r.parts = front ++ [part])
    (hidle : Route.isIdle part = false) : r.parent = ⟨Route.bare ⟨front⟩⟩ := by
  have hbare : r.bare = front ++ [part] := by
    rw [Route.bare, hparts, List.reverse_append, List.reverse_singleton, List.singleton_append,
      List.dropWhile_cons_of_neg (by rw [hidle]; exact Bool.false_ne_true), List.reverse_cons,
      List.reverse_reverse]
  rw [Route.parent, hbare]
  split
  · next hnil => exact absurd hnil (by simp)
  · rw [List.dropLast_concat]

/-- Parts that stay where they are lead nowhere else. -/
theorem foldlM_idle (hparts : ∀ part ∈ parts, part = ".") (h : parts.foldlM d.step p = .ok q) :
    q = p := by
  induction parts generalizing p with
  | nil => exact (Except.ok.inj h).symm
  | cons part rest ih =>
    obtain ⟨rfl, hrest⟩ := List.forall_mem_cons.1 hparts
    rw [List.foldlM_cons] at h
    obtain ⟨p₁, hstep, h⟩ := bind_eq_ok.1 h
    have hp₁ : p₁ = p := by
      rcases step_eq_ok hstep with ⟨_, ⟨_, hstay⟩ | ⟨hdots, _⟩ | ⟨hname, _⟩⟩
      · exact hstay
      · exact absurd hdots (by decide)
      · exact absurd rfl hname.1
    exact (ih hrest h).trans hp₁

/-- The bare parts of a route lead where all of them do. -/
theorem foldlM_bare {front : List String}
    (h : (front.filter (· != "")).foldlM d.step p = .ok q) :
    (Route.steps ⟨Route.bare ⟨front⟩⟩).foldlM d.step p = .ok q := by
  obtain ⟨idle, hfront, hidle⟩ := Route.exists_idle ⟨front⟩
  rw [show front = Route.bare ⟨front⟩ ++ idle from hfront, List.filter_append, List.foldlM_append]
    at h
  obtain ⟨p₁, hbare, hrest⟩ := bind_eq_ok.1 h
  have hdots : ∀ part ∈ idle.filter (· != ""), part = "." := by
    intro part hpart
    obtain ⟨hmem, hne⟩ := List.mem_filter.1 hpart
    have hpart := hidle part hmem
    rw [Route.isIdle, Bool.or_eq_true, beq_iff_eq, beq_iff_eq] at hpart
    exact hpart.resolve_left (bne_iff_ne.1 hne)
  rw [foldlM_idle hdots hrest]
  exact hbare

theorem utf8ByteSize_join_dropLast (parts : List String) :
    (Text.join "/" parts.dropLast).utf8ByteSize ≤ (Text.join "/" parts).utf8ByteSize := by
  induction parts with
  | nil => exact Nat.le_refl _
  | cons first rest ih =>
    cases rest with
    | nil => exact Nat.zero_le _
    | cons next rest =>
      rw [List.dropLast_cons_cons, Text.join, Text.join, String.intercalate_cons_cons]
      by_cases hne : (next :: rest).dropLast = []
      · rw [hne, String.intercalate_singleton, String.append_assoc, String.utf8ByteSize_append]
        exact Nat.le_add_right _ _
      · rw [String.intercalate_cons_of_ne_nil hne, String.utf8ByteSize_append,
          @String.utf8ByteSize_append (first ++ "/")]
        exact Nat.add_le_add_left ih _

theorem checkRoute_dropLast (h : d.checkRoute r = .ok ()) :
    d.checkRoute ⟨r.parts.dropLast⟩ = .ok () := by
  rw [checkRoute] at h ⊢
  split at h
  · cases h
  · next hnul =>
    split at h
    · cases h
    · next hsize =>
      rw [if_neg, if_neg]
      · intro hle
        refine hsize (Nat.le_trans hle ?_)
        rw [shown, shown, String.utf8ByteSize_append, @String.utf8ByteSize_append (d.base ++ "/") r.text]
        exact Nat.add_le_add_left (utf8ByteSize_join_dropLast r.parts) _
      · intro hany
        obtain ⟨part, hpart, hcontains⟩ := List.any_eq_true.1 hany
        exact hnul (List.any_eq_true.2 ⟨part, List.dropLast_subset _ hpart, hcontains⟩)

theorem checkRoute_prefix {parts more : List String} (h : d.checkRoute ⟨parts ++ more⟩ = .ok ()) :
    d.checkRoute ⟨parts⟩ = .ok () := by
  induction more using List.reverseRecOn with
  | nil => rwa [List.append_nil] at h
  | append_singleton more last ih =>
    have hdrop := checkRoute_dropLast h
    rw [← List.append_assoc, List.dropLast_concat] at hdrop
    exact ih hdrop

/-- The directory of a name is where the route above it leads. -/
theorem EndsAt.isDirectory_parent (h : d.EndsAt r q part) (hopen : r.endsWithSlash = false) :
    d.checkRoute r.parent = .ok () ∧ d.isDirectory r.parent = true := by
  obtain ⟨front, hparts, hfold⟩ := h.parts_eq hopen
  have hne : part ≠ "" := by
    rintro rfl
    rw [Route.endsWithSlash, hparts, List.getLast?_concat] at hopen
    cases hopen
  have hidle : Route.isIdle part = false := by
    rw [Route.isIdle, beq_eq_false_iff_ne.2 hne, beq_eq_false_iff_ne.2 h.name.1]
    rfl
  rw [Route.parent_of_name hparts hidle]
  obtain ⟨idle, hfront, -⟩ := Route.exists_idle ⟨front⟩
  have hcheck : d.checkRoute ⟨Route.bare ⟨front⟩⟩ = .ok () := by
    have hall : r = ⟨Route.bare ⟨front⟩ ++ (idle ++ [part])⟩ := by
      rw [← List.append_assoc, ← hfront, ← hparts]
    exact checkRoute_prefix (hall ▸ h.checks)
  refine ⟨hcheck, isDirectory_iff.2 ⟨q, ?_, h.directory⟩⟩
  rw [locate, hcheck, foldlM_bare hfold]
  dsimp only [bind, Except.bind]
  rw [h.directory, Bool.not_true, Bool.and_false, if_neg Bool.false_ne_true]

/-! ## Making directories -/

theorem hasDirectory_append :
    ({ d with directories := d.directories ++ [p] } : Disk).hasDirectory q = true ↔
      d.hasDirectory q = true ∨ q = p := by
  simp [hasDirectory, or_assoc]

theorem makeDirectory_eq_ok (h : d.makeDirectory r = .ok d') :
    ∃ p slash, d.approach r = .ok (.name p slash) ∧ checkName p = .ok () ∧
      d.hasDirectory p = false ∧ d.hasFile p = false ∧
      d' = { d with directories := d.directories ++ [p] } := by
  rw [makeDirectory] at h
  obtain ⟨e, happroach, h⟩ := bind_eq_ok.1 h
  split at h
  · cases h
  · next p slash =>
    obtain ⟨_, hname, h⟩ := bind_eq_ok.1 h
    split at h
    · cases h
    · next hfree =>
      cases h
      rw [Bool.or_eq_true, not_or, Bool.not_eq_true, Bool.not_eq_true] at hfree
      exact ⟨p, slash, happroach, hname, hfree.1, hfree.2, rfl⟩

theorem isDirectory_of_makeDirectory (h : d.makeDirectory r = .ok d') : d'.isDirectory r = true := by
  obtain ⟨p, slash, happroach, hname, _, _, rfl⟩ := makeDirectory_eq_ok h
  obtain ⟨q, part, hends, rfl, -⟩ := approach_eq_name happroach
  have hown : ({ d with directories := d.directories ++ [q ++ [part]] } : Disk).hasDirectory
      (q ++ [part]) = true := hasDirectory_append.2 (.inr rfl)
  have hsize : part.utf8ByteSize ≤ maxName := by
    rw [checkName_eq_ok, List.getLastD_concat] at hname
    exact hname
  have hgrows : d.Grows { d with directories := d.directories ++ [q ++ [part]] } :=
    ⟨rfl, fun hq => hasDirectory_append.2 (.inl hq)⟩
  exact isDirectory_iff.2
    ⟨_, (hends.grows hgrows).locate_eq hsize (.inl hown) (fun _ => hown), hown⟩

theorem isDirectory_of_ensureDirectory {u : Unit} (h : d.ensureDirectory r = (d', .ok u)) :
    d'.isDirectory r = true := by
  rw [ensureDirectory] at h
  split at h
  · next hmake =>
    cases h
    exact isDirectory_of_makeDirectory hmake
  · split at h
    · next hdir =>
      cases h
      exact hdir
    · cases h

theorem Route.upward_eq (r : Route) : ∃ above, r.upward = r :: above := by
  rw [Route.upward]
  cases r.parts.length with
  | zero => exact ⟨[], rfl⟩
  | succ n =>
    rw [Route.upward.go]
    split
    · exact ⟨[], rfl⟩
    · exact ⟨_, rfl⟩

/-- A directory that was created is there. -/
theorem isDirectory_of_createDirectories {u : Unit} (h : d.createDirectories r = (d', .ok u)) :
    d'.isDirectory r = true := by
  obtain ⟨above, hupward⟩ := r.upward_eq
  rw [createDirectories] at h
  split at h
  · rw [hupward, ensureFirst] at h
    split at h
    · split at h
      · exact isDirectory_of_ensureDirectory h
      · next hnot => exact absurd h (hnot d' u)
    · exact isDirectory_of_ensureDirectory h
  · cases h

/-- A directory that is there cannot be made once more. -/
theorem makeDirectory_of_isDirectory (hdir : d.isDirectory r = true) :
    ∃ e, d.makeDirectory r = .error e := by
  cases hmake : d.makeDirectory r with
  | error e => exact ⟨e, rfl⟩
  | ok d' =>
    obtain ⟨p, slash, happroach, _, hfree, _⟩ := makeDirectory_eq_ok hmake
    obtain ⟨q, part, hends, rfl, -⟩ := approach_eq_name happroach
    obtain ⟨p, hlocate, hp⟩ := isDirectory_iff.1 hdir
    rw [hends.eq_of_locate hlocate, hfree] at hp
    cases hp

/-- A directory that is there need not be created. -/
theorem createDirectories_of_isDirectory (hcheck : d.checkRoute r = .ok ())
    (hdir : d.isDirectory r = true) : d.createDirectories r = (d, .ok ()) := by
  obtain ⟨above, hupward⟩ := r.upward_eq
  obtain ⟨e, hmake⟩ := makeDirectory_of_isDirectory hdir
  have hensure : d.ensureDirectory r = (d, .ok ()) := by
    rw [ensureDirectory, hmake]
    exact congrArg (d, ·) (if_pos hdir)
  rw [createDirectories, hcheck, hupward]
  show d.ensureFirst (r :: above) = (d, .ok ())
  rw [ensureFirst, hensure]

/-- The directory of a name need not be created. -/
theorem EndsAt.createDirectories_parent (h : d.EndsAt r q part) (hopen : r.endsWithSlash = false) :
    d.createDirectories r.parent = (d, .ok ()) := by
  obtain ⟨hcheck, hdir⟩ := h.isDirectory_parent hopen
  exact createDirectories_of_isDirectory hcheck hdir

/-! ## Writing files -/

/-- Whether a file can be written where a route comes to a name. -/
structure Writable (d : Disk) (r : Route) (q : Path) (part : String) : Prop
    extends EndsAt d r q part where
  unslashed : r.endsWithSlash = false
  size : part.utf8ByteSize ≤ maxName
  free : d.hasDirectory (q ++ [part]) = false

theorem writable_iff :
    d.writable r = .ok p ↔ ∃ q part, d.Writable r q part ∧ p = q ++ [part] := by
  rw [writable]
  constructor
  · intro h
    obtain ⟨e, happroach, h⟩ := bind_eq_ok.1 h
    split at h
    · cases h
    · cases h
    · obtain ⟨q, part, hends, rfl, hslash⟩ := approach_eq_name happroach
      obtain ⟨_, hname, h⟩ := bind_eq_ok.1 h
      split at h
      · cases h
      · next hfree =>
        cases h
        rw [checkName_eq_ok, List.getLastD_concat] at hname
        exact ⟨q, part, ⟨hends, hslash.symm, hname, by simpa using hfree⟩, rfl⟩
  · rintro ⟨q, part, h, rfl⟩
    refine bind_eq_ok.2 ⟨_, h.approach_eq, ?_⟩
    rw [h.unslashed]
    refine bind_eq_ok.2 ⟨(), checkName_eq_ok.2 ?_, ?_⟩
    · rw [List.getLastD_concat]
      exact h.size
    · rw [h.free]
      rfl

namespace Writable

variable (h : d.Writable r q part)

include h

theorem writable_eq : d.writable r = .ok (q ++ [part]) := writable_iff.2 ⟨q, part, h, rfl⟩

/-- It takes a directory at the name itself to prevent writing. -/
theorem grows (hd' : d.Grows d') (hfree : d'.hasDirectory (q ++ [part]) = false) :
    d'.Writable r q part := ⟨h.toEndsAt.grows hd', h.unslashed, h.size, hfree⟩

/-- A file that is there is what the route leads to. -/
theorem locate_eq (hfile : d.hasFile (q ++ [part]) = true) : d.locate r = .ok (q ++ [part]) := by
  refine h.toEndsAt.locate_eq h.size (.inr hfile) fun hslash => ?_
  rw [h.unslashed] at hslash
  cases hslash

end Writable

/-! ## Files come and go -/

/-- Whether a disk has the directories of another one and no others, and the same base. -/
structure SameTree (d d' : Disk) : Prop where
  base : d'.base = d.base
  directories : d'.directories = d.directories

namespace SameTree

theorem refl (d : Disk) : d.SameTree d := ⟨rfl, rfl⟩

theorem trans {d'' : Disk} (h : d.SameTree d') (h' : d'.SameTree d'') : d.SameTree d'' :=
  ⟨h'.base.trans h.base, h'.directories.trans h.directories⟩

theorem hasDirectory (h : d.SameTree d') (p : Path) : d'.hasDirectory p = d.hasDirectory p := by
  rw [Disk.hasDirectory, Disk.hasDirectory, h.directories]

theorem grows (h : d.SameTree d') : d.Grows d' :=
  ⟨h.base, fun hq => (h.hasDirectory _).trans hq⟩

end SameTree

theorem Writable.sameTree (h : d.Writable r q part) (hd' : d.SameTree d') : d'.Writable r q part :=
  h.grows hd'.grows ((hd'.hasDirectory _).trans h.free)

theorem sameTree_append (d : Disk) (handle : Handle) (bytes : Text.Bytes) :
    d.SameTree (d.append handle bytes) := ⟨rfl, rfl⟩

theorem sameTree_setContent (d : Disk) (p : Path) (content : Text.Bytes) :
    d.SameTree (d.setContent p content) := by
  unfold setContent
  split <;> exact ⟨rfl, rfl⟩

theorem get?_setContent (d : Disk) (p : Path) (content : Text.Bytes) :
    ∃ number, (d.setContent p content).files.get? p = some ⟨number, content⟩ := by
  unfold setContent
  split
  · next file _ => exact ⟨file.number, by rw [Dict.get?_insert, if_pos rfl]⟩
  · exact ⟨d.nextFile, by rw [Dict.get?_insert, if_pos rfl]⟩

/-- A file that was written is there. -/
theorem Writable.exists_write (h : d.Writable r q part) (content : Text.Bytes) :
    ∃ d' number, d.write r content = .ok d' ∧ d.SameTree d' ∧
      d'.files.get? (q ++ [part]) = some ⟨number, content⟩ := by
  obtain ⟨number, hget⟩ := get?_setContent d (q ++ [part]) content
  exact ⟨_, number, bind_eq_ok.2 ⟨_, h.writable_eq, rfl⟩, sameTree_setContent d _ content, hget⟩

/-- A file takes the place that it is moved to, even if that is where it is. -/
theorem Writable.exists_rename (h : d.Writable r q part) {target : Route} {q' : Path}
    {part' : String} (htarget : d.Writable target q' part') {file : File}
    (hfile : d.files.get? (q ++ [part]) = some file) :
    ∃ d', d.rename r target = .ok d' ∧ d.SameTree d' ∧ d'.files.get? (q' ++ [part']) = some file := by
  have hname : checkName (q' ++ [part']) = .ok () :=
    checkName_eq_ok.2 (by rw [List.getLastD_concat]; exact htarget.size)
  refine ⟨{ d with files := (d.files.erase (q ++ [part])).insert (q' ++ [part']) file }, ?_,
    ⟨rfl, rfl⟩, ?_⟩
  · rw [rename, h.approach_eq, htarget.approach_eq, h.unslashed, htarget.unslashed]
    dsimp only [bind, Except.bind]
    rw [hfile]
    dsimp only
    rw [hname, htarget.free]
    rfl
  · rw [Dict.get?_insert, if_pos rfl]

/-- A file that was opened is where the route leads. -/
theorem exists_writable_of_openFile {file : File} (h : d.openFile r = .ok (file, d')) :
    ∃ q part, d'.Writable r q part ∧ d'.files.get? (q ++ [part]) = some file := by
  rw [openFile] at h
  obtain ⟨p, hwritable, h⟩ := bind_eq_ok.1 h
  obtain ⟨q, part, hw, rfl⟩ := writable_iff.1 hwritable
  split at h
  · next hget =>
    cases h
    exact ⟨q, part, hw, hget⟩
  · next hget =>
    cases h
    refine ⟨q, part, hw.sameTree (sameTree_setContent _ _ _), ?_⟩
    rw [setContent, hget]
    dsimp only
    rw [Dict.get?_insert, if_pos rfl]

/-- A file that is there is opened as it is. -/
theorem Writable.openFile_eq (h : d.Writable r q part) {file : File}
    (hfile : d.files.get? (q ++ [part]) = some file) : d.openFile r = .ok (file, d) := by
  rw [openFile]
  refine bind_eq_ok.2 ⟨_, h.writable_eq, ?_⟩
  rw [hfile]
  rfl

end

end ScriptStore.Disk
