import Mathlib.Data.List.Nodup
import ScriptStore.Proofs.Dict
import ScriptStore.Proofs.Disk.Routes

/-!
# Files that stay apart

What the operations of storages do to a disk, seen from one place on it. Routes are plain here: names
between slashes, so that a route leads to the path with these names or nowhere. `Disk.Reaches` says
when it leads there. On a sound disk (`Disk.Sound`) whatever exists is in a directory that exists,
and no two files have one number; every operation keeps that, and changes nothing but what lies at
the path it is about (`Disk.ChangesOnly`), new directories aside.
-/

namespace ScriptStore.Disk

open Text (Bytes)

/-! ## Plain routes -/

/-- A route made of names only. -/
def Route.Plain (r : Route) : Prop :=
  r.parts ≠ [] ∧ ∀ part ∈ r.parts, part ≠ "" ∧ part ≠ "." ∧ part ≠ ".."

instance (r : Route) : Decidable r.Plain := inferInstanceAs (Decidable (_ ∧ _))

namespace Route.Plain

variable {r : Route} (h : r.Plain)

include h

theorem steps_eq : r.steps = r.parts := by
  rw [steps, List.filter_eq_self]
  exact fun part hpart => bne_iff_ne.2 (h.2 part hpart).1

theorem endsWithSlash_eq : r.endsWithSlash = false := by
  rw [endsWithSlash, List.getLast?_eq_some_getLast h.1]
  exact beq_eq_false_iff_ne.2 (h.2 _ (List.getLast_mem h.1)).1

end Route.Plain

/-! ## Where a route leads -/

/-- Whether names lead on from a path: through directories, to something that exists. -/
def Reaches (d : Disk) (p : Path) : List String → Prop
  | [] => True
  | part :: rest =>
    d.hasDirectory p = true ∧ part.utf8ByteSize ≤ maxName ∧ d.Exists (p ++ [part]) ∧
      d.Reaches (p ++ [part]) rest

theorem foldlM_step {d : Disk} {parts : List String}
    (hparts : ∀ part ∈ parts, part ≠ "" ∧ part ≠ "." ∧ part ≠ "..") {p q : Path} :
    parts.foldlM d.step p = .ok q ↔ q = p ++ parts ∧ d.Reaches p parts := by
  induction parts generalizing p with
  | nil =>
    rw [List.foldlM_nil, List.append_nil]
    simp [pure, Except.pure, Reaches, eq_comm]
  | cons part rest ih =>
    obtain ⟨_, hdot, hdots⟩ := hparts part List.mem_cons_self
    have ih := @ih (fun part hpart => hparts part (List.mem_cons_of_mem _ hpart)) (p ++ [part])
    rw [List.append_assoc, List.singleton_append] at ih
    rw [List.foldlM_cons, step, Reaches]
    by_cases hdir : d.hasDirectory p = true
    · by_cases hsize : part.utf8ByteSize ≤ maxName
      · cases hexists : d.hasDirectory (p ++ [part]) || d.hasFile (p ++ [part]) with
        | true =>
          simp only [hdir, hdot, hdots, Nat.not_lt.2 hsize, hexists, hsize, exists_iff, beq_iff_eq,
            Bool.not_true, Bool.false_eq_true, if_false, if_true, true_and]
          exact ih
        | false =>
          simp [hdir, hdot, hdots, Nat.not_lt.2 hsize, hexists, exists_iff, bind, Except.bind]
      · simp [hdir, hdot, hdots, Nat.not_le.1 hsize, hsize, bind, Except.bind]
    · simp [hdir, bind, Except.bind]

theorem reaches_append {d : Disk} {parts : List String} {part : String} {p : Path} :
    d.Reaches p (parts ++ [part]) ↔ d.Reaches p parts ∧ d.hasDirectory (p ++ parts) = true ∧
      part.utf8ByteSize ≤ maxName ∧ d.Exists (p ++ parts ++ [part]) := by
  induction parts generalizing p with
  | nil => simp [Reaches]
  | cons first rest ih => simp [Reaches, ih, and_assoc]

section

variable {d : Disk} {r : Route} (hr : r.Plain)

include hr

/-- A plain route leads to its own path. -/
theorem locate_eq_ok {p : Path} :
    d.locate r = .ok p ↔ p = r.parts ∧ d.checkRoute r = .ok () ∧ d.Reaches [] r.parts := by
  rw [locate, hr.steps_eq, hr.endsWithSlash_eq]
  simp only [bind_eq_ok, foldlM_step hr.2, List.nil_append, Bool.false_and, Bool.false_eq_true,
    if_false]
  constructor
  · rintro ⟨_, hcheck, p, ⟨rfl, hreaches⟩, heq⟩
    cases heq
    exact ⟨rfl, hcheck, hreaches⟩
  · rintro ⟨rfl, hcheck, hreaches⟩
    exact ⟨(), hcheck, _, ⟨rfl, hreaches⟩, rfl⟩

theorem reaches_parts :
    d.Reaches [] r.parts ↔ d.Reaches [] r.parts.dropLast ∧ d.hasDirectory r.parts.dropLast = true ∧
      (r.parts.getLastD "").utf8ByteSize ≤ maxName ∧ d.Exists r.parts := by
  have happend := @reaches_append d r.parts.dropLast (r.parts.getLast hr.1) []
  rw [List.nil_append, List.dropLast_concat_getLast] at happend
  rw [happend, List.getLastD_eq_getLast?, List.getLast?_eq_some_getLast hr.1]
  rfl

theorem parts_eq : ∃ part, r.parts = r.parts.dropLast ++ [part] ∧ part ≠ "." ∧ part ≠ ".." :=
  ⟨r.parts.getLast hr.1, (List.dropLast_concat_getLast hr.1).symm, (hr.2 _ (List.getLast_mem hr.1)).2⟩

/-- The directory of a plain route is found where the route comes to its last name. -/
theorem approach_eq_ok {e : Ending} :
    d.approach r = .ok e ↔ e = .name r.parts false ∧ d.checkRoute r = .ok () ∧
      d.Reaches [] r.parts.dropLast ∧ d.hasDirectory r.parts.dropLast = true := by
  obtain ⟨part, hparts, hdot, hdots⟩ := parts_eq hr
  have hdropLast : ∀ part ∈ r.parts.dropLast, part ≠ "" ∧ part ≠ "." ∧ part ≠ ".." :=
    fun part hpart => hr.2 part (List.dropLast_subset _ hpart)
  have hlast : r.parts.getLast? = some part := by
    rw [hparts, List.getLast?_append]
    rfl
  rw [approach, hr.steps_eq, hr.endsWithSlash_eq]
  simp only [bind_eq_ok, foldlM_step hdropLast, List.nil_append, hlast]
  constructor
  · rintro ⟨_, hcheck, p, ⟨rfl, hreaches⟩, heq⟩
    cases hdir : d.hasDirectory r.parts.dropLast with
    | false => simp [hdir] at heq
    | true =>
      simp [hdir, hdot, hdots, ← hparts, pure, Except.pure] at heq
      exact ⟨heq.symm, hcheck, hreaches, rfl⟩
  · rintro ⟨rfl, hcheck, hreaches, hdir⟩
    refine ⟨(), hcheck, _, ⟨rfl, hreaches⟩, ?_⟩
    simp [hdir, hdot, hdots, ← hparts, pure, Except.pure]

/-- A file can be written at a plain route unless a directory is there. -/
theorem writable_eq_ok {p : Path} :
    d.writable r = .ok p ↔ p = r.parts ∧ d.checkRoute r = .ok () ∧
      d.Reaches [] r.parts.dropLast ∧ d.hasDirectory r.parts.dropLast = true ∧
      (r.parts.getLastD "").utf8ByteSize ≤ maxName ∧ d.hasDirectory r.parts = false := by
  rw [writable]
  simp only [bind_eq_ok, approach_eq_ok hr]
  constructor
  · rintro ⟨_, ⟨rfl, hcheck, hreaches, hdir⟩, heq⟩
    simp only [bind_eq_ok, checkName_eq_ok] at heq
    obtain ⟨_, hname, heq⟩ := heq
    cases hown : d.hasDirectory r.parts with
    | false =>
      simp [hown, pure, Except.pure] at heq
      exact ⟨heq.symm, hcheck, hreaches, hdir, hname, rfl⟩
    | true => simp [hown] at heq
  · rintro ⟨rfl, hcheck, hreaches, hdir, hname, hown⟩
    refine ⟨_, ⟨rfl, hcheck, hreaches, hdir⟩, bind_eq_ok.2 ⟨(), checkName_eq_ok.2 hname, ?_⟩⟩
    rw [hown]
    rfl

end

/-! ## Changes at one path -/

/-- Whether a disk differs from another one only at a path, and in that it has more directories. -/
structure ChangesOnly (d d' : Disk) (p : Path) : Prop where
  base : d'.base = d.base
  directories : ∀ {q}, d.hasDirectory q = true → d'.hasDirectory q = true
  hasFile : ∀ {q}, d.hasFile q = true → d'.hasFile q = true
  files : ∀ {q}, q ≠ p → d'.files.get? q = d.files.get? q
  tables : ∀ {q}, q ≠ p → d'.tables.get? q = d.tables.get? q

namespace ChangesOnly

variable {d d' d'' : Disk} {p : Path}

theorem refl (d : Disk) (p : Path) : d.ChangesOnly d p := ⟨rfl, id, id, fun _ => rfl, fun _ => rfl⟩

theorem trans (h : d.ChangesOnly d' p) (h' : d'.ChangesOnly d'' p) : d.ChangesOnly d'' p :=
  ⟨h'.base.trans h.base, h'.directories ∘ h.directories, h'.hasFile ∘ h.hasFile,
    fun hq => (h'.files hq).trans (h.files hq), fun hq => (h'.tables hq).trans (h.tables hq)⟩

theorem stays (h : d.ChangesOnly d' p) {q : Path} (hq : d.Exists q) : d'.Exists q :=
  hq.imp h.directories h.hasFile

theorem reaches (h : d.ChangesOnly d' p) {q : Path} {parts : List String}
    (hq : d.Reaches q parts) : d'.Reaches q parts := by
  induction parts generalizing q with
  | nil => trivial
  | cons part rest ih =>
    obtain ⟨hdir, hsize, hexists, hrest⟩ := hq
    exact ⟨h.directories hdir, hsize, h.stays hexists, ih hrest⟩

theorem checkRoute (h : d.ChangesOnly d' p) (r : Route) : d'.checkRoute r = d.checkRoute r := by
  rw [Disk.checkRoute, Disk.checkRoute, shown, shown, h.base]

/-- What a plain route leads to, it leads to later. -/
theorem locate (h : d.ChangesOnly d' p) {r : Route} (hr : r.Plain) {q : Path}
    (hq : d.locate r = .ok q) : d'.locate r = .ok q := by
  obtain ⟨rfl, hcheck, hreaches⟩ := (locate_eq_ok hr).1 hq
  exact (locate_eq_ok hr).2 ⟨rfl, (h.checkRoute r).trans hcheck, h.reaches hreaches⟩

end ChangesOnly

/-- Whether what is found on a disk is found on another one. -/
structure Keeps (d d' : Disk) : Prop where
  locate : ∀ {r : Route} {p : Path}, r.Plain → d.locate r = .ok p → d'.locate r = .ok p
  directories : ∀ {p : Path}, d.hasDirectory p = true → d'.hasDirectory p = true
  hasFile : ∀ {p : Path}, d.hasFile p = true → d'.hasFile p = true

theorem Keeps.refl (d : Disk) : d.Keeps d := ⟨fun _ => id, id, id⟩

theorem Keeps.trans {d d' d'' : Disk} (h : d.Keeps d') (h' : d'.Keeps d'') : d.Keeps d'' :=
  ⟨fun hr => h'.locate hr ∘ h.locate hr, h'.directories ∘ h.directories, h'.hasFile ∘ h.hasFile⟩

theorem ChangesOnly.keeps {d d' : Disk} {p : Path} (h : d.ChangesOnly d' p) : d.Keeps d' :=
  ⟨fun hr => h.locate hr, h.directories, h.hasFile⟩

/-- What holds of every disk that files and directories are made on: everything is in a directory,
no path is both a file and a directory, a table is in a directory of its own, and a file is known by
its number. -/
structure Sound (d : Disk) : Prop where
  above : ∀ {p}, d.Exists p → d.hasDirectory p.dropLast = true
  apart : ∀ {p}, d.hasFile p = true → d.hasDirectory p = false
  tables : ∀ {p t}, d.tables.get? p = some t → d.hasDirectory p = true
  numbers : ∀ {p q f g}, d.files.get? p = some f → d.files.get? q = some g →
    f.number = g.number → p = q
  next : ∀ {p f}, d.files.get? p = some f → f.number < d.nextFile

/-- A disk is sound if there is nothing on it but files in the base directory. -/
theorem Sound.of_files {d : Disk} (hdirectories : d.directories = []) (htables : d.tables = {})
    (hkeys : d.files.keys.Nodup) (hnumbers : (d.files.entries.map (·.2.number)).Nodup)
    (hfiles : ∀ e ∈ d.files.entries, e.1.length = 1 ∧ e.1 ≠ [".."] ∧ e.2.number < d.nextFile) :
    d.Sound := by
  have hdirectory : ∀ p, d.hasDirectory p = p.isAbove := by
    intro p
    rw [hasDirectory, hdirectories]
    exact Bool.or_false _
  have hfile : ∀ {p}, d.hasFile p = true → ∃ part, p = [part] ∧ part ≠ ".." := by
    intro p hp
    obtain ⟨f, hf⟩ := Option.isSome_iff_exists.1 hp
    obtain ⟨hlength, hne, -⟩ := hfiles _ ((Dict.mem_entries_iff hkeys).2 hf)
    obtain ⟨part, rfl⟩ := List.length_eq_one_iff.1 hlength
    exact ⟨part, rfl, fun heq => hne (congrArg ([·]) heq)⟩
  refine ⟨fun {p} hp => ?_, fun {p} hp => ?_, fun {p t} ht => ?_, fun {p q f g} hf hg hnumber => ?_,
    fun {p f} hf => (hfiles _ ((Dict.mem_entries_iff hkeys).2 hf)).2.2⟩
  · rw [hdirectory]
    rcases hp with hp | hp
    · rw [hdirectory, Path.isAbove, List.all_eq_true] at hp
      exact List.all_eq_true.2 fun part hpart => hp part (List.dropLast_subset _ hpart)
    · obtain ⟨part, rfl, -⟩ := hfile hp
      rfl
  · obtain ⟨part, rfl, hpart⟩ := hfile hp
    rw [hdirectory, Path.isAbove, List.all_cons, beq_eq_false_iff_ne.2 hpart]
    rfl
  · rw [htables] at ht
    cases ht
  · have heq := List.inj_on_of_nodup_map hnumbers ((Dict.mem_entries_iff hkeys).2 hf)
      ((Dict.mem_entries_iff hkeys).2 hg) hnumber
    exact congrArg Prod.fst heq

/-- What exists is reached, if its names are not too long. -/
theorem Sound.reaches {d : Disk} (h : d.Sound) {parts : List String} (hexists : d.Exists parts)
    (hsize : ∀ part ∈ parts, part.utf8ByteSize ≤ maxName) : d.Reaches [] parts := by
  induction hn : parts.length generalizing parts with
  | zero =>
    rw [List.length_eq_zero_iff.1 hn]
    trivial
  | succ n ih =>
    have hne : parts ≠ [] := by
      rintro rfl
      cases hn
    have hdir := h.above hexists
    rw [← List.dropLast_concat_getLast hne] at hexists ⊢
    refine reaches_append.2 ⟨ih (.inl hdir) ?_ (by simp [hn]), hdir,
      hsize _ (List.getLast_mem hne), hexists⟩
    exact fun part hpart => hsize part (List.dropLast_subset _ hpart)

theorem Reaches.size_le {d : Disk} {p : Path} {parts : List String} (h : d.Reaches p parts) :
    ∀ part ∈ parts, part.utf8ByteSize ≤ maxName := by
  induction parts generalizing p with
  | nil => exact fun part hpart => absurd hpart List.not_mem_nil
  | cons part rest ih =>
    obtain ⟨_, hsize, _, hrest⟩ := h
    exact List.forall_mem_cons.2 ⟨hsize, ih hrest⟩

/-- What exists already, and can be located later, can be located now. -/
theorem Sound.locate {d d' : Disk} (h : d.Sound) {r : Route} (hr : r.Plain) {p q : Path}
    (hd' : d.ChangesOnly d' p) (hq : d'.locate r = .ok q) (hexists : d.Exists r.parts) :
    d.locate r = .ok q := by
  obtain ⟨rfl, hcheck, hreaches⟩ := (locate_eq_ok hr).1 hq
  exact (locate_eq_ok hr).2
    ⟨rfl, (hd'.checkRoute r).symm.trans hcheck, h.reaches hexists hreaches.size_le⟩

/-! ## Making directories -/

/-- Whether a disk differs from another one only in that it has more directories. -/
structure Builds (d d' : Disk) : Prop where
  rest : d' = { d with directories := d'.directories }
  kept : ∀ {p}, d.hasDirectory p = true → d'.hasDirectory p = true
  made : ∀ {p}, d'.hasDirectory p = true →
    d.hasDirectory p = true ∨ d'.hasDirectory p.dropLast = true ∧ d.hasFile p = false

namespace Builds

variable {d d' d'' : Disk}

theorem refl (d : Disk) : d.Builds d := ⟨rfl, id, .inl⟩

theorem trans (h : d.Builds d') (h' : d'.Builds d'') : d.Builds d'' := by
  refine ⟨?_, h'.kept ∘ h.kept, fun hp => ?_⟩
  · rw [h'.rest, h.rest]
  · rcases h'.made hp with hp | ⟨hp, hfile⟩
    · exact (h.made hp).imp_right (And.imp_left h'.kept)
    · rw [hasFile, h.rest] at hfile
      exact .inr ⟨hp, hfile⟩

theorem changesOnly (h : d.Builds d') (p : Path) : d.ChangesOnly d' p := by
  refine ⟨?_, h.kept, ?_, ?_, ?_⟩
  · rw [h.rest]
  · intro q hq
    rw [h.rest]
    exact hq
  · intro q _
    rw [h.rest]
  · intro q _
    rw [h.rest]

theorem sound (h : d.Builds d') (hd : d.Sound) : d'.Sound := by
  have hfiles : d'.files = d.files := by rw [h.rest]
  have hfile : ∀ p, d'.hasFile p = d.hasFile p := fun p => by rw [hasFile, hasFile, hfiles]
  refine ⟨fun {p} hp => ?_, fun {p} hp => ?_, fun {p t} hp => ?_, fun {p q f g} hf hg => ?_,
    fun {p f} hf => ?_⟩
  · rcases hp with hp | hp
    · rcases h.made hp with hp | ⟨hp, _⟩
      · exact h.kept (hd.above (.inl hp))
      · exact hp
    · exact h.kept (hd.above (.inr (hfile p ▸ hp)))
  · rw [hfile] at hp
    cases hdir : d'.hasDirectory p with
    | false => rfl
    | true =>
      rcases h.made hdir with hold | ⟨_, hnone⟩
      · rw [hd.apart hp] at hold
        cases hold
      · rw [hp] at hnone
        cases hnone
  · rw [h.rest] at hp
    exact h.kept (hd.tables hp)
  · rw [hfiles] at hf hg
    exact hd.numbers hf hg
  · rw [hfiles] at hf
    rw [h.rest]
    exact hd.next hf

end Builds

theorem makeDirectory_builds {d d' : Disk} {r : Route} (h : d.makeDirectory r = .ok d') :
    d.Builds d' := by
  obtain ⟨p, slash, happroach, _, _, hfile, rfl⟩ := makeDirectory_eq_ok h
  obtain ⟨above, part, hends, rfl, -⟩ := approach_eq_name happroach
  refine ⟨rfl, fun hq => hasDirectory_append.2 (.inl hq), fun {q} hq => ?_⟩
  rcases hasDirectory_append.1 hq with hq | rfl
  · exact .inl hq
  · rw [List.dropLast_concat]
    exact .inr ⟨hasDirectory_append.2 (.inl hends.directory), hfile⟩

theorem ensureDirectory_builds (d : Disk) (r : Route) : d.Builds (d.ensureDirectory r).1 := by
  rw [ensureDirectory]
  split
  · next h => exact makeDirectory_builds h
  · exact .refl d

theorem ensureFirst_builds (d : Disk) (routes : List Route) :
    d.Builds (d.ensureFirst routes).1 := by
  induction routes generalizing d with
  | nil => exact .refl d
  | cons r above ih =>
    rw [ensureFirst]
    split
    · next d₁ h =>
      have h₁ : d.Builds d₁ := by simpa [h] using ensureDirectory_builds d r
      have h₂ := ih d₁
      split
      · next d₂ _ h' =>
        rw [h'] at h₂
        exact (h₁.trans h₂).trans (ensureDirectory_builds d₂ r)
      · exact h₁.trans h₂
    · exact ensureDirectory_builds d r

theorem createDirectories_builds (d : Disk) (r : Route) : d.Builds (d.createDirectories r).1 := by
  rw [createDirectories]
  split
  · exact ensureFirst_builds d r.upward
  · exact .refl d

/-- The directory of what a plain route leads to can be created, for it is there. -/
theorem createDirectories_parent {d : Disk} {r : Route} (hr : r.Plain) {p : Path}
    (h : d.locate r = .ok p) : d.createDirectories r.parent = (d, .ok ()) := by
  obtain ⟨rfl, hcheck, hreaches⟩ := (locate_eq_ok hr).1 h
  obtain ⟨hreaches, hdir, _⟩ := (reaches_parts hr).1 hreaches
  obtain ⟨q, part, hends, -, -⟩ :=
    approach_eq_name ((approach_eq_ok hr).2 ⟨rfl, hcheck, hreaches, hdir⟩)
  exact hends.createDirectories_parent hr.endsWithSlash_eq

/-! ## Files and tables -/

/-- The content of the file at a path; without a file there is none. -/
def contentAt (d : Disk) (p : Path) : Bytes := ((d.files.get? p).map (·.content)).getD []

/-- The records of the table at a path. -/
def recordsAt (d : Disk) (p : Path) : Dict Bytes Bytes := (d.tables.get? p).getD {}

theorem contentAt_of_file {d : Disk} {p : Path} {file : File} (h : d.files.get? p = some file) :
    d.contentAt p = file.content := by
  rw [contentAt, h]
  rfl

theorem hasFile_iff {d : Disk} {p : Path} :
    d.hasFile p = true ↔ ∃ file, d.files.get? p = some file := by
  rw [hasFile, Dict.contains, Option.isSome_iff_exists]

theorem Builds.contentAt {d d' : Disk} (h : d.Builds d') (p : Path) :
    d'.contentAt p = d.contentAt p := by
  rw [Disk.contentAt, Disk.contentAt, h.rest]

theorem Builds.recordsAt {d d' : Disk} (h : d.Builds d') (p : Path) :
    d'.recordsAt p = d.recordsAt p := by
  rw [Disk.recordsAt, Disk.recordsAt, h.rest]

theorem ChangesOnly.recordsAt {d d' : Disk} {p q : Path} (h : d.ChangesOnly d' p) (hq : q ≠ p) :
    d'.recordsAt q = d.recordsAt q := by
  rw [Disk.recordsAt, Disk.recordsAt, h.tables hq]

section

variable {d d' : Disk} {r : Route} (hr : r.Plain)

include hr

theorem openFile_eq_ok {file : File} (h : d.openFile r = .ok (file, d')) :
    d.writable r = .ok r.parts ∧
      (d.files.get? r.parts = some file ∧ d' = d ∨
        d.files.get? r.parts = none ∧ file = ⟨d.nextFile, []⟩ ∧
          d' = { d with files := d.files.insert r.parts file, nextFile := d.nextFile + 1 }) := by
  rw [openFile] at h
  obtain ⟨p, hwritable, h⟩ := bind_eq_ok.1 h
  obtain rfl := ((writable_eq_ok hr).1 hwritable).1
  refine ⟨hwritable, ?_⟩
  split at h
  · next hfile =>
    cases h
    exact .inl ⟨hfile, rfl⟩
  · next hfile =>
    cases h
    refine .inr ⟨hfile, rfl, ?_⟩
    rw [setContent, hfile]

/-- A file that was opened is there, with the content it had. -/
theorem get?_of_openFile {file : File} (h : d.openFile r = .ok (file, d')) :
    d'.files.get? r.parts = some file ∧ file.content = d.contentAt r.parts := by
  rcases (openFile_eq_ok hr h).2 with ⟨hfile, rfl⟩ | ⟨hfile, rfl, rfl⟩
  · exact ⟨hfile, (contentAt_of_file hfile).symm⟩
  · refine ⟨?_, ?_⟩
    · rw [Dict.get?_insert, if_pos rfl]
    · rw [contentAt, hfile]
      rfl

theorem changesOnly_of_openFile {file : File} (h : d.openFile r = .ok (file, d')) :
    d.ChangesOnly d' r.parts := by
  rcases (openFile_eq_ok hr h).2 with ⟨_, rfl⟩ | ⟨_, _, rfl⟩
  · exact .refl _ _
  · refine ⟨rfl, id, fun {q} hq => ?_, fun {q} hq => ?_, fun _ => rfl⟩
    · obtain ⟨g, hg⟩ := hasFile_iff.1 hq
      rw [hasFile_iff]
      by_cases hqp : q = r.parts
      · exact ⟨file, by rw [Dict.get?_insert, if_pos hqp.symm]⟩
      · exact ⟨g, by rw [Dict.get?_insert, if_neg (Ne.symm hqp), hg]⟩
    · rw [Dict.get?_insert, if_neg (Ne.symm hq)]

theorem locate_of_openFile {file : File} (h : d.openFile r = .ok (file, d')) :
    d'.locate r = .ok r.parts := by
  obtain ⟨_, hcheck, hreaches, hdir, hsize, _⟩ := (writable_eq_ok hr).1 (openFile_eq_ok hr h).1
  have hd' := changesOnly_of_openFile hr h
  have hfile := hasFile_iff.2 ⟨file, (get?_of_openFile hr h).1⟩
  exact (locate_eq_ok hr).2 ⟨rfl, (hd'.checkRoute r).trans hcheck, (reaches_parts hr).2
    ⟨hd'.reaches hreaches, hd'.directories hdir, hsize, .inr hfile⟩⟩

theorem Sound.openFile (hd : d.Sound) {file : File} (h : d.openFile r = .ok (file, d')) :
    d'.Sound := by
  obtain ⟨_, _, _, hdir, _, hfree⟩ := (writable_eq_ok hr).1 (openFile_eq_ok hr h).1
  rcases (openFile_eq_ok hr h).2 with ⟨_, rfl⟩ | ⟨_, rfl, rfl⟩
  · exact hd
  -- the new file has a number that no other file has
  have hget : ∀ {q f}, (d.files.insert r.parts ⟨d.nextFile, []⟩).get? q = some f →
      q = r.parts ∧ f.number = d.nextFile ∨ d.files.get? q = some f ∧ f.number < d.nextFile := by
    intro q f hf
    rw [Dict.get?_insert] at hf
    split at hf
    · next hq =>
      cases hf
      exact .inl ⟨hq.symm, rfl⟩
    · exact .inr ⟨hf, hd.next hf⟩
  refine ⟨fun {p} hp => ?_, fun {p} hp => ?_, hd.tables, fun {p q f g} hf hg hfg => ?_,
    fun {p f} hf => ?_⟩
  · rcases hp with hp | hp
    · exact hd.above (.inl hp)
    · obtain ⟨f, hf⟩ := hasFile_iff.1 hp
      rcases hget hf with ⟨rfl, _⟩ | ⟨hf, _⟩
      · exact hdir
      · exact hd.above (.inr (hasFile_iff.2 ⟨f, hf⟩))
  · obtain ⟨f, hf⟩ := hasFile_iff.1 hp
    rcases hget hf with ⟨rfl, _⟩ | ⟨hf, _⟩
    · exact hfree
    · exact hd.apart (hasFile_iff.2 ⟨f, hf⟩)
  · rcases hget hf with ⟨rfl, hnew⟩ | ⟨hold, hlt⟩ <;> rcases hget hg with ⟨rfl, hnew'⟩ | ⟨hold', hlt'⟩
    · rfl
    · rw [← hfg, hnew] at hlt'
      exact absurd hlt' (Nat.lt_irrefl _)
    · rw [hfg, hnew'] at hlt
      exact absurd hlt (Nat.lt_irrefl _)
    · exact hd.numbers hold hold' hfg
  · rcases hget hf with ⟨_, hnew⟩ | ⟨_, hlt⟩
    · exact hnew ▸ Nat.lt_succ_self d.nextFile
    · exact Nat.lt_succ_of_lt hlt

/-- A file that is there can be opened as it is. -/
theorem openFile_of_file (hd : d.Sound) {p : Path} (h : d.locate r = .ok p)
    {file : File} (hfile : d.files.get? r.parts = some file) : d.openFile r = .ok (file, d) := by
  obtain ⟨_, hcheck, hreaches⟩ := (locate_eq_ok hr).1 h
  obtain ⟨hreaches, hdir, hsize, _⟩ := (reaches_parts hr).1 hreaches
  have hfree := hd.apart (hasFile_iff.2 ⟨file, hfile⟩)
  rw [Disk.openFile]
  refine bind_eq_ok.2 ⟨_, (writable_eq_ok hr).2 ⟨rfl, hcheck, hreaches, hdir, hsize, hfree⟩, ?_⟩
  rw [hfile]
  rfl

omit hr in
theorem read_of_locate {p : Path} (h : d.locate r = .ok p) :
    d.read r = match d.files.get? p with
      | some file => .ok file.content
      | none => .error .isADirectory := by
  rw [Disk.read, h]
  rfl

/-- What is read is the content of the file, or nothing where there is none to be found. -/
theorem read_cases : (d.read r).toOption.getD [] = d.contentAt r.parts ∨
    (d.read r).toOption.getD [] = [] := by
  cases hlocate : d.locate r with
  | error e =>
    rw [Disk.read, hlocate]
    exact .inr rfl
  | ok p =>
    obtain ⟨rfl, _⟩ := (locate_eq_ok hr).1 hlocate
    rw [read_of_locate hlocate, contentAt]
    cases d.files.get? r.parts with
    | none => exact .inr rfl
    | some file => exact .inl rfl

/-- A file that can be found later is found if it is there already. -/
theorem read_eq (hd : d.Sound) {p q : Path} (hd' : d.ChangesOnly d' p) (hq : d'.locate r = .ok q) :
    (d.read r).toOption.getD [] = d.contentAt r.parts := by
  cases hfile : d.files.get? r.parts with
  | some file =>
    have hlocate := hd.locate hr hd' hq (.inr (hasFile_iff.2 ⟨file, hfile⟩))
    obtain ⟨rfl, _⟩ := (locate_eq_ok hr).1 hq
    rw [read_of_locate hlocate, contentAt, hfile]
    rfl
  | none =>
    have hnone : d.contentAt r.parts = [] := by
      rw [contentAt, hfile]
      rfl
    rw [hnone]
    exact (read_cases hr).elim (fun h => h.trans hnone) id

end

theorem get?_append (d : Disk) (h : Handle) (bytes : Bytes) (q : Path) :
    (d.append h bytes).files.get? q = (d.files.get? q).map fun file =>
      if file.number == h then ⟨file.number, file.content ++ bytes⟩ else file :=
  Dict.lookup_map (fun file : File =>
    if file.number == h then (⟨file.number, file.content ++ bytes⟩ : File) else file) q d.files.entries

theorem number_of_get?_append {d : Disk} {h : Handle} {bytes : Bytes} {q : Path} {g : File}
    (hg : (d.append h bytes).files.get? q = some g) :
    ∃ f, d.files.get? q = some f ∧ f.number = g.number := by
  rw [get?_append] at hg
  obtain ⟨f, hf, rfl⟩ := Option.map_eq_some_iff.1 hg
  refine ⟨f, hf, ?_⟩
  split <;> rfl

section

variable {d : Disk} (hd : d.Sound)

include hd

theorem Sound.append (h : Handle) (bytes : Bytes) : (d.append h bytes).Sound := by
  have hfile : ∀ {p}, (d.append h bytes).hasFile p = true → d.hasFile p = true := by
    intro p hp
    obtain ⟨f, hf⟩ := hasFile_iff.1 hp
    obtain ⟨g, hg, _⟩ := number_of_get?_append hf
    exact hasFile_iff.2 ⟨g, hg⟩
  refine ⟨fun hp => hd.above (hp.imp_right hfile), fun hp => hd.apart (hfile hp), hd.tables,
    fun {p q f g} hf hg hfg => ?_, fun {p f} hf => ?_⟩
  · obtain ⟨f', hf', hnf⟩ := number_of_get?_append hf
    obtain ⟨g', hg', hng⟩ := number_of_get?_append hg
    exact hd.numbers hf' hg' (hnf.trans (hfg.trans hng.symm))
  · obtain ⟨f', hf', hnf⟩ := number_of_get?_append hf
    exact hnf ▸ hd.next hf'

variable {p : Path} {file : File} (hfile : d.files.get? p = some file) (bytes : Bytes)

include hfile

theorem changesOnly_append : d.ChangesOnly (d.append file.number bytes) p := by
  refine ⟨rfl, id, fun {q} hq => ?_, fun {q} hq => ?_, fun _ => rfl⟩
  · obtain ⟨g, hg⟩ := hasFile_iff.1 hq
    rw [hasFile_iff, get?_append, hg]
    exact ⟨_, rfl⟩
  · rw [get?_append]
    cases hg : d.files.get? q with
    | none => rfl
    | some g =>
      have hne : g.number ≠ file.number := fun heq => hq (hd.numbers hg hfile heq)
      rw [Option.map_some, if_neg (mt beq_iff_eq.1 hne)]

omit hd in
theorem get?_append_self : (d.append file.number bytes).files.get? p
    = some { file with content := file.content ++ bytes } := by
  rw [get?_append, hfile, Option.map_some, if_pos (beq_self_eq_true _)]

end

theorem records_eq {d : Disk} {r : Route} {p : Path} (h : d.locate r = .ok p) :
    d.records r = d.recordsAt p := by
  rw [records, recordsAt, h]
  rfl

section

variable {d : Disk} {r : Route} {p : Path} (h : d.locate r = .ok p) (records : Dict Bytes Bytes)

include h

theorem setRecords_eq : d.setRecords r records = { d with tables := d.tables.insert p records } := by
  rw [setRecords, h]

theorem recordsAt_setRecords : (d.setRecords r records).recordsAt p = records := by
  rw [setRecords_eq h, recordsAt, Dict.get?_insert, if_pos rfl]
  rfl

theorem changesOnly_setRecords : d.ChangesOnly (d.setRecords r records) p := by
  rw [setRecords_eq h]
  refine ⟨rfl, id, id, fun _ => rfl, fun {q} hq => ?_⟩
  rw [Dict.get?_insert, if_neg (Ne.symm hq)]

theorem Sound.setRecords (hd : d.Sound) (hdir : d.hasDirectory p = true) :
    (d.setRecords r records).Sound := by
  rw [setRecords_eq h]
  refine ⟨hd.above, hd.apart, fun {q t} hq => ?_, hd.numbers, hd.next⟩
  rw [Dict.get?_insert] at hq
  split at hq
  · next heq => exact heq ▸ hdir
  · exact hd.tables hq

end

/-! ## Files that stay where they are -/

/-- Whether a route leads to a file that can be written. -/
def Finds (d : Disk) (r : Route) (file : File) : Prop :=
  ∃ q part, d.Writable r q part ∧ d.files.get? (q ++ [part]) = some file

/-- A file stays the same if another one gets its content, even if that is the same one. -/
theorem get?_setContent_same {d : Disk} {p : Path} {file : File} (h : d.files.get? p = some file)
    (q : Path) : (d.setContent q file.content).files.get? p = some file := by
  rw [setContent]
  by_cases hq : q = p
  · subst hq
    rw [h]
    dsimp only
    rw [Dict.get?_insert, if_pos rfl]
  · split <;> rw [Dict.get?_insert, if_neg hq, h]

namespace Finds

variable {d d' : Disk} {r : Route} {file : File} (h : d.Finds r file)

include h

theorem locate : ∃ p, d.locate r = .ok p ∧ d.files.get? p = some file ∧ d.hasDirectory p = false := by
  obtain ⟨q, part, hw, hget⟩ := h
  exact ⟨_, hw.locate_eq (hasFile_iff.2 ⟨file, hget⟩), hget, hw.free⟩

theorem read_eq : d.read r = .ok file.content := by
  obtain ⟨p, hlocate, hget, -⟩ := h.locate
  rw [read_of_locate hlocate, hget]

theorem isDirectory_eq : d.isDirectory r = false := by
  obtain ⟨p, hlocate, -, hfree⟩ := h.locate
  rw [isDirectory, hlocate]
  exact hfree

theorem sameTree (htree : d.SameTree d') (hfiles : d'.files = d.files) : d'.Finds r file := by
  obtain ⟨q, part, hw, hget⟩ := h
  exact ⟨q, part, hw.sameTree htree, by rw [hfiles, hget]⟩

theorem append (bytes : Bytes) : (d.append file.number bytes).Finds r
    { file with content := file.content ++ bytes } := by
  obtain ⟨q, part, hw, hget⟩ := h
  exact ⟨q, part, hw.sameTree (sameTree_append d _ bytes), get?_append_self hget bytes⟩

/-- No directory is made where a file is. -/
theorem builds (hd' : d.Builds d') : d'.Finds r file := by
  obtain ⟨q, part, hw, hget⟩ := h
  have hfile : d.hasFile (q ++ [part]) = true := hasFile_iff.2 ⟨file, hget⟩
  have hfree : d'.hasDirectory (q ++ [part]) = false := by
    cases hdir : d'.hasDirectory (q ++ [part]) with
    | false => rfl
    | true =>
      rcases hd'.made hdir with hold | ⟨-, hnone⟩
      · rw [hw.free] at hold
        cases hold
      · rw [hfile] at hnone
        cases hnone
  refine ⟨q, part, hw.grows ⟨by rw [hd'.rest], hd'.kept⟩ hfree, ?_⟩
  rw [hd'.rest]
  exact hget

/-- A file can be copied anywhere. -/
theorem copy {target : Route} (hcopy : d.copy r target = .ok d') : d'.Finds r file := by
  rw [Disk.copy, h.read_eq] at hcopy
  obtain ⟨p, -, hcopy⟩ := bind_eq_ok.1 hcopy
  cases hcopy
  obtain ⟨q, part, hw, hget⟩ := h
  exact ⟨q, part, hw.sameTree (sameTree_setContent d p _), get?_setContent_same hget p⟩

end Finds

end ScriptStore.Disk
