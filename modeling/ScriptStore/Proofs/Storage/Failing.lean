import ScriptStore.Proofs.Storage.Backend
import ScriptStore.Proofs.Storage.Sparing

/-!
# What is left of a storage that fails to load

A storage may have done something to the disk before it fails to load: made directories, or copied
aside a file with lines that are lost. But only a file that was found has lines, and a file that was
found can be opened, so that loading it does not fail. Hence nothing is left but directories
(`Backend.builds_of_failure`).

That a file which was read can be opened takes a disk on which every directory is in a directory
(`Disk.Rooted`). Otherwise a route that ends by going back could lead to a file. No work on storages
changes that (`Work.Roots`).
-/

namespace ScriptStore

open Storage
open ScriptStore.Types (Registry)

/-! ## Directories in directories -/

namespace Disk

/-- Whether every directory is in a directory. -/
def Rooted (d : Disk) : Prop := ∀ p, d.hasDirectory p = true → d.hasDirectory p.dropLast = true

section

variable {d d' : Disk} {r : Route} {p : Path}

/-- One can go back from every directory. -/
theorem Rooted.up (h : d.Rooted) (hp : d.hasDirectory p = true) : d.hasDirectory p.up = true := by
  unfold Path.up
  split
  · next habove =>
    have hup : Path.isAbove (p ++ [".."]) = true := by
      rw [Path.isAbove, List.all_append, ← Path.isAbove, habove]
      rfl
    rw [hasDirectory, hup]
    rfl
  · exact h p hp

theorem Rooted.sameTree (h : d.Rooted) (hd' : d.SameTree d') : d'.Rooted := by
  intro p hp
  rw [hd'.hasDirectory] at hp ⊢
  exact h p hp

theorem Rooted.builds (h : d.Rooted) (hd' : d.Builds d') : d'.Rooted := by
  intro p hp
  rcases hd'.made hp with hp | ⟨hp, -⟩
  · exact hd'.kept (h p hp)
  · exact hp

theorem sameTree_of_copy {target : Route} (h : d.copy r target = .ok d') : d.SameTree d' := by
  unfold copy at h
  split at h
  · cases h
  · cases h
  · obtain ⟨p, -, h⟩ := bind_eq_ok.1 h
    cases h
    exact sameTree_setContent d p _

theorem sameTree_of_openFile {file : File} (h : d.openFile r = .ok (file, d')) : d.SameTree d' := by
  unfold openFile at h
  obtain ⟨p, -, h⟩ := bind_eq_ok.1 h
  split at h
  · cases h
    exact .refl d
  · cases h
    exact sameTree_setContent d p _

theorem sameTree_setRecords (d : Disk) (r : Route) (records : Dict Text.Bytes Text.Bytes) :
    d.SameTree (d.setRecords r records) := by
  unfold setRecords
  split <;> exact ⟨rfl, rfl⟩

/-- A route that leads to a file comes to its name, for nobody goes back to a file. -/
theorem Rooted.finds (h : d.Rooted) (hlocate : d.locate r = .ok p) {file : File}
    (hfile : d.files.get? p = some file) (hfree : d.hasDirectory p = false) : d.Finds r file := by
  obtain ⟨⟨⟩, hcheck, hlocate⟩ := bind_eq_ok.1 hlocate
  obtain ⟨p', hsteps, hlocate⟩ := bind_eq_ok.1 hlocate
  split at hlocate
  · cases hlocate
  · next hslash =>
    cases hlocate
    have hopen : r.endsWithSlash = false := by simpa [hfree] using hslash
    rcases List.eq_nil_or_concat r.steps with hnil | ⟨front, part, hfront⟩
    · rw [hnil] at hsteps
      cases hsteps
      cases hfree
    · rw [List.concat_eq_append] at hfront
      rw [hfront, List.foldlM_append] at hsteps
      obtain ⟨q, hq, hlast⟩ := bind_eq_ok.1 hsteps
      obtain ⟨p', hstep, hend⟩ := bind_eq_ok.1 hlast
      cases hend
      -- the last step stays, goes back or is a name; the first two end at a directory
      obtain ⟨hdir, ⟨-, rfl⟩ | ⟨-, rfl⟩ | ⟨hname, hsize, rfl⟩⟩ := step_eq_ok hstep
      · rw [hdir] at hfree
        cases hfree
      · rw [h.up hdir] at hfree
        cases hfree
      · exact ⟨q, part, ⟨⟨hcheck, ⟨front, hfront, hq⟩, hdir, hname⟩, hopen, hsize, hfree⟩, hfile⟩

/-- What can be read is in a file. -/
theorem Rooted.finds_of_read (h : d.Rooted) {content : Text.Bytes} (hread : d.read r = .ok content)
    (hdirectory : d.isDirectory r = false) : ∃ file, d.Finds r file ∧ file.content = content := by
  obtain ⟨p, hlocate, hread⟩ := bind_eq_ok.1 hread
  have hfree : d.hasDirectory p = false := by
    rw [isDirectory, hlocate] at hdirectory
    exact hdirectory
  split at hread
  · next file hfile =>
    cases hread
    exact ⟨file, h.finds hlocate hfile hfree, rfl⟩
  · cases hread

/-- A disk that has no other directories than before is as it was. -/
theorem Builds.eq_of_directories (h : d.Builds d') (hdirectories : d'.directories = d.directories) :
    d' = d := by
  rw [h.rest, hdirectories]

end

end Disk

/-! ## Work that keeps it so -/

namespace Storage

/-- Whether work leaves every directory in a directory. -/
def Work.Roots {α : Type} (w : Work α) : Prop := ∀ d : Disk, d.Rooted → (w.out d).2.Rooted

namespace Work.Roots

variable {α β : Type}

theorem pure (a : α) : Roots (Pure.pure a : Work α) := fun _ hd => hd

theorem get : Roots (MonadStateOf.get : Work Disk) := fun _ hd => hd

theorem lift (x : Logged α) : Roots (liftM x : Work α) := fun _ hd => hd

theorem bind {w : Work α} {f : α → Work β} (hw : w.Roots) (hf : ∀ a, (f a).Roots) :
    Roots (w >>= f) := fun d hd => hf _ _ (hw d hd)

end Work.Roots

theorem roots_createDirectories (r : Disk.Route) : (createDirectories r).Roots := by
  intro d hd
  rw [out_createDirectories]
  exact hd.builds (Disk.createDirectories_builds d r)

namespace FlatFile

theorem roots_backupFile (route : Disk.Route) : (backupFile route).Roots := by
  unfold backupFile
  refine .bind (roots_createDirectories _) fun made => ?_
  cases made with
  | error e => exact .pure _
  | ok u =>
    intro d hd
    dsimp only
    rw [Work.out_bind, Work.out_get]
    dsimp only
    rw [Work.out_bind, Work.out_set]
    dsimp only
    have hnow : d.now.2.Rooted := hd.sameTree ⟨rfl, rfl⟩
    split
    · exact hnow
    · generalize hcopy : d.now.2.copy route _ = result
      cases result with
      | error e =>
        rw [out_onDisk_error hcopy]
        exact hnow
      | ok d' =>
        rw [out_onDisk hcopy]
        exact hnow.sameTree (Disk.sameTree_of_copy hcopy)

theorem roots_openFile (f : FlatFile) : f.openFile.Roots := by
  unfold openFile
  refine .bind (roots_createDirectories _) fun made => ?_
  cases made with
  | error e => exact .pure _
  | ok u =>
    intro d hd
    dsimp only
    rw [Work.out_bind, Work.out_get]
    dsimp only
    cases hopen : d.openFile f.route with
    | error e => exact hd
    | ok opened =>
      have hopened := hd.sameTree (Disk.sameTree_of_openFile hopen)
      dsimp only
      rw [Work.out_bind, Work.out_set]
      show Disk.Rooted (if _ then _ else _)
      split
      · exact hopened.sameTree (Disk.sameTree_append _ _ _)
      · exact hopened

theorem roots_connect (f : FlatFile) : f.connect.Roots := by
  unfold connect
  split
  · exact .pure _
  · refine .bind (roots_openFile f) fun opened => ?_
    cases opened <;> exact .pure _

theorem roots_readFile (f : FlatFile) (r : Registry) : (f.readFile r).Roots := by
  unfold readFile
  refine .bind .get fun d => .bind (.lift _) fun read => ?_
  dsimp only
  split
  · refine .bind (.lift _) fun _ => .bind (roots_backupFile _) fun made => ?_
    cases made with
    | ok u => exact .bind (.pure _) fun _ => .pure _
    | error e => exact .bind .get fun _ => .bind (.lift _) fun _ => .pure _
  · exact .bind (.pure _) fun _ => .pure _

theorem roots_load (f : FlatFile) (r : Registry) : (f.load r).Roots := by
  unfold load
  refine .bind .get fun d => ?_
  split
  · exact .pure _
  · refine .bind (roots_readFile f r) fun events => .bind (roots_connect f) fun connected => ?_
    obtain ⟨f', result⟩ := connected
    cases result <;> exact .pure _

theorem roots_save (f : FlatFile) (change : Change) : (f.save change).Roots := by
  unfold save
  split
  · exact .pure _
  · split
    · exact .bind .get fun _ => .pure _
    · refine .bind (fun _ hd => ?_) fun _ => .pure _
      exact hd.sameTree (Disk.sameTree_append _ _ _)

theorem out_openFile_error {f : FlatFile} {d d₁ : Disk} {e : FileError}
    (hmade : d.createDirectories f.route.parent = (d₁, .ok ()))
    (hopen : d₁.openFile f.route = .error e) : f.openFile.out d = (.error (.file e), d₁) := by
  rw [openFile, Work.out_bind, out_createDirectories, hmade]
  dsimp only [Except.mapError]
  rw [Work.out_bind, Work.out_get]
  dsimp only
  rw [hopen]
  rfl

/-- A file that could not be opened is not there, but directories may be. -/
theorem builds_of_openFile {f : FlatFile} {d d' : Disk} {e : Error}
    (h : f.openFile.out d = (.error e, d')) : d.Builds d' := by
  have hbuilds := Disk.createDirectories_builds d f.route.parent
  rcases hmade : d.createDirectories f.route.parent with ⟨d₁, _ | u⟩
  · rw [hmade] at hbuilds
    rw [openFile, Work.out_bind, out_createDirectories, hmade] at h
    cases h
    exact hbuilds
  · rw [hmade] at hbuilds
    cases hopen : d₁.openFile f.route with
    | error e =>
      rw [out_openFile_error hmade hopen] at h
      cases h
      exact hbuilds
    | ok opened =>
      rw [out_openFile hmade hopen] at h
      cases h

section

variable {f : FlatFile} {r : Registry} {d : Disk}

/-- Where nothing is read, loading is opening the file. -/
theorem out_load_unread (hhandle : f.handle = none) (hdirectory : d.isDirectory f.route = false)
    (hread : (d.read f.route).toOption.getD [] = []) :
    (f.load r).out d = match f.openFile.out d with
      | (.ok handle, d') => (⟨{ f with handle := some handle, loaded := true }, [], none⟩, d')
      | (.error e, d') => (⟨f, [], some e⟩, d') := by
  have hkept : Kept r ((d.read f.route).toOption.getD []) := by
    rw [hread]
    exact kept_nil r
  rw [out_load hhandle hkept, hdirectory, if_neg Bool.false_ne_true, hread]
  rfl

/-- A file from which nothing is lost is loaded without a trace. -/
theorem out_load_kept {file : Disk.File} (hhandle : f.handle = none) (hfound : d.Finds f.route file)
    (hkept : Kept r file.content) (hne : file.content ≠ []) :
    (f.load r).out d = (⟨{ f with handle := some file.number, loaded := true },
      eventsIn r file.content, none⟩, d) := by
  have hread : (d.read f.route).toOption.getD [] = file.content := by
    rw [hfound.read_eq]
    rfl
  rw [out_load hhandle (hread.symm ▸ hkept), hfound.isDirectory_eq, if_neg Bool.false_ne_true,
    out_openFile_of_found hfound hne, hread]

/-- A text file fails to load only if there is nothing to read. -/
theorem builds_of_failure (hd : d.Rooted) (h : ((f.load r).out d).1.failure ≠ none) :
    d.Builds ((f.load r).out d).2 := by
  cases hdirectory : d.isDirectory f.route with
  | true =>
    have hload : (f.load r).out d = (⟨f, [], some (.notAFile (d.shown f.file))⟩, d) := by
      unfold load
      rw [Work.out_bind, Work.out_get]
      dsimp only
      rw [hdirectory]
      rfl
    rw [hload]
    exact .refl d
  | false =>
    cases hhandle : f.handle with
    | some handle =>
      -- it is open already
      have hconnect : f.connect = pure (f, .ok ()) := by
        unfold connect
        rw [connected, hhandle]
        rfl
      unfold load at h
      rw [Work.out_bind, Work.out_get] at h
      dsimp only at h
      rw [hdirectory, if_neg Bool.false_ne_true, Work.out_bind, hconnect] at h
      exact absurd rfl h
    | none =>
      by_cases hcontent : (d.read f.route).toOption.getD [] = []
      · rw [out_load_unread hhandle hdirectory hcontent] at h ⊢
        rcases hopen : f.openFile.out d with ⟨e | handle, d'⟩
        · exact builds_of_openFile hopen
        · rw [hopen] at h
          exact absurd rfl h
      · -- what was read is in a file, which can be found again
        cases hread : d.read f.route with
        | error e =>
          rw [hread] at hcontent
          exact absurd rfl hcontent
        | ok content =>
          rw [hread] at hcontent
          obtain ⟨file, hfound, rfl⟩ := hd.finds_of_read hread hdirectory
          obtain ⟨d', hload, -⟩ := load_of_found r hhandle hfound hcontent
          rw [hload] at h
          exact absurd rfl h

end

end FlatFile

namespace Table

theorem roots_connect (t : Table) : t.connect.Roots := by
  unfold connect
  refine .bind .get fun d => ?_
  split
  · exact .pure _
  · split
    · exact .pure _
    · refine .bind (roots_createDirectories _) fun made => ?_
      cases made <;> exact .pure _

theorem roots_load (t : Table) (r : Registry) : (t.load r).Roots := by
  unfold load
  refine .bind (roots_connect t) fun connected => ?_
  obtain ⟨t', result⟩ := connected
  cases result with
  | error e => exact .pure _
  | ok u =>
    refine .bind .get fun d => .bind (.lift _) fun read => ?_
    dsimp only
    split
    · exact .bind (.lift _) fun _ => .pure _
    · exact .bind (.pure _) fun _ => .pure _

theorem roots_save (t : Table) (change : Change) : (t.save change).Roots := by
  intro d hd
  unfold save update
  rw [Work.out_bind, Work.out_get]
  dsimp only
  split
  · exact hd
  · split
    · exact hd
    · exact hd.sameTree (Disk.sameTree_setRecords d _ _)

/-- A table fails to load only if its directory cannot be made. -/
theorem builds_of_failure {t : Table} {r : Registry} {d : Disk}
    (h : ((t.load r).out d).1.failure ≠ none) : d.Builds ((t.load r).out d).2 := by
  have hconnect : ∀ {t' e d'}, t.connect.out d = ((t', .error e), d') → d.Builds d' := by
    intro t' e d' hconnect
    unfold connect at hconnect
    rw [Work.out_bind, Work.out_get] at hconnect
    dsimp only at hconnect
    split at hconnect
    · cases hconnect
    · split at hconnect
      · cases hconnect
        exact .refl d
      · have hbuilds := Disk.createDirectories_builds d t.route
        rw [Work.out_bind, out_createDirectories] at hconnect
        generalize d.createDirectories t.route = made at hconnect hbuilds
        obtain ⟨d₁, result⟩ := made
        cases result with
        | ok u => cases hconnect
        | error e =>
          cases hconnect
          exact hbuilds
  unfold load at h ⊢
  rw [Work.out_bind] at h ⊢
  rcases hresult : t.connect.out d with ⟨⟨t', e | u⟩, d'⟩
  · exact hconnect hresult
  · -- whatever is lost of its records, a table that is connected is loaded
    rw [hresult] at h
    dsimp only at h
    rw [Work.out_bind, Work.out_get, Work.out_bind, Work.out_lift] at h
    dsimp only at h
    split at h <;> exact absurd rfl h

end Table

namespace Backend

theorem roots_load (b : Backend) (r : Registry) : (b.load r).Roots := by
  unfold load
  cases b with
  | memory m => exact .bind (.lift _) fun _ => .pure _
  | flatFile f => exact .bind (FlatFile.roots_load f r) fun _ => .pure _
  | table t => exact .bind (Table.roots_load t r) fun _ => .pure _
  | relay s => exact .bind (.lift _) fun _ => .pure _

theorem roots_save (b : Backend) (change : Change) : (b.save change).Roots := by
  unfold save
  cases b with
  | memory m => exact .pure _
  | flatFile f => exact .bind (FlatFile.roots_save f change) fun _ => .pure _
  | table t => exact .bind (Table.roots_save t change) fun _ => .pure _
  | relay s => exact .pure _

/-- **A backend that fails to load leaves nothing on the disk but directories.** -/
theorem builds_of_failure {b : Backend} {r : Registry} {d : Disk} (hd : d.Rooted)
    (h : ((b.load r).out d).1.failure ≠ none) : d.Builds ((b.load r).out d).2 := by
  cases b with
  | memory m => exact .refl d
  | flatFile f => exact FlatFile.builds_of_failure hd h
  | table t => exact Table.builds_of_failure h
  | relay s => exact .refl d

end Backend

end Storage

end ScriptStore
