import ScriptStore.Proofs.Storage.Failing

/-!
# What is left of a text file that cannot be replaced

To replace its content, a text file is closed, another file is written beside it and moved over it, and
the result is opened. Either of the first two steps may fail; what was moved there can be opened
(`Disk.finds_of_rename`). Up to that point nothing was done to the file itself, and what its route
leads to does not depend on the file beside it (`Disk.EndsAt.read_beside`): the two routes part at
their last names only. So a failure leaves the content and the number of changes as they were.

But it leaves the storage closed, which it was not before. Changes are then refused that would have been
appended, until somebody connects the storage again; another replacement does not do that, even if
it succeeds (`FlatFile.out_runAll_closed`). All that is lost is the open file. If the storage is
connected it is as it was before the failure (`FlatFile.out_replace_error`).
-/

namespace ScriptStore

open Text (Bytes)
open ScriptStore.Types (Registry Saved)

/-! ## Files beside each other -/

namespace Disk

section

variable {d d' : Disk} {r : Route} {p q : Path} {part text ending : String} {content : Bytes}

/-- Whether a route goes a certain way, and then at most one step on, not to the given name. -/
def Route.Beside (r : Route) (front : List String) (part : String) : Prop :=
  r.steps = front ∨ ∃ last, last ≠ part ∧ r.steps = front ++ [last]

/-- A route with something behind its last name goes the same way up to there. -/
theorem EndsAt.exists_beside (h : d.EndsAt (.ofText (text ++ ending)) q part) (hne : ending ≠ "")
    (hending : '/' ∉ ending.toList) :
    ∃ front, front.foldlM d.step [] = .ok q ∧ (Route.ofText text).Beside front part := by
  obtain ⟨before, last, htext, hboth⟩ := Text.exists_splitAtChar_append text hending
  obtain ⟨front, hsteps, hfront⟩ := h.steps
  have hlonger : last ++ ending ≠ "" := fun hnil => hne (String.append_eq_empty_iff.1 hnil).2
  have hone : [last ++ ending].filter (· != "") = [last ++ ending] :=
    List.filter_eq_self.2 (by simpa using hlonger)
  rw [Route.ofText, Route.steps, hboth, List.filter_append, hone] at hsteps
  obtain ⟨rfl, hpart⟩ := List.append_inj' hsteps rfl
  refine ⟨_, hfront, ?_⟩
  rw [Route.Beside, Route.ofText, Route.steps, htext, List.filter_append]
  -- behind a slash the last part is empty, and the route ends in the directory itself
  by_cases hlast : last = ""
  · exact .inl (by simp [hlast])
  · refine .inr ⟨last, ?_, by simp [hlast]⟩
    rw [← (List.cons.inj hpart).1]
    intro heq
    have hlist := congrArg String.toList heq
    rw [String.toList_append, List.self_eq_append_right] at hlist
    exact hne (String.toList_eq_nil_iff.1 hlist)

/-- Such a route leads to the same on a disk that differs in the file of that name. -/
theorem Route.Beside.locate_eq {front : List String} (hbeside : r.Beside front part)
    (htree : d.SameTree d') (hfront : front.foldlM d.step [] = .ok q) (hq : d.hasDirectory q = true)
    (hfiles : ∀ p, p ≠ q ++ [part] → d'.files.get? p = d.files.get? p) :
    d'.locate r = d.locate r := by
  have hfront' : front.foldlM d'.step [] = .ok q := htree.grows.foldlM_step hfront hq
  have hwalk : r.steps.foldlM d'.step [] = r.steps.foldlM d.step [] := by
    rcases hbeside with hsteps | ⟨last, hlast, hsteps⟩
    · rw [hsteps, hfront, hfront']
    · have hfile : d'.hasFile (q ++ [last]) = d.hasFile (q ++ [last]) := by
        rw [hasFile, Dict.contains, hfiles _ (by simpa using hlast), hasFile, Dict.contains]
      have hstep : d'.step q last = d.step q last := by
        rw [step, step, htree.hasDirectory, htree.hasDirectory, hfile]
      rw [hsteps, List.foldlM_append, List.foldlM_append, hfront, hfront']
      dsimp only [bind, Except.bind]
      rw [List.foldlM_cons, List.foldlM_cons, hstep]
      rfl
  rw [locate, locate, htree.grows.checkRoute, hwalk]
  simp only [htree.hasDirectory]

/-- It does not lead to that file either. -/
theorem Route.Beside.ne_of_locate {front : List String} (hbeside : r.Beside front part)
    (hfront : front.foldlM d.step [] = .ok q) (hname : part ≠ "..")
    (hlocate : d.locate r = .ok p) : p ≠ q ++ [part] := by
  obtain ⟨⟨⟩, -, hlocate⟩ := bind_eq_ok.1 hlocate
  obtain ⟨p', hwalk, hlocate⟩ := bind_eq_ok.1 hlocate
  have hp : p = p' := by
    split at hlocate
    · cases hlocate
    · exact (Except.ok.inj hlocate).symm
  subst hp
  rcases hbeside with hsteps | ⟨last, hlast, hsteps⟩
  · rw [hsteps, hfront] at hwalk
    obtain rfl := Except.ok.inj hwalk
    simp
  · rw [hsteps, List.foldlM_append] at hwalk
    obtain ⟨q', hq', hwalk⟩ := bind_eq_ok.1 hwalk
    obtain rfl := Except.ok.inj (hfront.symm.trans hq')
    rw [List.foldlM_cons] at hwalk
    obtain ⟨p', hstep, hend⟩ := bind_eq_ok.1 hwalk
    obtain rfl := Except.ok.inj hend
    -- the last step stays in the directory, leaves it, or goes to another name in it
    obtain ⟨-, ⟨-, rfl⟩ | ⟨-, rfl⟩ | ⟨-, -, rfl⟩⟩ := step_eq_ok hstep
    · simp
    · unfold Path.up
      split
      · simpa using Ne.symm hname
      · intro heq
        have hlength := congrArg List.length heq
        rw [List.length_dropLast, List.length_append, List.length_singleton] at hlength
        omega
    · simpa using hlast

/-- **A file does not depend on one beside it.** -/
theorem EndsAt.read_beside (h : d.EndsAt (.ofText (text ++ ending)) q part) (hne : ending ≠ "")
    (hending : '/' ∉ ending.toList) (htree : d.SameTree d')
    (hfiles : ∀ p, p ≠ q ++ [part] → d'.files.get? p = d.files.get? p) :
    d'.read (.ofText text) = d.read (.ofText text) := by
  obtain ⟨front, hfront, hbeside⟩ := h.exists_beside hne hending
  have hsame : d'.locate (.ofText text) = d.locate (.ofText text) :=
    hbeside.locate_eq htree hfront h.directory hfiles
  cases hlocate : d.locate (.ofText text) with
  | error e =>
    rw [read, read, hsame, hlocate]
    rfl
  | ok p =>
    rw [read_of_locate (hsame.trans hlocate), read_of_locate hlocate,
      hfiles p (hbeside.ne_of_locate hfront h.name.2 hlocate)]

theorem get?_setContent_of_ne (d : Disk) {p q : Path} (content : Bytes) (hp : p ≠ q) :
    (d.setContent q content).files.get? p = d.files.get? p := by
  unfold setContent
  split <;> rw [Dict.get?_insert, if_neg (Ne.symm hp)]

theorem write_eq_ok (h : d.write r content = .ok d') :
    ∃ q part, d.Writable r q part ∧ d' = d.setContent (q ++ [part]) content := by
  obtain ⟨p, hwritable, h⟩ := bind_eq_ok.1 h
  obtain ⟨q, part, hw, rfl⟩ := writable_iff.1 hwritable
  exact ⟨q, part, hw, (Except.ok.inj h).symm⟩

/-- What was moved to a route is where that leads. -/
theorem finds_of_rename {target : Route} (h : d.rename r target = .ok d') :
    d.SameTree d' ∧ ∃ file, d'.Finds target file := by
  obtain ⟨source, hsource, h⟩ := bind_eq_ok.1 h
  obtain ⟨goal, hgoal, h⟩ := bind_eq_ok.1 h
  split at h
  · next p slash p' slash' =>
    split at h
    · cases h
    · next file hfile =>
      obtain ⟨⟨⟩, hname, h⟩ := bind_eq_ok.1 h
      split at h
      · cases h
      · next hslash =>
        split at h
        · cases h
        · next hfree =>
          cases h
          obtain ⟨q, part, hends, rfl, rfl⟩ := approach_eq_name hgoal
          have hsize : part.utf8ByteSize ≤ maxName := by
            rw [checkName_eq_ok, List.getLastD_concat] at hname
            exact hname
          have hw : d.Writable target q part :=
            ⟨hends, by simpa using (Bool.or_eq_false_iff.1 (Bool.eq_false_iff.2 hslash)).2, hsize,
              Bool.eq_false_iff.2 hfree⟩
          refine ⟨⟨rfl, rfl⟩, file, q, part, hw.sameTree ⟨rfl, rfl⟩, ?_⟩
          rw [Dict.get?_insert, if_pos rfl]
  · split at h <;> cases h
  · cases h

end

end Disk

namespace Storage

namespace FlatFile

section

variable {f f' : FlatFile} {d d' : Disk} {vars : List (String × Saved)} {e : Error}

/-! ## How a replacement fails -/

/-- A file that was moved to the route can be opened. -/
theorem exists_connect (hf : f.handle = none) {file : Disk.File} (hfound : d.Finds f.route file) :
    ∃ d', f.connect.out d = (({ f with handle := some file.number }, .ok ()), d') := by
  obtain ⟨q, part, hw, hget⟩ := hfound
  have hmade := hw.toEndsAt.createDirectories_parent hw.unslashed
  rw [out_connect hf, out_openFile hmade (hw.openFile_eq hget)]
  exact ⟨_, rfl⟩

/-- A replacement fails in one of two places: nothing was written, or a file beside the other one
that could not be moved. -/
theorem replace_eq_error (h : (f.replace vars).out d = ((f', .error e), d')) :
    f' = f.disconnect ∧ (d' = d ∨ ∃ q part, d.Writable (.ofText (f.file ++ ".temp")) q part ∧
      d' = d.setContent (q ++ [part]) (Text.toBytes (contentOf vars)) ∧
      ∀ d₂, d'.rename (.ofText (f.file ++ ".temp")) f.route ≠ .ok d₂) := by
  rw [out_replace] at h
  generalize Text.toBytes (contentOf vars) = content at h ⊢
  cases hwrite : d.write (.ofText (f.file ++ ".temp")) content with
  | error e =>
    rw [hwrite] at h
    cases h
    exact ⟨rfl, .inl rfl⟩
  | ok d₁ =>
    rw [hwrite] at h
    dsimp only at h
    obtain ⟨q, part, hw, rfl⟩ := Disk.write_eq_ok hwrite
    cases hrename : (d.setContent (q ++ [part]) content).rename (.ofText (f.file ++ ".temp"))
        f.route with
    | error e =>
      rw [hrename] at h
      cases h
      refine ⟨rfl, .inr ⟨q, part, hw, rfl, fun d₂ hok => ?_⟩⟩
      rw [hrename] at hok
      cases hok
    | ok d₂ =>
      -- what was moved can be opened, so nothing fails from here on
      rw [hrename] at h
      dsimp only at h
      obtain ⟨-, file, hfound⟩ := Disk.finds_of_rename hrename
      obtain ⟨d₃, hconnect⟩ :=
        exists_connect (f := { f.disconnect with changes := 0 }) rfl hfound
      rw [hconnect, ite_eq_iff] at h
      rcases h with ⟨-, h⟩ | ⟨-, h⟩ <;> cases h

/-- If the file is where it was opened, a replacement that fails has done nothing. -/
theorem eq_of_replace_eq_error (h : (f.replace vars).out d = ((f', .error e), d')) {file : Disk.File}
    (hfound : d.Finds f.route file) : d' = d := by
  obtain ⟨-, heq | ⟨q, part, hw, rfl, hstuck⟩⟩ := replace_eq_error h
  · exact heq
  · -- the new file could have been moved to where the old one is
    obtain ⟨q', part', htarget, -⟩ := hfound
    have htree := Disk.sameTree_setContent d (q ++ [part]) (Text.toBytes (contentOf vars))
    obtain ⟨number, hget⟩ := Disk.get?_setContent d (q ++ [part]) (Text.toBytes (contentOf vars))
    obtain ⟨d₂, hrename, -⟩ := (hw.sameTree htree).exists_rename (htarget.sameTree htree) hget
    exact absurd hrename (hstuck d₂)

/-! ## Storages that are closed -/

/-- A storage that is closed stays so, whether its file can be replaced or not. -/
theorem out_replace_closed (hf : f.handle = none) (vars : List (String × Saved)) (d : Disk) :
    ∃ n answer d', (f.replace vars).out d = (({ f with changes := n }, answer), d') ∧
      d.SameTree d' := by
  have hsame : f.disconnect = f := by rw [disconnect, ← hf]
  have hclosed : f.connected = false := Option.isSome_eq_false_iff.2 (Option.isNone_iff_eq_none.2 hf)
  rw [out_replace, hsame, hclosed]
  generalize Text.toBytes (contentOf vars) = content
  cases hwrite : d.write (.ofText (f.file ++ ".temp")) content with
  | error e => exact ⟨f.changes, _, d, rfl, .refl d⟩
  | ok d₁ =>
    obtain ⟨q, part, -, rfl⟩ := Disk.write_eq_ok hwrite
    have htree := Disk.sameTree_setContent d (q ++ [part]) content
    dsimp only
    cases hrename : (d.setContent (q ++ [part]) content).rename (.ofText (f.file ++ ".temp"))
        f.route with
    | error e => exact ⟨f.changes, _, _, rfl, htree⟩
    | ok d₂ => exact ⟨0, _, d₂, rfl, htree.trans (Disk.finds_of_rename hrename).1⟩

end

end FlatFile

/-- How an update is answered by a text file that is closed. Deletions need not be written before it is
loaded; all other changes are refused. -/
def Update.Declined (loaded : Bool) (reason : Error) : Update → Except Error Unit → Prop
  | .save _ saved, answer => answer = if saved.isNone && !loaded then .ok () else .error reason
  | .replace _, _ => True

namespace FlatFile

section

variable {f f' : FlatFile} {d d' : Disk} {vars : List (String × Saved)} {e : Error}

/-- **No update opens a storage that is closed.** Changes are declined and leave no trace. -/
theorem out_runAll_closed (hf : f.handle = none) (updates : List Update) (d : Disk) :
    ∃ n answers d', (Update.runAll updates (.flatFile f)).out d
        = ((.flatFile { f with changes := n }, answers), d') ∧
      List.Forall₂ (Update.Declined f.loaded (.closed (d.shown f.file))) updates answers ∧
      ((∀ vars, .replace vars ∉ updates) → n = f.changes ∧ d' = d) := by
  induction updates generalizing f d with
  | nil => exact ⟨f.changes, [], d, rfl, .nil, fun _ => ⟨rfl, rfl⟩⟩
  | cons u rest ih =>
    cases u with
    | save name saved =>
      have hsave := out_save_closed (d := d) hf (name, saved)
      obtain ⟨n, answers, d', hruns, hdeclined, hidle⟩ := ih hf d
      refine ⟨n, _ :: answers, d', ?_, .cons rfl hdeclined, fun hnone => hidle fun vars hmem => ?_⟩
      · rw [Update.runAll, Work.out_bind, Update.run, Backend.out_save_flatFile, hsave]
        dsimp only
        rw [Work.out_bind, hruns]
        rfl
      · exact hnone vars (.tail _ hmem)
    | replace vars =>
      obtain ⟨n, answer, d₁, hreplace, htree⟩ := out_replace_closed hf vars d
      obtain ⟨m, answers, d', hruns, hdeclined, -⟩ := ih (f := { f with changes := n }) hf d₁
      have hshown : d₁.shown f.file = d.shown f.file := by
        rw [Disk.shown, Disk.shown, htree.base]
      refine ⟨m, answer :: answers, d', ?_, .cons trivial (hshown ▸ hdeclined), fun hnone => ?_⟩
      · rw [Update.runAll, Work.out_bind, Update.run, Backend.out_replace_flatFile, hreplace]
        dsimp only
        rw [Work.out_bind, hruns]
        rfl
      · exact absurd (.head _) (hnone vars)

/-- **A replacement that fails does no harm to the file, but leaves the storage closed.** The file, all
others but the one beside it, and the number of changes are as before. But the storage appended every
change, and now declines them all, until it is connected; then it is what it was. -/
theorem out_replace_error {handle : Disk.Handle} (hopen : f.handle = some handle)
    (hfailed : (f.replace vars).out d = ((f', .error e), d')) :
    f' = f.disconnect ∧
    d'.read f.route = d.read f.route ∧
    (∀ p, d.writable (.ofText (f.file ++ ".temp")) ≠ .ok p → d'.files.get? p = d.files.get? p) ∧
    (∀ change d₁, (f.save change).out d₁ = if change.2.isNone && !f.loaded then ((f, .ok ()), d₁)
      else (({ f with changes := f.changes + 1 }, .ok ()),
        d₁.append handle (Text.toBytes (lineOf change)))) ∧
    (∀ updates d₁, ∃ n answers d₂, (Update.runAll updates (.flatFile f')).out d₁
        = ((.flatFile { f' with changes := n }, answers), d₂) ∧
      List.Forall₂ (Update.Declined f.loaded (.closed (d₁.shown f.file))) updates answers ∧
      ((∀ vars, .replace vars ∉ updates) → n = f.changes ∧ d₂ = d₁)) ∧
    (∀ file, d.Finds f.route file → file.number = handle → file.content ≠ [] →
      d' = d ∧ f'.connect.out d' = ((f, .ok ()), d')) := by
  obtain ⟨rfl, hdisk⟩ := replace_eq_error hfailed
  refine ⟨rfl, ?_, ?_, fun change d₁ => out_save_open hopen change, out_runAll_closed rfl, ?_⟩
  · rcases hdisk with rfl | ⟨q, part, hw, rfl, -⟩
    · rfl
    · exact hw.toEndsAt.read_beside (by decide) (by decide) (Disk.sameTree_setContent d _ _)
        fun p hp => Disk.get?_setContent_of_ne d _ hp
  · intro p hp
    rcases hdisk with rfl | ⟨q, part, hw, rfl, -⟩
    · rfl
    · refine Disk.get?_setContent_of_ne d _ fun heq => hp ?_
      rw [heq]
      exact hw.writable_eq
  · rintro file hfound rfl hne
    obtain rfl := eq_of_replace_eq_error hfailed hfound
    refine ⟨rfl, ?_⟩
    rw [out_connect rfl, out_openFile_of_found (f := f.disconnect) hfound hne]
    dsimp only [disconnect]
    rw [← hopen]

end

/-! ## A directory in the way -/

/-- A disk with one file. The name of the one that is written to replace it is that of a directory. -/
def obstructed (content : Bytes) : Disk where
  directories := [["counts.csv.temp"]]
  files := ⟨[(["counts.csv"], ⟨0, content⟩)]⟩
  nextFile := 1

theorem grows_obstructed (content : Bytes) : ({} : Disk).Grows (obstructed content) :=
  ⟨rfl, fun hq => Bool.or_eq_true_iff.2 (.inl (by simpa [Disk.hasDirectory] using hq))⟩

theorem finds_obstructed (content : Bytes) :
    (obstructed content).Finds (.ofText "counts.csv") ⟨0, content⟩ := by
  have hw : ({} : Disk).Writable (.ofText "counts.csv") [] "counts.csv" :=
    Backend.writable_counts (by decide)
  exact ⟨[], "counts.csv", hw.grows (grows_obstructed content) rfl, rfl⟩

/-- The file of a storage on that disk cannot be replaced. -/
theorem replace_obstructed {f : FlatFile} (hf : f.file = "counts.csv") (vars : List (String × Saved))
    (content : Bytes) : (f.replace vars).out (obstructed content)
      = ((f.disconnect, .error (.file .isADirectory)), obstructed content) := by
  have hbeside : ({} : Disk).Writable (.ofText "counts.csv.temp") [] "counts.csv.temp" :=
    Backend.writable_counts (by decide)
  have hends := hbeside.toEndsAt.grows (grows_obstructed content)
  have hname : Disk.checkName ([] ++ ["counts.csv.temp"]) = .ok () := by decide
  have hwrite : ∀ bytes, (obstructed content).write (.ofText "counts.csv.temp") bytes
      = .error .isADirectory := by
    intro bytes
    rw [Disk.write, Disk.writable, hends.approach_eq, hbeside.unslashed]
    dsimp only [bind, Except.bind]
    rw [hname]
    rfl
  rw [out_replace, hf]
  generalize Text.toBytes (contentOf vars) = bytes
  rw [show "counts.csv" ++ ".temp" = "counts.csv.temp" from by decide, hwrite bytes]

/-- A storage is loaded and takes changes. A replacement fails, and then it takes none. -/
theorem save_declined_after_replace :
    let d := obstructed (Text.toBytes header)
    let f : FlatFile := { file := "counts.csv", handle := some 0, loaded := true }
    let change : Change := ("count", some (Backend.countRecord 1))
    (load { file := "counts.csv" } Backend.counters).out d = (⟨f, [], none⟩, d) ∧
    (f.replace []).out d = ((f.disconnect, .error (.file .isADirectory)), d) ∧
    ((f.save change).out d).1.2 = .ok () ∧
    (f.disconnect.save change).out d = ((f.disconnect, .error (.closed "./counts.csv")), d) := by
  intro d f change
  obtain ⟨hkept, hevents⟩ := kept_header Backend.counters
  refine ⟨?_, replace_obstructed rfl [] _, ?_, ?_⟩
  · have hfound : d.Finds (route { file := "counts.csv" }) ⟨0, Text.toBytes header⟩ :=
      finds_obstructed (Text.toBytes header)
    rw [out_load_kept rfl hfound hkept toBytes_header_ne_nil, hevents]
  · rw [out_save rfl rfl]
  · rw [out_save_closed rfl]
    rfl

/-- A replacement is tried between two changes. -/
theorem out_replace_error_obstructed :
    let d := obstructed (Text.toBytes header)
    let f : FlatFile := { file := "counts.csv", handle := some 0, changes := 2 }
    (∃ e, (f.replace []).out d = ((f.disconnect, .error e), d)) ∧
    (∀ saved, ∃ n answers d₂, (Update.runAll
          [.save "a" saved, .replace [], .save "b" (some (Backend.countRecord 1))]
          (.flatFile f.disconnect)).out d
        = ((.flatFile { f.disconnect with changes := n }, answers), d₂) ∧
      List.Forall₂ (Update.Declined false (.closed "./counts.csv"))
        [.save "a" saved, .replace [], .save "b" (some (Backend.countRecord 1))] answers) ∧
    f.disconnect.connect.out d = ((f, .ok ()), d) := by
  intro d f
  have hfailed : (f.replace []).out d = ((f.disconnect, .error (.file .isADirectory)), d) :=
    replace_obstructed rfl [] _
  obtain ⟨-, -, -, -, hclosed, hconnect⟩ := @out_replace_error f f.disconnect d d [] _ 0 rfl hfailed
  refine ⟨⟨_, hfailed⟩, fun saved => ?_, ?_⟩
  · obtain ⟨n, answers, d₂, hruns, hdeclined, -⟩ :=
      hclosed [.save "a" saved, .replace [], .save "b" (some (Backend.countRecord 1))] d
    exact ⟨n, answers, d₂, hruns, hdeclined⟩
  · exact (hconnect ⟨0, Text.toBytes header⟩ (finds_obstructed _) rfl toBytes_header_ne_nil).2

end FlatFile

end Storage

end ScriptStore
