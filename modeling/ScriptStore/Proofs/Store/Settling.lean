import ScriptStore.Proofs.Store.Building

/-!
# Where variables settle

Building a store brings every variable to its home: the first outlet that accepts its name, or, if
none does, the last outlet that held it. Over plain maps it is held there in the end and nowhere
else, with the value from the last outlet that held it (`held?_of_build`). So it is found again when
the store is closed and built once more.

A text file is not a plain map. It goes on telling what it once held, with a deletion behind that,
and a store that is built again listens to the last outlet that tells of any value. A variable that
was moved to a home in front of such a file is lost (`Stranded`), and `get?_rebuilt_iff` says that
nothing else is.
-/

namespace ScriptStore

open Storage
open History (told latest settled)
open ScriptStore.Types (Registry)
open ScriptStore.Types.Builtin (wordless ofBuiltin_wordless)

namespace Store

section

variable {r : Registry} {d : Disk} {outlets : List Outlet} {s : Store} {name : String} {v : Value}
  {source : Nat}

/-! ## Plain maps -/

theorem keyedAt_of_forall (hkeyed : ∀ o ∈ outlets, o.backend.medium.keyed = true) (i : Nat) :
    keyedAt outlets i = true := by
  unfold keyedAt
  cases ho : outlets[i]? with
  | none => rfl
  | some o => exact hkeyed o (List.mem_of_getElem? ho)

/-- The last plain map that holds a variable decides about it. -/
theorem Standing.latest_of_held? {n : Nat} (h : Standing r d n outlets)
    (hkeyed : ∀ o ∈ outlets, o.backend.medium.keyed = true) {o : Outlet}
    (hsource : outlets[source]? = some o) (hheld : o.backend.held? r d name = some (some v))
    (hlast : ∀ j p, source < j → outlets[j]? = some p → p.backend.held? r d name = none) :
    latest (histories r d outlets name) outlets.length = some (v, source) := by
  have htold : ∀ {i : Nat} {p : Outlet} (w : Option Value), outlets[i]? = some p →
      p.backend.held? r d name = w.map some →
      histories r d outlets name i = w.toList.map some := by
    intro i p w hp hw
    rw [histories_eq hp]
    exact (Backend.told_eq_iff_held? (h.loadable_or_works hp)
      (hkeyed p (List.mem_of_getElem? hp)) name w).2 hw
  refine History.latest_eq_some_iff.2
    ⟨(List.getElem?_eq_some_iff.1 hsource).1, ?_, fun j hj hjn => ?_⟩
  · rw [htold (some v) hsource hheld]
    rfl
  · have hp : outlets[j]? = some outlets[j] := List.getElem?_eq_getElem hjn
    rw [htold none hp (hlast j _ hj hp)]
    rfl

/-- In a store that was built over plain maps a variable is held at its home only. -/
theorem Built.held?_eq {H : String → Nat → History} (h : Built r H outlets d s)
    (hkeyed : ∀ o ∈ outlets, o.backend.medium.keyed = true)
    (hlatest : latest (H name) outlets.length = some (v, source)) (hsaves : saves r v = true)
    {i : Nat} {p : Outlet} (hp : s.outlets[i]? = some p) :
    p.backend.held? r d name
      = if i = (home? outlets name).getD source then some (some v) else none := by
  obtain ⟨o, ho, hmedium⟩ := getElem?_of_profiles h.profiles hp
  have hi : i < outlets.length := (List.getElem?_eq_some_iff.1 ho).1
  have hfinal : (Store.histories r d s.outlets name i).final
      = if i = (home? outlets name).getD source then some v else none := by
    rw [h.histories]
    exact History.final_settled hlatest hsaves (home? outlets name) hi
  -- a plain map is left with a value if and only if it tells of it
  have hfits : History.Fits true (Store.histories r d s.outlets name i) := by
    have hfits := h.standing.fits name i
    rwa [keyedAt_congr h.profiles, keyedAt_of_forall hkeyed] at hfits
  have htold := hfits.eq_of_final hfinal
  rw [histories_eq hp] at htold
  have hheld := (Backend.told_eq_iff_held? (h.standing.loadable_or_works hp)
    (hmedium ▸ hkeyed o (List.mem_of_getElem? ho)) name _).1 htold
  rw [hheld]
  split <;> rfl

/-- A store that was built has the values that its outlets agreed on. -/
theorem Built.get?_eq {H : String → Nat → History} (h : Built r H outlets d s)
    (hname : Variables.isList name = false) :
    s.vars.get? name = (latest (H name) outlets.length).map fun e => .value e.1 := by
  rw [VariableMap.get?, hname, if_neg Bool.false_ne_true, h.values.flat, hname,
    if_neg Bool.false_ne_true, Option.map_map]
  rfl

/-- The record of a small integer. -/
def integerRecord (b : UInt8) : Types.Saved := ⟨"integer", [0, 0, 0, 0, 0, 0, 0, b]⟩

/-- An outlet for names of one letter. -/
def letterOutlet (letter : Char) (backend : Backend) : Outlet where
  name := letter.toString
  pattern := some ⟨letter.toString, .follow (.follow (.place .textStart) (.one (.single letter)))
    (.place .textEnd)⟩
  backend

/-- Storages in memory, of which the first and the last hold a variable that belongs to the one
between them. -/
def scattered : List Outlet :=
  [letterOutlet 'b' (.memory (.ofEntries [("a", integerRecord 1)])),
    letterOutlet 'a' (.memory (.ofEntries [])),
    letterOutlet 'c' (.memory (.ofEntries [("a", integerRecord 2)]))]

/-- A variable is stranded if it is moved away from a text file, or past one, to a home in front of
it: the file at place `j` has told of a value, and stands behind the home but not behind the outlet
that decides about the variable. -/
def Stranded (r : Registry) (d : Disk) (outlets : List Outlet) (name : String) : Prop :=
  ∃ v source target, latest (histories r d outlets name) outlets.length = some (v, source) ∧
    home? outlets name = some target ∧ ∃ j, target < j ∧ j ≤ source ∧
      keyedAt outlets j = false ∧ (histories r d outlets name j).gives = true

/-- Every variable that was loaded can be moved. -/
theorem Standing.stranded_iff {n : Nat} (h : Standing r d n outlets) (hr : r.OfBuiltin) :
    Stranded r d outlets name ↔ History.Stranded (keyedAt outlets) (histories r d outlets name)
      outlets.length (home? outlets name) (saves r) := by
  constructor
  · rintro ⟨v, source, target, hlatest, hhome, j, hj, hjs, hlog⟩
    exact ⟨v, source, target, hlatest, hhome, h.saves_of_latest hr hlatest,
      Nat.lt_of_lt_of_le hj hjs, j, hj, hjs, hlog⟩
  · rintro ⟨v, source, target, hlatest, hhome, -, -, hlog⟩
    exact ⟨v, source, target, hlatest, hhome, hlog⟩

section

variable {H : String → Nat → History} {t : Store} {d' : Disk}
  {arrange : List (String × Value × Nat) → List (String × Value × Nat)}

/-- A store that was built and closed can be built once more. -/
theorem Built.exists_rebuild (h : Built r H outlets d s) (hr : r.Faithful)
    (hnames : Suited outlets H) (hne : outlets ≠ [])
    (harrange : ∀ entries, (arrange entries).Perm entries) :
    ∃ t d', (buildIn arrange r ((s.outlets.map Outlet.shut).map Outlet.afresh) 0).out d
        = ((t, .ok ()), d') ∧
      Built r (fun name => settled (keyedAt outlets) (H name) outlets.length (home? outlets name)
        (saves r)) (s.outlets.map Outlet.afresh) d' t := by
  obtain ⟨hstanding, hprofiles, hhistories, hsuited, hfound⟩ := h.reopened hnames
  have hne' : s.outlets.map Outlet.afresh ≠ [] := by
    intro hnil
    rw [hnil] at hprofiles
    exact hne (List.map_eq_nil_iff.1 hprofiles.symm)
  obtain ⟨t, d', hbuild, hbuilt⟩ := exists_build hstanding hr hsuited harrange hne' hfound
  refine ⟨t, d', by rw [map_afresh_shut]; exact hbuild, ?_⟩
  rwa [funext hhistories] at hbuilt

variable (h : Built r H outlets d s)
  (hagain : Built r (fun name => settled (keyedAt outlets) (H name) outlets.length
    (home? outlets name) (saves r)) (s.outlets.map Outlet.afresh) d' t)
  (hfits : ∀ name j, History.Fits (keyedAt outlets j) (H name j))

include h

theorem Built.length_afresh : (s.outlets.map Outlet.afresh).length = outlets.length := by
  simpa using congrArg List.length h.profiles

include hagain hfits

/-- A stranded variable was there, and is gone. -/
theorem Built.get?_of_stranded (hname : Variables.isList name = false)
    (hstranded : History.Stranded (keyedAt outlets) (H name) outlets.length (home? outlets name)
      (saves r)) : s.vars.get? name ≠ none ∧ t.vars.get? name = none := by
  have hnone := History.latest_settled_of_stranded (hfits name) hstranded
  obtain ⟨v, source, target, hlatest, -⟩ := hstranded
  rw [h.get?_eq hname, hagain.get?_eq hname, h.length_afresh, hlatest, hnone]
  exact ⟨nofun, rfl⟩

/-- Without a stranded variable everything is as it was. -/
theorem Built.get?_of_not_stranded (hnone : ∀ name, Variables.isList name = false →
      ¬ History.Stranded (keyedAt outlets) (H name) outlets.length (home? outlets name) (saves r)) :
    t.vars.get? name = s.vars.get? name := by
  refine h.values.get?_eq ?_ h.full hagain.full name
  -- both maps read as one function
  convert hagain.values using 2 with name
  cases hname : Variables.isList name with
  | true => rfl
  | false =>
    have hhome : ∀ target ∈ home? outlets name, target < outlets.length := by
      intro target htarget
      exact (List.findIdx?_eq_some_iff_getElem.1 htarget).1
    rw [if_neg Bool.false_ne_true, if_neg Bool.false_ne_true, h.length_afresh]
    exact (History.latest_settled (hfits name) hhome (hnone name hname)).symm

end

/-- **Only stranded variables are lost.** When a store was built and closed, it can be built again
over the same outlets, in whatever order what was loaded is placed. It has the variables that it had
before, with the same values, if and only if none was stranded; those that were are gone. -/
theorem get?_rebuilt_iff (hr : r.OfBuiltin) (h : Standing r d 0 outlets)
    (hnames : Suited outlets fun name => histories r d outlets name)
    {arrange arrange' : List (String × Value × Nat) → List (String × Value × Nat)}
    (harrange : ∀ entries, (arrange entries).Perm entries)
    (harrange' : ∀ entries, (arrange' entries).Perm entries) {s' : Store} {d₁ d₂ : Disk}
    (hbuild : (buildIn arrange r outlets 0).out d = ((s, .ok ()), d₁))
    (hclose : s.close.out d₁ = (s', d₂)) :
    ∃ t d₃, (buildIn arrange' r (s'.outlets.map Outlet.afresh) 0).out d₂ = ((t, .ok ()), d₃) ∧
      ((∀ name, t.vars.get? name = s.vars.get? name) ↔
        ∀ name, Variables.isList name = false → ¬ Stranded r d outlets name) ∧
      ∀ name, Variables.isList name = false → Stranded r d outlets name →
        s.vars.get? name ≠ none ∧ t.vars.get? name = none := by
  obtain ⟨hne, hbuilt⟩ := built_of_build h hr.faithful hnames harrange hbuild
  rw [hbuilt.out_close] at hclose
  cases hclose
  obtain ⟨t, d₃, hbuild', hagain⟩ := hbuilt.exists_rebuild hr.faithful hnames hne harrange'
  have hlost : ∀ name, Variables.isList name = false → Stranded r d outlets name →
      s.vars.get? name ≠ none ∧ t.vars.get? name = none := fun name hname hstranded =>
    hbuilt.get?_of_stranded hagain h.fits hname ((h.stranded_iff hr).1 hstranded)
  refine ⟨t, d₃, hbuild', ⟨fun hsame name hname hstranded => ?_, fun hnone name => ?_⟩, hlost⟩
  · obtain ⟨hsome, hgone⟩ := hlost name hname hstranded
    exact hsome ((hsame name).symm.trans hgone)
  · exact hbuilt.get?_of_not_stranded hagain h.fits fun name hname =>
      mt (h.stranded_iff hr).2 (hnone name hname)

/-- An empty text file, and one with a variable that belongs to the other one. -/
def twoFiles : Disk where
  files := ⟨[(["one.csv"], ⟨0, []⟩),
    (["two.csv"], ⟨1, Text.toBytes (FlatFile.lineOf ("a", some (integerRecord 1)))⟩)]⟩
  nextFile := 2

def emptyFile : Outlet := letterOutlet 'a' (.flatFile { file := "one.csv" })

def fullFile : Outlet := letterOutlet 'b' (.flatFile { file := "two.csv" })

theorem kept_fullFile :
    FlatFile.Kept wordless (twoFiles.contentAt ["two.csv"]) ∧
      FlatFile.eventsIn wordless (twoFiles.contentAt ["two.csv"]) = [("a", some (.integer 1))] := by
  have hr := ofBuiltin_wordless.faithful
  have hsaved : wordless.Writes (some (.integer 1)) (some (integerRecord 1)) := rfl
  have hname : FlatFile.Takes "a" := by decide
  have hkept := FlatFile.kept_lineOf (hr.recovers hsaved) hname
  have hfile : twoFiles.files.get? ["two.csv"]
      = some ⟨1, Text.toBytes (FlatFile.lineOf ("a", some (integerRecord 1)))⟩ := rfl
  rw [Disk.contentAt_of_file hfile]
  exact hkept

theorem sound_twoFiles : twoFiles.Sound := .of_files rfl rfl (by decide) (by decide) (by decide)

theorem locate_twoFiles {text : String} (h : text ∈ ["one.csv", "two.csv"]) :
    (Disk.Route.ofText text).Plain ∧ (Disk.Route.ofText text).parts = [text] ∧
      twoFiles.locate (Disk.Route.ofText text) = .ok (Disk.Route.ofText text).parts ∧
      twoFiles.hasFile (Disk.Route.ofText text).parts = true := by
  have hroute : ∀ text ∈ ["one.csv", "two.csv"], (Disk.Route.ofText text).Plain ∧
      (Disk.Route.ofText text).parts = [text] ∧ twoFiles.hasFile [text] = true ∧
      text.utf8ByteSize ≤ Disk.maxName ∧
      ¬ Disk.routeLimit ≤ (twoFiles.shown (Disk.Route.ofText text).text).utf8ByteSize := by decide
  have hnul : ∀ text ∈ ["one.csv", "two.csv"], text.contains '\x00' = false := by simp
  obtain ⟨hplain, hparts, hfile, hsize, hlimit⟩ := hroute text h
  have hcheck : twoFiles.checkRoute (Disk.Route.ofText text) = .ok () := by
    rw [Disk.checkRoute, hparts, List.any_cons, hnul text h, if_neg (by decide), if_neg hlimit]
  rw [hparts]
  refine ⟨hplain, rfl, (Disk.locate_eq_ok hplain).2 ⟨hparts.symm, hcheck, ?_⟩, hfile⟩
  rw [hparts]
  exact sound_twoFiles.reaches (.inr hfile) (List.forall_mem_singleton.2 hsize)

/-- Both files can be loaded, in either order, and tell of one variable only. -/
theorem standing_twoFiles (h : outlets.Perm [emptyFile, fullFile]) :
    Standing wordless twoFiles 0 outlets ∧
      (Suited outlets fun name => histories wordless twoFiles outlets name) ∧
      ∀ o ∈ outlets, o.backend.Found twoFiles := by
  have hboth : ∀ o ∈ outlets, o.delivery = .queued [] false ∧ o.backend.Loadable wordless twoFiles ∧
      o.backend.Found twoFiles ∧ o.backend.medium.Takes "a" ∧
      ∀ e ∈ o.backend.events wordless twoFiles, e.1 = "a" := by
    intro o ho
    rcases List.mem_pair.1 (h.subset ho) with rfl | rfl
    · obtain ⟨hplain, hparts, hfound⟩ := locate_twoFiles (show "one.csv" ∈ _ by simp)
      have hcontent : twoFiles.contentAt (Disk.Route.ofText "one.csv").parts = [] := by
        rw [hparts]
        rfl
      refine ⟨rfl, ⟨hplain, rfl, hcontent ▸ FlatFile.kept_nil _⟩, hfound, by decide, ?_⟩
      show ∀ e ∈ FlatFile.eventsIn _ (twoFiles.contentAt (Disk.Route.ofText "one.csv").parts), _
      rw [hcontent]
      exact List.forall_mem_nil _
    · obtain ⟨hplain, hparts, hfound⟩ := locate_twoFiles (show "two.csv" ∈ _ by simp)
      refine ⟨rfl, ⟨hplain, rfl, hparts ▸ kept_fullFile.1⟩, hfound, by decide, ?_⟩
      show ∀ e ∈ FlatFile.eventsIn _ (twoFiles.contentAt (Disk.Route.ofText "two.csv").parts), _
      rw [hparts, kept_fullFile.2]
      exact List.forall_mem_singleton.2 rfl
  have hapart : outlets.Pairwise fun o p => o.backend.medium.Apart p.backend.medium :=
    (h.pairwise_iff Medium.Apart.symm).2 (by decide)
  refine ⟨.of_loadable sound_twoFiles (fun o ho => ⟨(hboth o ho).1, (hboth o ho).2.1⟩) hapart,
    Suited.of_events fun o ho e he p hp => ?_, fun o ho => (hboth o ho).2.2.1⟩
  rw [(hboth o ho).2.2.2.2 e he]
  exact (hboth p hp).2.2.2.1

theorem told_fullFile {i : Nat} (hi : outlets[i]? = some fullFile) :
    histories wordless twoFiles outlets "a" i = [some (.integer 1)] := by
  have hparts : (Disk.Route.ofText "two.csv").parts = ["two.csv"] := by decide
  rw [histories_eq hi]
  show told "a" (FlatFile.eventsIn _ (twoFiles.contentAt (Disk.Route.ofText "two.csv").parts)) = _
  rw [hparts, kept_fullFile.2]
  rfl

theorem told_emptyFile {i : Nat} (hi : outlets[i]? = some emptyFile) :
    histories wordless twoFiles outlets name i = [] := by
  have hparts : (Disk.Route.ofText "one.csv").parts = ["one.csv"] := by decide
  rw [histories_eq hi]
  show told name (FlatFile.eventsIn _ (twoFiles.contentAt (Disk.Route.ofText "one.csv").parts)) = _
  rw [hparts]
  rfl

/-- A variable that is moved to a file behind the one that held it is found again. -/
theorem get?_rebuilt_iff_forward :
    ∃ s d₁ t d₃, (buildIn id wordless [fullFile, emptyFile] 0).out twoFiles
        = ((s, .ok ()), d₁) ∧
      (buildIn List.reverse wordless
          ((s.close.out d₁).1.outlets.map Outlet.afresh) 0).out (s.close.out d₁).2
        = ((t, .ok ()), d₃) ∧
      s.vars.get? "a" = some (.value (.integer 1)) ∧
      ∀ name, t.vars.get? name = s.vars.get? name := by
  have hr := ofBuiltin_wordless
  obtain ⟨hstanding, hnames, hfound⟩ := standing_twoFiles (.swap _ _ _)
  obtain ⟨s, d₁, hbuild, hbuilt⟩ :=
    exists_build hstanding hr.faithful hnames .refl nofun hfound
  obtain ⟨t, d₃, hbuild', hiff, -⟩ := get?_rebuilt_iff hr hstanding hnames .refl
    List.reverse_perm hbuild rfl
  refine ⟨s, d₁, t, d₃, hbuild, hbuild', ?_, hiff.2 fun name _ hstranded => ?_⟩
  · have hlatest : latest (histories wordless twoFiles [fullFile, emptyFile] "a") 2
        = some (.integer 1, 0) := by
      refine History.latest_eq_some_iff.2
        ⟨by decide, by rw [told_fullFile rfl]; rfl, fun j hj hj' => ?_⟩
      obtain rfl : j = 1 := by omega
      rw [told_emptyFile rfl]
      rfl
    rw [hbuilt.get?_eq (by decide)]
    exact congrArg (Option.map _) hlatest
  · -- only the last outlet could strand it, and its file is empty
    obtain ⟨v, source, target, hlatest, -, j, hj, hjs, -, hgives⟩ := hstranded
    have hsource : source < 2 := (History.latest_eq_some_iff.1 hlatest).1
    obtain rfl : j = 1 := by omega
    rw [told_emptyFile rfl] at hgives
    cases hgives

/-- A variable that is moved to a file in front of the one that held it is lost. -/
theorem get?_rebuilt_backward :
    ∃ s d₁ t d₃, (buildIn id wordless [emptyFile, fullFile] 0).out twoFiles
        = ((s, .ok ()), d₁) ∧
      (buildIn id wordless
          ((s.close.out d₁).1.outlets.map Outlet.afresh) 0).out (s.close.out d₁).2
        = ((t, .ok ()), d₃) ∧
      s.vars.get? "a" = some (.value (.integer 1)) ∧ t.vars.get? "a" = none := by
  have hr := ofBuiltin_wordless
  obtain ⟨hstanding, hnames, hfound⟩ := standing_twoFiles (.refl _)
  obtain ⟨s, d₁, hbuild, hbuilt⟩ :=
    exists_build hstanding hr.faithful hnames .refl nofun hfound
  obtain ⟨t, d₃, hbuild', hagain⟩ := hbuilt.exists_rebuild hr.faithful hnames nofun .refl
  have hlatest : latest (histories wordless twoFiles [emptyFile, fullFile] "a") 2
      = some (.integer 1, 1) := by
    refine History.latest_eq_some_iff.2
      ⟨by decide, by rw [told_fullFile rfl]; rfl, fun j hj hj' => ?_⟩
    omega
  have hstranded : Stranded wordless twoFiles [emptyFile, fullFile] "a" :=
    ⟨.integer 1, 1, 0, hlatest, rfl, 1, by decide, by decide, rfl, by rw [told_fullFile rfl]; rfl⟩
  have hclose := hbuilt.out_close
  refine ⟨s, d₁, t, d₃, hbuild, by rw [hclose]; exact hbuild', ?_, ?_⟩
  · rw [hbuilt.get?_eq (by decide)]
    exact congrArg (Option.map _) hlatest
  · exact (hbuilt.get?_of_stranded hagain hstanding.fits (by decide)
      ((hstanding.stranded_iff hr).1 hstranded)).2

end

end Store

end ScriptStore
