import ScriptStore.Proofs.Storage.Reloading

/-!
# Saving one variable and sparing the others

A text file is split into lines before any quotes are looked at, so quotes do not protect the line
feeds in a name. Such a name takes up several lines, and those between the first and the last are read
on their own (`eventsIn_lineOf_of_feed`): they can say what they like about any other variable. The
first and the last line have one of the quotes around the name each, and a line with an odd number of
quotes says nothing.

A name in one line can do harm as well. What is written without quotes is trimmed, and the name that
is read then may be that of another variable. All other names are harmless, and
`spares_iff_harmless` says that just these can be saved without changing what other variables are
loaded as. That is about files whose last line is ended, and no storage leaves them otherwise. A
change that is appended to a line which is not ended becomes a part of it.
-/

namespace ScriptStore.Storage.FlatFile

open History (told)
open Text (Bytes)
open ScriptStore.Types (Registry Saved)

/-! ## Loading in spite of lost lines -/

section

variable {d : Disk} {f : FlatFile} {file : Disk.File}

/-- Making a backup of a file leaves it where it is. -/
theorem found_of_backupFile {route : Disk.Route} (h : d.Finds route file) :
    ((backupFile route).out d).2.Finds route file := by
  unfold backupFile
  have hbuilds := Disk.createDirectories_builds d (route.parent.enter "backups")
  rw [Work.out_bind, out_createDirectories]
  generalize d.createDirectories (route.parent.enter "backups") = made at hbuilds ⊢
  obtain ⟨d₁, result⟩ := made
  have h₁ := h.builds hbuilds
  cases result with
  | error e => exact h₁
  | ok u =>
    dsimp only [Except.mapError]
    rw [Work.out_bind, Work.out_get]
    dsimp only
    rw [Work.out_bind, Work.out_set]
    dsimp only
    -- the clock has moved on, and that is all
    have h₂ : d₁.now.2.Finds route file := h₁.sameTree ⟨rfl, rfl⟩ rfl
    split
    · exact h₂
    · generalize hcopy : d₁.now.2.copy route _ = result
      cases result with
      | error e =>
        rw [out_onDisk_error hcopy]
        exact h₂
      | ok d₃ =>
        rw [out_onDisk hcopy]
        exact h₂.copy hcopy

/-- A file is read to its end, whatever is lost. -/
theorem out_readFile_of_found (r : Registry) (h : d.Finds f.route file) :
    ∃ d', (f.readFile r).out d = (eventsIn r file.content, d') ∧ d'.Finds f.route file := by
  unfold readFile
  rw [Work.out_bind, Work.out_get]
  dsimp only
  rw [h.read_eq, Work.out_bind, Work.out_lift, value_readLines]
  dsimp only
  split
  · have hbackup := found_of_backupFile h
    rw [Work.out_bind, Work.out_lift, Work.out_bind]
    dsimp only
    generalize (backupFile f.route).out d = backup at hbackup ⊢
    obtain ⟨result, d'⟩ := backup
    cases result <;> exact ⟨d', rfl, hbackup⟩
  · exact ⟨d, rfl, h⟩

/-- Loading a file is connecting to it after all of it was read. -/
theorem out_load_of_found (r : Registry) (h : d.Finds f.route file) :
    ∃ d', d'.Finds f.route file ∧ ∀ {f' d''}, f.connect.out d' = ((f', .ok ()), d'') →
      (f.load r).out d
        = (⟨{ f' with loaded := true }, eventsIn r file.content, none⟩, d'') := by
  obtain ⟨d', hread, hfound⟩ := out_readFile_of_found r h
  refine ⟨d', hfound, fun hconnect => ?_⟩
  unfold load
  rw [Work.out_bind, Work.out_get]
  dsimp only
  rw [h.isDirectory_eq, if_neg Bool.false_ne_true, Work.out_bind, hread, Work.out_bind, hconnect]
  rfl

/-- A file that is there and has a header is loaded, whatever is lost. -/
theorem load_of_found (r : Registry) (hf : f.handle = none) (h : d.Finds f.route file)
    (hne : file.content ≠ []) : ∃ d', (f.load r).out d
      = (⟨{ f with handle := some file.number, loaded := true }, eventsIn r file.content, none⟩, d') ∧
      d'.Finds f.route file := by
  obtain ⟨d', hfound, hload⟩ := out_load_of_found r h
  have hconnect : f.connect.out d' = (({ f with handle := some file.number }, .ok ()), d') := by
    rw [out_connect hf, out_openFile_of_found hfound hne]
  exact ⟨d', hload hconnect, hfound⟩

end

/-! ## Names with line feeds -/

theorem forall_ne_feed {s : List Char} (h : '\n' ∉ s) : ∀ c ∈ s, (c == '\n') = false := fun _ hc =>
  beq_false_of_ne fun heq => h (heq ▸ hc)

/-- The lines of a text between quotes, with something behind it. -/
theorem splitWhere_doubleQuotes (text : List Char) {tail : List Char} (htail : '\n' ∉ tail) :
    ∃ front last, Text.splitWhere (· == '\n') text = front ++ [last] ∧
      Text.splitWhere (· == '\n') (Csv.doubleQuotes text ++ tail)
        = front.map Csv.doubleQuotes ++ [Csv.doubleQuotes last ++ tail] := by
  induction text with
  | nil => exact ⟨[], [], rfl, Text.splitWhere_of_forall (forall_ne_feed htail)⟩
  | cons c text ih =>
    obtain ⟨front, last, htext, hquoted⟩ := ih
    by_cases hc : c = '\n'
    · subst hc
      have hdouble : Csv.doubleQuotes ('\n' :: text) = '\n' :: Csv.doubleQuotes text := rfl
      refine ⟨[] :: front, last, ?_, ?_⟩
      · rw [Text.splitWhere_cons_self rfl, htext]
        rfl
      · rw [hdouble, List.cons_append, Text.splitWhere_cons_self rfl, hquoted]
        rfl
    · -- the character, with its double if it is a quote, goes to the first line
      have hdouble : ∀ s, Csv.doubleQuotes (c :: s) = Csv.doubleQuotes [c] ++ Csv.doubleQuotes s :=
        Csv.doubleQuotes_append [c]
      have hone : '\n' ∉ [c] := fun hmem => hc (List.mem_singleton.1 hmem).symm
      have htwo : '\n' ∉ Csv.doubleQuotes [c] := fun hmem => hone (Csv.mem_of_mem_doubleQuotes hmem)
      rw [hdouble text, List.append_assoc]
      cases front with
      | nil =>
        refine ⟨[], c :: last, Text.splitWhere_append (forall_ne_feed hone) htext, ?_⟩
        rw [Text.splitWhere_append (forall_ne_feed htwo) hquoted, hdouble last, List.append_assoc]
        rfl
      | cons first front =>
        have hfirst := Text.splitWhere_append (forall_ne_feed hone) htext
        refine ⟨(c :: first) :: front, last, hfirst, ?_⟩
        rw [Text.splitWhere_append (forall_ne_feed htwo) hquoted, List.map_cons, hdouble first]
        rfl

/-- The lines that a name is written in, but for the first and the last. -/
def innerLines (name : String) : List String :=
  (Text.splitAtChar '\n' name).tail.dropLast.map fun line =>
    String.ofList (Csv.doubleQuotes line.toList)

/-- What is heard in a line. -/
def heard? (r : Registry) (line : String) : Option Event := (meaning r (Text.toBytes line)).event?

section

variable {r : Registry} {line : String}

theorem split_of_heard? {e : Event} (h : heard? r line = some e) :
    ∃ code data, Csv.split (Text.trimmed line) = some [e.1, code, data] := by
  rw [heard?] at h
  cases hmeaning : meaning r (Text.toBytes line) with
  | blank => rw [hmeaning] at h; cases h
  | lost name => rw [hmeaning] at h; cases h
  | event e' =>
    rw [hmeaning] at h
    obtain rfl := Option.some.inj h
    obtain ⟨code, data, hsplit, -⟩ := meaning_eq_event hmeaning
    rw [Text.ofBytesLossy_toBytes] at hsplit
    exact ⟨code, data, hsplit⟩

/-- A quote that is open at the end of a line makes it unreadable. -/
theorem heard?_of_odd (h : line.toList.count '"' % 2 = 1) : heard? r line = none := by
  cases hheard : heard? r line with
  | none => rfl
  | some e =>
    obtain ⟨code, data, hsplit⟩ := split_of_heard? hheard
    have heven := (Csv.split_trimmed_eq_some hsplit).2
    omega

/-- The name in an event stands in its line. -/
theorem subset_of_heard? {e : Event} (h : heard? r line = some e) : e.1.toList ⊆ line.toList := by
  obtain ⟨code, data, hsplit⟩ := split_of_heard? h
  exact (Csv.split_trimmed_eq_some hsplit).1 _ (.head _)

end

theorem feed_not_mem_splitAtChar {text line : String} (h : line ∈ Text.splitAtChar '\n' text) :
    '\n' ∉ line.toList := by
  obtain ⟨piece, hpiece, rfl⟩ := List.mem_map.1 h
  rw [String.toList_ofList]
  exact fun hmem => absurd (Text.not_mem_of_mem_splitWhere hpiece _ hmem) (by decide)

/-- A text that is ended is split into its lines. -/
theorem splitLines_text (text : String) :
    splitLines (Text.toBytes (text ++ "\n")) = (Text.splitAtChar '\n' text).map Text.toBytes := by
  have hjoin : text ++ "\n" = String.join ((Text.splitAtChar '\n' text).map (· ++ "\n")) := by
    rw [← String.toList_inj, String.toList_append, String.toList_join, Text.splitAtChar,
      List.map_map, List.flatMap_map]
    simp only [Function.comp_apply, String.toList_append, String.toList_ofList]
    exact (Text.flatMap_splitWhere '\n' text.toList).symm
  rw [hjoin]
  exact splitLines_join fun line => feed_not_mem_splitAtChar

theorem eventsIn_lineOf (r : Registry) (name : String) (saved : Option Saved) :
    eventsIn r (Text.toBytes (lineOf (name, saved)))
      = (Text.splitAtChar '\n' (written name saved)).filterMap (heard? r) := by
  have hheard : (fun line => (meaning r (Text.toBytes line)).event?) = heard? r := rfl
  rw [eventsIn, lineOf_eq, splitLines_text, List.filterMap_map, Function.comp_def, hheard]

section

variable {r : Registry} {name : String} {saved : Option Saved}
  (hcode : ∀ s ∈ saved, Types.isCode s.code = true)

include hcode

/-- The lines of a name with line feeds, and those that are written for it: one quote stands at the
beginning of the first, and one in the last. -/
theorem exists_lines (hname : '\n' ∈ name.toList) : ∃ first inner last,
    Text.splitWhere (· == '\n') name.toList = first :: (inner ++ [last]) ∧
      Text.splitWhere (· == '\n') (written name saved).toList
        = ('"' :: Csv.doubleQuotes first) ::
          (inner.map Csv.doubleQuotes ++ [Csv.doubleQuotes last ++ '"' :: tailOf saved]) := by
  have hquotes : Csv.needsQuotes name.toList = true :=
    List.any_eq_true.2 ⟨'\n', hname, by decide⟩
  -- the first line ends before the first line feed
  obtain ⟨first, rest, hsplit, hfirst⟩ := List.eq_append_cons_of_mem hname
  have hbehind : '\n' ∉ '"' :: tailOf saved := fun hmem =>
    (not_mem_tailOf hcode).1 (List.mem_of_ne_of_mem (by decide) hmem)
  obtain ⟨inner, last, hrest, hinner⟩ := splitWhere_doubleQuotes rest hbehind
  have hopen : '\n' ∉ '"' :: Csv.doubleQuotes first := fun hmem =>
    hfirst (Csv.mem_of_mem_doubleQuotes (List.mem_of_ne_of_mem (by decide) hmem))
  have hshape : Csv.writeField name.toList ++ tailOf saved = ('"' :: Csv.doubleQuotes first) ++
      '\n' :: (Csv.doubleQuotes rest ++ '"' :: tailOf saved) := by
    rw [Csv.writeField, if_pos hquotes, hsplit, Csv.doubleQuotes_append]
    simp [Csv.doubleQuotes]
  refine ⟨first, inner, last, ?_, ?_⟩
  · rw [hsplit, Text.splitWhere_append_cons (forall_ne_feed hfirst) rfl, hrest]
  · rw [toList_written hcode, hshape, Text.splitWhere_append_cons (forall_ne_feed hopen) rfl, hinner]

/-- **A name with line feeds is heard of in the lines between.** -/
theorem eventsIn_lineOf_of_feed (hname : '\n' ∈ name.toList) :
    eventsIn r (Text.toBytes (lineOf (name, saved))) = (innerLines name).filterMap (heard? r) := by
  obtain ⟨first, inner, last, hlines, hwritten⟩ := exists_lines hcode hname
  have hbetween : innerLines name = (inner.map Csv.doubleQuotes).map String.ofList := by
    rw [innerLines, Text.splitAtChar, hlines, List.map_cons, List.tail_cons, List.map_append,
      List.map_singleton, List.dropLast_concat, List.map_map, List.map_map]
    simp only [Function.comp_def, String.toList_ofList]
  -- one quote too many stands at either end
  have hodd : ('"' :: Csv.doubleQuotes first).count '"' % 2 = 1 := by
    rw [List.count_cons_self, Csv.count_doubleQuotes]
    omega
  have hodd' : (Csv.doubleQuotes last ++ '"' :: tailOf saved).count '"' % 2 = 1 := by
    rw [List.count_append, List.count_cons_self, Csv.count_doubleQuotes,
      List.count_eq_zero_of_not_mem (not_mem_tailOf hcode).2]
    omega
  have hnone : ∀ {line : List Char}, line.count '"' % 2 = 1 →
      heard? r (String.ofList line) = none := fun h =>
    heard?_of_odd (by rw [String.toList_ofList]; exact h)
  rw [eventsIn_lineOf, Text.splitAtChar, hwritten, hbetween, List.map_cons,
    List.filterMap_cons_none (hnone hodd), List.map_append, List.filterMap_append, List.map_singleton,
    List.filterMap_cons_none (hnone hodd'), List.filterMap_nil, List.append_nil]

/-- A name in one line is heard of as it is read back. -/
theorem eventsIn_lineOf_of_line (hname : '\n' ∉ name.toList) {e : Event}
    (he : e ∈ eventsIn r (Text.toBytes (lineOf (name, saved)))) :
    e.1 = String.ofList (Csv.readBack name.toList) := by
  rw [eventsIn, splitLines_lineOf hcode hname] at he
  obtain ⟨line, hline, hevent⟩ := List.mem_filterMap.1 he
  obtain rfl := List.mem_singleton.1 hline
  obtain ⟨code, data, hsplit⟩ := split_of_heard? hevent
  rw [(has_written hcode name).split] at hsplit
  exact (List.cons.inj (Option.some.inj hsplit)).1.symm

end

/-! ## Harmless names -/

theorem feed_not_mem_innerLines {name line : String} (h : line ∈ innerLines name) :
    '\n' ∉ line.toList := by
  obtain ⟨piece, hpiece, rfl⟩ := List.mem_map.1 h
  have hfeed := feed_not_mem_splitAtChar (List.mem_of_mem_tail (List.mem_of_mem_dropLast hpiece))
  rw [String.toList_ofList]
  exact fun hmem => hfeed (Csv.mem_of_mem_doubleQuotes hmem)

/-- Whether a name does no harm: one with line feeds if nothing is heard between them, and any other
name if it is read back. -/
def Harmless (r : Registry) (name : String) : Prop :=
  if '\n' ∈ name.toList then ∀ line ∈ innerLines name, heard? r line = none
  else Csv.Readable name.toList

section

variable {r : Registry} {name : String} {saved : Option Saved}

/-- Under a harmless name, nothing is heard of other variables. -/
theorem Harmless.name_eq (hname : Harmless r name)
    (hcode : ∀ s ∈ saved, Types.isCode s.code = true) {e : Event}
    (he : e ∈ eventsIn r (Text.toBytes (lineOf (name, saved)))) : e.1 = name := by
  unfold Harmless at hname
  split at hname
  · next hfeed =>
    rw [eventsIn_lineOf_of_feed hcode hfeed] at he
    obtain ⟨line, hline, hheard⟩ := List.mem_filterMap.1 he
    rw [hname line hline] at hheard
    cases hheard
  · next hfeed =>
    rw [eventsIn_lineOf_of_line hcode hfeed he, Csv.readBack_eq_iff.2 hname, String.ofList_toList]

/-- Under any other name, something is. -/
theorem harmless_of_name_eq {v : Option Value} (hsaved : r.Recovers v saved)
    (h : ∀ e ∈ eventsIn r (Text.toBytes (lineOf (name, saved))), e.1 = name) : Harmless r name := by
  have hcode := isCode_of_recovers hsaved
  unfold Harmless
  split
  · next hfeed =>
    rw [eventsIn_lineOf_of_feed hcode hfeed] at h
    intro line hline
    cases hheard : heard? r line with
    | none => rfl
    | some e =>
      -- the name in the event stands in one line, so it is not this one
      have hname := h e (List.mem_filterMap.2 ⟨line, hline, hheard⟩)
      exact absurd (subset_of_heard? hheard (hname.symm ▸ hfeed)) (feed_not_mem_innerLines hline)
  · next hfeed =>
    rw [eventsIn, splitLines_lineOf hcode hfeed, List.filterMap_cons, meaning_written hsaved] at h
    have hname := h _ (.head _)
    rw [← Csv.readBack_eq_iff]
    conv_rhs => rw [← hname, String.toList_ofList]

end

/-! ## Storages that were loaded and saved to -/

/-- Whether a storage is loaded, and has a file open of which the last line is ended. -/
structure Ready (d : Disk) (f : FlatFile) (file : Disk.File) : Prop where
  loaded : f.loaded = true
  handle : f.handle = some file.number
  found : d.Finds f.route file
  content : file.content ≠ []
  complete : Complete file.content

/-- The storages that loading a file with an ended last line, saving to it and loading it again lead
to. A file that was not there, or was empty, has a header once it is loaded. -/
inductive Reached (r : Registry) : Disk → FlatFile → Prop where
  | load {d d' : Disk} {f f' : FlatFile} {es : List Event} (hnew : f.handle = none)
      (hload : (f.load r).out d = (⟨f', es, none⟩, d'))
      (hended : ∀ content, d'.read f'.route = .ok content → Complete content) : Reached r d' f'
  | reload {d d' : Disk} {f f' : FlatFile} {es : List Event} (h : Reached r d f)
      (hload : (f.load r).out d = (⟨f', es, none⟩, d')) : Reached r d' f'
  | save {d d' : Disk} {f f' : FlatFile} (h : Reached r d f) (change : Change)
      (hsave : (f.save change).out d = ((f', .ok ()), d')) : Reached r d' f'

section

variable {r : Registry} {d : Disk} {f : FlatFile} {file : Disk.File}

/-- A change is appended to the file. -/
theorem Ready.save_spec (h : f.Ready d file) (change : Change) :
    ∃ f' d', (f.save change).out d = ((f', .ok ()), d') ∧ f'.file = f.file ∧
      f'.Ready d' { file with content := file.content ++ Text.toBytes (lineOf change) } := by
  obtain ⟨name, saved⟩ := change
  refine ⟨_, _, out_save h.loaded h.handle (name, saved), rfl, h.loaded, h.handle,
    h.found.append _, fun hnil => h.content (List.append_eq_nil_iff.1 hnil).1,
    h.complete.append (complete_lineOf name saved)⟩

/-- Loading leaves a storage that is loaded as it is. -/
theorem Ready.load_spec (r : Registry) (h : f.Ready d file) :
    ∃ d', (f.load r).out d = (⟨f, eventsIn r file.content, none⟩, d') ∧ f.Ready d' file := by
  obtain ⟨d', hfound, hload⟩ := out_load_of_found r h.found
  have hconnect : f.connect.out d' = ((f, .ok ()), d') := by
    unfold connect
    rw [connected, h.handle]
    rfl
  have hload' := hload hconnect
  rw [show { f with loaded := true } = f by rw [← h.loaded]] at hload'
  exact ⟨d', hload', h.loaded, h.handle, hfound, h.content, h.complete⟩

/-- A storage that is reached is ready for changes. -/
theorem Reached.ready (h : Reached r d f) : ∃ file, f.Ready d file := by
  induction h with
  | load hnew hload hended =>
    obtain ⟨hloaded, -, file, hfound, hhandle, hne⟩ := open_of_load hnew hload
    exact ⟨file, hloaded, hhandle, hfound, hne, hended _ hfound.read_eq⟩
  | reload h hload ih =>
    obtain ⟨file, hready⟩ := ih
    obtain ⟨d', hload', hready'⟩ := hready.load_spec r
    rw [hload] at hload'
    cases hload'
    exact ⟨file, hready'⟩
  | save h change hsave ih =>
    obtain ⟨file, hready⟩ := ih
    obtain ⟨f', d', hsave', -, hready'⟩ := hready.save_spec change
    rw [hsave] at hsave'
    cases hsave'
    exact ⟨_, hready'⟩

/-- A new storage for the same file hands over all that is in it. -/
theorem Ready.reload_spec (r : Registry) (h : f.Ready d file) :
    ∃ f' d', (load { file := f.file } r).out d = (⟨f', eventsIn r file.content, none⟩, d') := by
  obtain ⟨d', hload, -⟩ := @load_of_found d { file := f.file } file r rfl h.found h.content
  exact ⟨_, d', hload⟩

end

/-! ## What becomes of others -/

/-- Whether a change can be saved without harm: wherever loading and saving have led to, it is
accepted, a new storage can be loaded from the file before and after that, and what is left of any
other variable is the same. -/
def Spares (r : Registry) (change : Change) : Prop :=
  ∀ (d : Disk) (f : FlatFile), Reached r d f →
    ∃ f' d', (f.save change).out d = ((f', .ok ()), d') ∧ f'.file = f.file ∧
      ∃ g before d₁ g' after d₂, (load { file := f.file } r).out d = (⟨g, before, none⟩, d₁) ∧
        (load { file := f.file } r).out d' = (⟨g', after, none⟩, d₂) ∧
        ∀ other ≠ change.1, replay after other = replay before other

theorem replay_append_of_told {events more : List Event} {name : String} (h : told name more = []) :
    replay (events ++ more) name = replay events name := by
  rw [replay_apply, replay_apply, History.told_append, h, List.append_nil]

theorem replay_append {events more : List Event} {name : String} (h : told name more ≠ []) :
    replay (events ++ more) name = (told name more).final := by
  rw [replay_apply, History.told_append, History.final, List.getLast?_append_of_ne_nil _ h,
    ← History.final]

/-- Who is not heard of is spared. -/
theorem spares_of_name_eq {r : Registry} {change : Change}
    (h : ∀ e ∈ eventsIn r (Text.toBytes (lineOf change)), e.1 = change.1) : Spares r change := by
  intro d f hreached
  obtain ⟨file, hready⟩ := hreached.ready
  obtain ⟨f', d', hsave, hfile, hready'⟩ := hready.save_spec change
  obtain ⟨g, d₁, hbefore⟩ := hready.reload_spec r
  obtain ⟨g', d₂, hafter⟩ := hready'.reload_spec r
  rw [hfile] at hafter
  refine ⟨f', d', hsave, hfile, g, _, d₁, g', _, d₂, hbefore, hafter, fun other hother => ?_⟩
  rw [eventsIn_append r hready.complete]
  refine replay_append_of_told ?_
  rw [told, List.map_eq_nil_iff, List.filter_eq_nil_iff]
  intro e he heq
  exact hother ((of_decide_eq_true heq).symm.trans (h e he))

/-- A disk with one file. -/
def oneFile (content : Bytes) : Disk where
  files := ⟨[(["counts.csv"], ⟨0, content⟩)]⟩
  nextFile := 1

theorem finds_oneFile (content : Bytes) :
    (oneFile content).Finds (.ofText "counts.csv") ⟨0, content⟩ := by
  have hw : ({} : Disk).Writable (.ofText "counts.csv") [] "counts.csv" :=
    Backend.writable_counts (by decide)
  exact ⟨[], "counts.csv", hw.sameTree ⟨rfl, rfl⟩, rfl⟩

/-- Any content with an ended last line can be come by. -/
theorem exists_reached (r : Registry) {content : Bytes} (hne : content ≠ [])
    (hcomplete : Complete content) :
    ∃ d f file, Reached r d f ∧ f.Ready d file ∧ file.content = content := by
  have hfound : (oneFile content).Finds (route { file := "counts.csv" }) ⟨0, content⟩ :=
    finds_oneFile content
  obtain ⟨d', hload, hfound'⟩ := load_of_found r rfl hfound hne
  refine ⟨d', _, ⟨0, content⟩, .load rfl hload fun content' hread => ?_,
    ⟨rfl, rfl, hfound', hne, hcomplete⟩, rfl⟩
  have heq := hfound'.read_eq.symm.trans hread
  cases heq
  exact hcomplete

section

variable {r : Registry} {saved : Saved} {v : Value} (hsaved : r.LoadsAs saved v)

include hsaved

/-- A variable can have a value whose name stands in one line. -/
theorem exists_bound {name : String} (hname : '\n' ∉ name.toList) :
    ∃ content, content ≠ [] ∧ Complete content ∧ replay (eventsIn r content) name = some v := by
  have hrecovers : r.Recovers (some v) (some saved) := hsaved
  have hcode := isCode_of_recovers hrecovers
  obtain ⟨hbare, hbare'⟩ := bare_fieldsOf hcode
  -- between quotes, any such name can be written
  have hhas := @Csv.Reads.has _ _ _ _ (Csv.reads_quoted name.toList) hbare hbare' [] (by simp)
  rw [String.ofList_toList, String.ofList_toList, String.ofList_toList, List.nil_append] at hhas
  have hmeaning := meaning_of_has hrecovers hhas
  have hfeed : '\n' ∉ '"' :: Csv.doubleQuotes name.toList ++ ['"'] ++ tailOf (some saved) := by
    have hdouble : '\n' ∉ Csv.doubleQuotes name.toList := fun hmem =>
      hname (Csv.mem_of_mem_doubleQuotes hmem)
    have htail := (not_mem_tailOf hcode).1
    simp [hdouble, htail]
  generalize hline : '"' :: Csv.doubleQuotes name.toList ++ ['"'] ++ tailOf (some saved) = line
    at hfeed
  rw [tailOf] at hline
  rw [hline] at hmeaning
  have hbytes : 10 ∉ Text.toBytes (String.ofList line) :=
    feed_not_mem_toBytes (by rw [String.toList_ofList]; exact hfeed)
  refine ⟨Text.toBytes (String.ofList line) ++ [10], by simp, complete_ended _, ?_⟩
  rw [eventsIn, splitLines_ended hbytes, List.filterMap_cons, hmeaning, replay_apply]
  simp [Line.event?, History.final]

/-- Whatever is left of a variable, it need not be what a file says. -/
theorem exists_unlike {name : String} (hname : '\n' ∉ name.toList) (x : Option Value) :
    ∃ content, content ≠ [] ∧ Complete content ∧ replay (eventsIn r content) name ≠ x := by
  cases x with
  | none =>
    obtain ⟨content, hne, hcomplete, hbound⟩ := exists_bound hsaved hname
    exact ⟨content, hne, hcomplete, by rw [hbound]; exact Option.some_ne_none v⟩
  | some w =>
    obtain ⟨hkept, hevents⟩ := kept_header r
    refine ⟨Text.toBytes header, toBytes_header_ne_nil, hkept.complete, ?_⟩
    rw [hevents]
    exact (Option.some_ne_none w).symm

/-- Who is heard of is not spared. -/
theorem name_eq_of_spares {name : String} (h : Spares r (name, some saved)) :
    ∀ e ∈ eventsIn r (Text.toBytes (lineOf (name, some saved))), e.1 = name := by
  intro e he
  by_contra hne
  have hfeed : '\n' ∉ e.1.toList := by
    rw [eventsIn_lineOf] at he
    obtain ⟨line, hline, hheard⟩ := List.mem_filterMap.1 he
    exact fun hmem => feed_not_mem_splitAtChar hline (subset_of_heard? hheard hmem)
  have htold : told e.1 (eventsIn r (Text.toBytes (lineOf (name, some saved)))) ≠ [] := by
    rw [told, Ne, List.map_eq_nil_iff, List.filter_eq_nil_iff]
    exact fun hnone => hnone e he (decide_eq_true rfl)
  obtain ⟨content, hcontent, hcomplete, hunlike⟩ := exists_unlike hsaved hfeed
    (told e.1 (eventsIn r (Text.toBytes (lineOf (name, some saved))))).final
  obtain ⟨d, f, file, hreached, hready, rfl⟩ := exists_reached r hcontent hcomplete
  obtain ⟨f', d', hsave, hfile, g, before, d₁, g', after, d₂, hbefore, hafter, hsame⟩ :=
    h d f hreached
  -- what the loads hand over is known
  obtain ⟨f'', d'', hsave', hfile', hready'⟩ := hready.save_spec (name, some saved)
  rw [hsave] at hsave'
  cases hsave'
  obtain ⟨_, _, hbefore'⟩ := hready.reload_spec r
  obtain ⟨_, _, hafter'⟩ := hready'.reload_spec r
  rw [hbefore] at hbefore'
  rw [hfile, hafter] at hafter'
  cases hbefore'
  cases hafter'
  have hsame := hsame e.1 hne
  rw [eventsIn_append r hready.complete, replay_append htold] at hsame
  exact hunlike hsame.symm

end

section

open Backend (counters built_counters countRecord load_countFile firstOpened)

theorem loadsAs_countRecord {b : UInt8} (h : b ∈ [1, 2, 3]) :
    counters.LoadsAs (countRecord b) (.integer (.ofNat b.toNat)) := by
  simp only [List.mem_cons, List.not_mem_nil, or_false] at h
  rcases h with rfl | rfl | rfl
  · exact ⟨by decide, by decide, by decide, rfl⟩
  · exact ⟨by decide, by decide, by decide, rfl⟩
  · exact ⟨by decide, by decide, by decide, rfl⟩

/-- **Harmless names are those that spare all other variables.** Whatever value is saved under a
harmless name, a file that is loaded before and after that leaves the same of any other variable. A
name that is not harmless changes another variable in some file, if what is saved can be loaded. -/
theorem spares_iff_harmless {r : Registry} (hr : r.Built) {v : Value} {saved : Saved}
    (hsaved : (r.serialize v).value = some saved) (name : String) :
    (Harmless r name → Spares r (name, some saved)) ∧
      ∀ w, (r.load saved).value = some w → saved.code ≠ deletedType →
        Spares r (name, some saved) → Harmless r name := by
  obtain ⟨hcode, hlength⟩ := hr.coded_of_serialize hsaved
  constructor
  · intro hname
    refine spares_of_name_eq fun e => hname.name_eq fun s hs => ?_
    cases hs
    exact hcode
  · intro w hload hunreserved hspares
    have hloads : r.LoadsAs saved w := ⟨hcode, hlength, hunreserved, hload⟩
    have hrecovers : r.Recovers (some w) (some saved) := hloads
    exact harmless_of_name_eq hrecovers (name_eq_of_spares hloads hspares)

/-- A line between line feeds that has too few fields does no harm, but white space around a name
does. -/
theorem spares_iff_harmless_counters :
    Spares counters ("total\nsum, 7\nend", some (countRecord 3)) ∧
      ¬ Spares counters ("total\u00a0", some (countRecord 3)) := by
  have hsaved : (counters.serialize (.integer 3)).value = some (countRecord 3) := rfl
  have hload := (loadsAs_countRecord (b := 3) (by decide)).load
  constructor
  · have hinner : innerLines "total\nsum, 7\nend" = ["sum, 7"] := by decide +kernel
    have hsplit : Csv.split (Text.trimmed "sum, 7") = some ["sum", "7"] := by decide +kernel
    refine (spares_iff_harmless built_counters hsaved _).1 ?_
    rw [Harmless, if_pos (by decide), hinner, List.forall_mem_singleton]
    cases hheard : heard? counters "sum, 7" with
    | none => rfl
    | some e =>
        obtain ⟨code, data, hsplit'⟩ := split_of_heard? hheard
        rw [hsplit] at hsplit'
        simp at hsplit'
  · intro hspares
    have hname := (spares_iff_harmless built_counters hsaved _).2 _ hload (by decide) hspares
    rw [Harmless, if_neg (by decide)] at hname
    exact absurd hname (by decide)

/-- A name with a line in it that tells of another variable, and a value for that. -/
def intruder : String := "x\nm, integer, 0000000000000002\ny"

theorem eventsIn_intruder : eventsIn counters (Text.toBytes (lineOf (intruder, some (countRecord 3))))
    = [("m", some (.integer 2))] := by
  have hcode : ∀ s ∈ some (countRecord 3), Types.isCode s.code = true :=
    fun s hs => by cases hs; decide
  have hinner : innerLines intruder = [written "m" (some (countRecord 2))] := by decide +kernel
  have hsaved : counters.Recovers (some (.integer 2)) (some (countRecord 2)) :=
    loadsAs_countRecord (b := 2) (by decide)
  have hmeaning := meaning_written hsaved "m"
  have hback : Csv.readBack "m".toList = "m".toList := Csv.readBack_eq_iff.2 (by decide)
  rw [hback, String.ofList_toList] at hmeaning
  rw [eventsIn_lineOf_of_feed hcode (by decide), hinner, List.filterMap_cons, heard?, hmeaning]
  rfl

/-- **Saving one variable can change another.** The storage is new, `m` is saved, and then a variable
whose name has a line in it that tells of `m`. -/
theorem save_rebinds_other : ∃ d f f' d' g before d₁ g' after d₂, Reached counters d f ∧
    (f.save (intruder, some (countRecord 3))).out d = ((f', .ok ()), d') ∧ f'.file = f.file ∧
    (load { file := f.file } counters).out d = (⟨g, before, none⟩, d₁) ∧
    (load { file := f.file } counters).out d' = (⟨g', after, none⟩, d₂) ∧
    replay before "m" = some (.integer 1) ∧ replay after "m" = some (.integer 2) := by
  have hsaved : counters.Recovers (some (.integer 1)) (some (countRecord 1)) :=
    loadsAs_countRecord (b := 1) (by decide)
  obtain ⟨hkept, hheader⟩ := kept_header counters
  have hname : Takes "m" := by decide
  obtain ⟨-, hevent⟩ := kept_lineOf hsaved hname
  have hfound : firstOpened.Finds (.ofText "counts.csv") ⟨0, Text.toBytes header⟩ :=
    finds_oneFile (Text.toBytes header)
  have hnew : Reached counters firstOpened
      { file := "counts.csv", handle := some 0, loaded := true } := by
    refine .load rfl load_countFile fun content hread => ?_
    have heq := hfound.read_eq.symm.trans hread
    cases heq
    exact hkept.complete
  have hready : Ready firstOpened { file := "counts.csv", handle := some 0, loaded := true }
      ⟨0, Text.toBytes header⟩ := ⟨rfl, rfl, hfound, toBytes_header_ne_nil, hkept.complete⟩
  obtain ⟨f₁, d₁, hsave₁, -, hready₁⟩ := hready.save_spec ("m", some (countRecord 1))
  obtain ⟨f₂, d₂, hsave₂, hfile, hready₂⟩ := hready₁.save_spec (intruder, some (countRecord 3))
  obtain ⟨g, d₃, hbefore⟩ := hready₁.reload_spec counters
  obtain ⟨g', d₄, hafter⟩ := hready₂.reload_spec counters
  rw [hfile] at hafter
  have hevents : eventsIn counters
      (Text.toBytes header ++ Text.toBytes (lineOf ("m", some (countRecord 1))))
        = [("m", some (.integer 1))] := by
    rw [eventsIn_append counters hkept.complete, hheader, hevent]
    rfl
  refine ⟨d₁, f₁, f₂, d₂, g, _, d₃, g', _, d₄, .save hnew _ hsave₁, hsave₂, hfile, hbefore, hafter,
    ?_, ?_⟩
  · rw [hevents, replay_apply]
    rfl
  · rw [eventsIn_append counters hready₁.complete, hevents, eventsIn_intruder, replay_apply]
    rfl

end

end ScriptStore.Storage.FlatFile
