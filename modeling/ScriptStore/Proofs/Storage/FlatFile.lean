import ScriptStore.Proofs.Disk
import ScriptStore.Proofs.Storage.Csv
import ScriptStore.Proofs.Text.Utf8
import ScriptStore.Proofs.Types.Saving

/-!
# Lines that are appended are read back

What is appended to a text file whose last line is ended is read on its own (`eventsIn_append`). If no
line of the file was lost, and a change was appended, it hands over one event more
(`kept_append_lineOf`). The name of the variable has to be one that a line can hold (`Takes`): without
line feeds, and not changed by trimming unless it stands in quotes.
-/

namespace ScriptStore.Storage.FlatFile

open Text (Bytes)
open ScriptStore.Types (Registry Saved)

/-! ## What a file says -/

/-- What a line says. Its number matters to messages only. -/
def meaning (r : Registry) (line : Bytes) : Line := (readLine r 0 line).value

/-- The events that a content hands over. -/
def eventsIn (r : Registry) (content : Bytes) : List Event :=
  (splitLines content).filterMap fun line => (meaning r line).event?

/-- The names of the variables that are lost with a content. -/
def lostIn (r : Registry) (content : Bytes) : List String :=
  (splitLines content).filterMap fun line => (meaning r line).lost?

theorem value_readLine (r : Registry) (number : Nat) (line : Bytes) :
    (readLine r number line).value = meaning r line := by
  unfold meaning readLine
  dsimp only
  split
  · rfl
  · split
    · split
      · rfl
      · split <;> rfl
    · rfl

/-- A line that tells of a variable has three fields: the name, and either the type of a deletion, or
what the value was loaded from. -/
theorem meaning_eq_event {r : Registry} {line : Bytes} {e : Event} (h : meaning r line = .event e) :
    ∃ code data, Csv.split (Text.trimmed (Text.ofBytesLossy line)) = some [e.1, code, data] ∧
      (code = deletedType ∧ e.2 = none ∨
        ∃ saved v, (r.load saved).value = some v ∧ e.2 = some v) := by
  unfold meaning readLine at h
  dsimp only at h
  split at h
  · cases h
  · split at h
    · next name code field hsplit =>
      split at h
      · next hcode =>
        cases h
        exact ⟨code, field, hsplit, .inl ⟨hcode, rfl⟩⟩
      · cases hdata : dataOf field with
        | error e => rw [hdata] at h; cases h
        | ok data =>
          rw [hdata] at h
          dsimp only at h
          rw [Logged.value_bind] at h
          cases hload : (r.deserialize code data).value with
          | none => rw [hload] at h; cases h
          | some w =>
            rw [hload] at h
            cases h
            exact ⟨code, field, hsplit, .inr ⟨⟨code, data⟩, w, hload, rfl⟩⟩
    · cases h

/-- A value that a line says was loaded. -/
theorem load_of_meaning {r : Registry} {line : Bytes} {name : String} {v : Value}
    (h : meaning r line = .event (name, some v)) : ∃ saved, (r.load saved).value = some v := by
  obtain ⟨code, data, -, ⟨-, hnone⟩ | ⟨saved, w, hload, hw⟩⟩ := meaning_eq_event h
  · cases hnone
  · cases hw
    exact ⟨saved, hload⟩

theorem value_readLines (r : Registry) (content : Bytes) :
    (readLines r (splitLines content)).value = (eventsIn r content, lostIn r content) := by
  have hread : ((splitLines content).zipIdx 1).map
      (fun e => (readLine r e.2 e.1).value) = (splitLines content).map (meaning r) := by
    simp only [value_readLine]
    conv_rhs => rw [← List.zipIdx_map_fst 1 (splitLines content), List.map_map]
    rfl
  unfold readLines
  rw [Logged.value_bind, Logged.value_mapM, Logged.value_pure, hread, List.filterMap_map,
    List.filterMap_map]
  rfl

/-! ## One line more -/

/-- Whether the last line of a content is ended. -/
def Complete (content : Bytes) : Prop := ∀ b ∈ content.getLast?, b = 10

/-- Whether a content can be read without loss and be appended to. -/
structure Kept (r : Registry) (content : Bytes) : Prop where
  complete : Complete content
  lost : lostIn r content = []

theorem kept_nil (r : Registry) : Kept r [] := ⟨fun b hb => absurd hb (by simp), rfl⟩

theorem splitLines_ended {line : Bytes} (h : 10 ∉ line) : splitLines (line ++ [10]) = [line] := by
  induction line with
  | nil => rfl
  | cons b line ih =>
    rw [List.mem_cons, not_or] at h
    rw [List.cons_append, splitLines, ih h.2, if_neg (by simpa using Ne.symm h.1)]

theorem splitLines_ne_nil {content : Bytes} (h : content ≠ []) : splitLines content ≠ [] := by
  cases content with
  | nil => exact absurd rfl h
  | cons b rest =>
    rw [splitLines]
    split
    · exact List.cons_ne_nil _ _
    · split <;> exact List.cons_ne_nil _ _

/-- What comes behind an ended line is split on its own. -/
theorem splitLines_append {content : Bytes} (h : Complete content) (more : Bytes) :
    splitLines (content ++ more) = splitLines content ++ splitLines more := by
  induction content with
  | nil => rfl
  | cons b rest ih =>
    by_cases hne : rest = []
    · subst hne
      obtain rfl : b = 10 := h b rfl
      rfl
    · have hrest : Complete rest := by
        intro c hc
        refine h c ?_
        rwa [List.getLast?_cons_of_ne_nil hne]
      rw [List.cons_append, splitLines, ih hrest, splitLines]
      split
      · rfl
      · obtain ⟨first, others, hsplit⟩ := List.exists_cons_of_ne_nil (splitLines_ne_nil hne)
        rw [hsplit]
        rfl

theorem eventsIn_append (r : Registry) {content : Bytes} (h : Complete content) (more : Bytes) :
    eventsIn r (content ++ more) = eventsIn r content ++ eventsIn r more := by
  rw [eventsIn, splitLines_append h, List.filterMap_append]
  rfl

theorem lostIn_append (r : Registry) {content : Bytes} (h : Complete content) (more : Bytes) :
    lostIn r (content ++ more) = lostIn r content ++ lostIn r more := by
  rw [lostIn, splitLines_append h, List.filterMap_append]
  rfl

theorem Complete.append {content more : Bytes} (h : Complete content) (hmore : Complete more) :
    Complete (content ++ more) := by
  intro b hb
  rw [List.getLast?_append] at hb
  cases hlast : more.getLast? with
  | none =>
    rw [hlast] at hb
    exact h b hb
  | some c =>
    rw [hlast] at hb
    exact hmore b (by rw [hlast]; exact hb)

theorem Kept.append {r : Registry} {content more : Bytes} (h : Kept r content) (hmore : Kept r more) :
    Kept r (content ++ more) := by
  refine ⟨h.complete.append hmore.complete, ?_⟩
  rw [lostIn_append r h.complete, h.lost, hmore.lost]
  rfl

theorem toBytes_ended (line : String) : Text.toBytes (line ++ "\n") = Text.toBytes line ++ [10] :=
  Text.toBytes_append line "\n"

theorem complete_ended (line : Bytes) : Complete (line ++ [10]) := by
  intro b hb
  rw [List.getLast?_concat] at hb
  exact (Option.some.inj hb).symm

theorem feed_not_mem_toBytes {line : String} (h : '\n' ∉ line.toList) : 10 ∉ Text.toBytes line :=
  fun hmem => h (Text.Utf8.mem_encode_ascii hmem (by decide))

/-- Lines that were ended are split again. -/
theorem splitLines_join {lines : List String} (h : ∀ line ∈ lines, '\n' ∉ line.toList) :
    splitLines (Text.toBytes (String.join (lines.map (· ++ "\n")))) = lines.map Text.toBytes := by
  induction lines with
  | nil => rfl
  | cons line rest ih =>
    obtain ⟨hline, hrest⟩ := List.forall_mem_cons.1 h
    rw [List.map_cons, String.join_cons, Text.toBytes_append, toBytes_ended,
      splitLines_append (complete_ended _), splitLines_ended (feed_not_mem_toBytes hline), ih hrest]
    rfl

theorem complete_join (lines : List String) :
    Complete (Text.toBytes (String.join (lines.map (· ++ "\n")))) := by
  induction lines with
  | nil => exact fun b hb => absurd hb (by simp [Text.toBytes, Text.Utf8.encode])
  | cons line rest ih =>
    rw [List.map_cons, String.join_cons, Text.toBytes_append, toBytes_ended]
    exact (complete_ended _).append ih

/-! ## The header -/

/-- Lines that start with `#` are comments. -/
theorem meaning_comment (r : Registry) {line : String} (h : ∀ c ∈ line.toList.head?, c = '#') :
    meaning r (Text.toBytes line) = .blank := by
  have hvoid : (Text.trimmed line).isEmpty || (Text.trimmed line).toList.head? == some '#' := by
    rw [Text.trimmed, String.toList_ofList]
    cases hchars : line.toList with
    | nil => rfl
    | cons c rest =>
      obtain rfl : c = '#' := h c (by rw [hchars]; rfl)
      -- trimming leaves a beginning of the line, and not an empty one
      have hstart : Text.trimStart ('#' :: rest) = '#' :: rest :=
        Text.dropWhile_of_head rfl (by decide)
      have hne : Text.trim ('#' :: rest) ≠ [] := fun hnil =>
        absurd (Text.trim_eq_nil_iff.1 hnil '#' (.head _)) (by decide)
      obtain ⟨first, more, heq⟩ := List.exists_cons_of_ne_nil hne
      obtain ⟨t, ht⟩ := Text.trimEnd_isPrefix (Text.trimStart ('#' :: rest))
      rw [show Text.trimEnd (Text.trimStart ('#' :: rest)) = first :: more from heq, hstart] at ht
      cases ht
      rw [heq]
      exact Bool.or_true _
  unfold meaning readLine
  dsimp only
  rw [Text.ofBytesLossy_toBytes, if_pos hvoid]
  rfl

def headerLines : List String :=
  ["# === Skript's variable storage ===", "# Please do not modify this file manually!", "#",
    "# version: 0.1.0", ""]

theorem header_eq : header = String.join (headerLines.map (· ++ "\n")) := by decide +kernel

/-- The header says nothing. -/
theorem kept_header (r : Registry) :
    Kept r (Text.toBytes header) ∧ eventsIn r (Text.toBytes header) = [] := by
  have hlines : ∀ line ∈ headerLines, '\n' ∉ line.toList ∧ ∀ c ∈ line.toList.head?, c = '#' := by
    simp [headerLines]
  have hblank : ∀ line ∈ headerLines, meaning r (Text.toBytes line) = .blank := fun line hline =>
    meaning_comment r (hlines line hline).2
  have hsplit := splitLines_join fun line hline => (hlines line hline).1
  have hcomplete := complete_join headerLines
  rw [← header_eq] at hsplit hcomplete
  refine ⟨⟨hcomplete, ?_⟩, ?_⟩
  · rw [lostIn, hsplit, List.filterMap_map, List.filterMap_eq_nil_iff]
    intro line hline
    rw [Function.comp_apply, hblank line hline]
    rfl
  · rw [eventsIn, hsplit, List.filterMap_map, List.filterMap_eq_nil_iff]
    intro line hline
    rw [Function.comp_apply, hblank line hline]
    rfl

/-! ## Lines that are written -/

/-- Whether a line can hold the name of a variable. -/
def Takes (name : String) : Prop := '\n' ∉ name.toList ∧ Csv.Readable name.toList

instance (name : String) : Decidable (Takes name) := inferInstanceAs (Decidable (_ ∧ _))

/-- The type and the data in the line of a change. -/
def fieldsOf : Option Saved → String × String
  | some saved => (saved.code, Text.Hex.encode saved.data)
  | none => (deletedType, "")

/-- What stands behind the name in the line of a change. -/
def tailOf (saved : Option Saved) : List Char :=
  ',' :: ' ' :: ((fieldsOf saved).1.toList ++ ',' :: ' ' :: (fieldsOf saved).2.toList)

/-- The line of a change, before it is ended. -/
def written (name : String) (saved : Option Saved) : String :=
  Csv.write [name, (fieldsOf saved).1, (fieldsOf saved).2]

theorem lineOf_eq (name : String) (saved : Option Saved) :
    lineOf (name, saved) = written name saved ++ "\n" := by
  cases saved <;> rfl

theorem toBytes_lineOf (name : String) (saved : Option Saved) :
    Text.toBytes (lineOf (name, saved)) = Text.toBytes (written name saved) ++ [10] := by
  rw [lineOf_eq, toBytes_ended]

theorem complete_lineOf (name : String) (saved : Option Saved) :
    Complete (Text.toBytes (lineOf (name, saved))) := by
  rw [toBytes_lineOf]
  exact complete_ended _

section

variable {saved : Option Saved} (hcode : ∀ s ∈ saved, Types.isCode s.code = true)

include hcode

theorem bare_fieldsOf : Csv.Bare (fieldsOf saved).1.toList ∧ Csv.Bare (fieldsOf saved).2.toList := by
  cases saved with
  | none => exact ⟨⟨by decide, by decide⟩, ⟨by decide, by decide⟩⟩
  | some saved => exact ⟨Csv.bare_of_isCode (hcode saved rfl), Csv.bare_hex saved.data⟩

/-- The fields of a line are read back, but for white space around the name. -/
theorem has_written (name : String) : Csv.Has (written name saved)
    [String.ofList (Csv.readBack name.toList), (fieldsOf saved).1, (fieldsOf saved).2] := by
  obtain ⟨hbare, hbare'⟩ := bare_fieldsOf hcode
  exact Csv.has_write name hbare hbare'

theorem toList_written (name : String) :
    (written name saved).toList = Csv.writeField name.toList ++ tailOf saved := by
  obtain ⟨hbare, hbare'⟩ := bare_fieldsOf hcode
  rw [written, Csv.write, String.toList_ofList]
  simp only [List.map_cons, List.map_nil, Csv.writeFields, hbare.writeField_eq, hbare'.writeField_eq]
  rfl

/-- Behind the name, a line has neither line feeds nor quotes. -/
theorem not_mem_tailOf : '\n' ∉ tailOf saved ∧ '"' ∉ tailOf saved := by
  have hplain : ∀ {field : List Char}, Csv.Bare field → '\n' ∉ field ∧ '"' ∉ field := fun h =>
    ⟨fun hmem => absurd (Csv.needsQuotes_eq_false.1 h.1 _ hmem).2.2.2 (by decide),
      fun hmem => (Csv.needsQuotes_eq_false.1 h.1 _ hmem).2.1 rfl⟩
  obtain ⟨hfeed, hquote⟩ := hplain (bare_fieldsOf hcode).1
  obtain ⟨hfeed', hquote'⟩ := hplain (bare_fieldsOf hcode).2
  simp [tailOf, hfeed, hfeed', hquote, hquote']

/-- A line is written in one line if the name is. -/
theorem feed_not_mem_written {name : String} (hname : '\n' ∉ name.toList) :
    '\n' ∉ (written name saved).toList := by
  rw [toList_written hcode, List.mem_append, not_or]
  refine ⟨fun hmem => ?_, (not_mem_tailOf hcode).1⟩
  rcases Csv.mem_writeField hmem with hmem | hmem
  · exact hname hmem
  · cases hmem

theorem splitLines_lineOf {name : String} (hname : '\n' ∉ name.toList) :
    splitLines (Text.toBytes (lineOf (name, saved))) = [Text.toBytes (written name saved)] := by
  rw [toBytes_lineOf]
  exact splitLines_ended (feed_not_mem_toBytes (feed_not_mem_written hcode hname))

end

section

variable {r : Registry} {v : Option Value} {saved : Option Saved} (hsaved : r.Recovers v saved)

include hsaved

theorem isCode_of_recovers : ∀ s ∈ saved, Types.isCode s.code = true := by
  intro s hs
  cases hs
  cases v with
  | none => exact hsaved.elim
  | some v => exact hsaved.isCode

/-- A line with these fields says what was changed, however its name is written. -/
theorem meaning_of_has {line name : String}
    (hline : Csv.Has line [name, (fieldsOf saved).1, (fieldsOf saved).2]) :
    meaning r (Text.toBytes line) = .event (name, v) := by
  obtain ⟨c, hhead, hhash⟩ := hline.head
  unfold meaning readLine
  dsimp only
  rw [Text.ofBytesLossy_toBytes, hline.split, if_neg]
  · cases saved with
    | none =>
      cases v with
      | none => rfl
      | some v => exact hsaved.elim
    | some saved =>
      cases v with
      | none => exact hsaved.elim
      | some v =>
        have hload : (r.deserialize saved.code saved.data).value = some v := hsaved.load
        simp only [fieldsOf, if_neg hsaved.unreserved, dataOf, Text.Hex.decode?_encode,
          Logged.value_bind, hload]
        rfl
  · rw [Bool.or_eq_true, not_or, hhead]
    refine ⟨fun hempty => ?_, by simpa using hhash⟩
    rw [String.isEmpty_iff.1 hempty] at hhead
    cases hhead

/-- A line that is written says what was changed, under the name that is read back. -/
theorem meaning_written (name : String) : meaning r (Text.toBytes (written name saved))
    = .event (String.ofList (Csv.readBack name.toList), v) :=
  meaning_of_has hsaved (has_written (isCode_of_recovers hsaved) name)

/-- **What is written of a change tells just that.** -/
theorem kept_lineOf {name : String} (hname : Takes name) :
    Kept r (Text.toBytes (lineOf (name, saved))) ∧
      eventsIn r (Text.toBytes (lineOf (name, saved))) = [(name, v)] := by
  have hmeaning := meaning_written hsaved name
  rw [Csv.readBack_eq_iff.2 hname.2, String.ofList_toList] at hmeaning
  have hsplit := splitLines_lineOf (isCode_of_recovers hsaved) hname.1
  refine ⟨⟨complete_lineOf name saved, ?_⟩, ?_⟩
  · rw [lostIn, hsplit, List.filterMap_cons, hmeaning]
    rfl
  · rw [eventsIn, hsplit, List.filterMap_cons, hmeaning]
    rfl

/-- A change that is appended to a content is told behind it. -/
theorem kept_append_lineOf {name : String} (hname : Takes name) {content : Bytes}
    (h : Kept r content) :
    Kept r (content ++ Text.toBytes (lineOf (name, saved))) ∧
      eventsIn r (content ++ Text.toBytes (lineOf (name, saved)))
        = eventsIn r content ++ [(name, v)] := by
  obtain ⟨hkept, hevents⟩ := kept_lineOf hsaved hname
  refine ⟨h.append hkept, ?_⟩
  rw [eventsIn_append r h.complete, hevents]

end

/-! ## Loading and saving -/

/-- Whether a storage that is not connected can be loaded without loss. -/
structure Loadable (r : Registry) (d : Disk) (f : FlatFile) : Prop where
  plain : f.route.Plain
  handle : f.handle = none
  kept : Kept r (d.contentAt f.route.parts)

/-- Whether a storage is loaded and takes changes. -/
structure Works (r : Registry) (d : Disk) (f : FlatFile) : Prop where
  plain : f.route.Plain
  loaded : f.loaded = true
  locate : d.locate f.route = .ok f.route.parts
  file : ∃ file, d.files.get? f.route.parts = some file ∧ f.handle = some file.number
  kept : Kept r (d.contentAt f.route.parts)

/-- The content of a file that is open: a new one has a header. -/
def opened (content : Bytes) : Bytes := if content.isEmpty then Text.toBytes header else content

theorem kept_opened {r : Registry} {content : Bytes} (h : Kept r content) :
    Kept r (opened content) ∧ eventsIn r (opened content) = eventsIn r content := by
  cases content with
  | nil =>
    rw [opened, if_pos List.isEmpty_nil]
    exact kept_header r
  | cons b rest => exact ⟨h, rfl⟩

section

variable {d d' : Disk} {f : FlatFile}

/-- Opening is making the directory, opening the file there, and writing the header of a new one. -/
theorem out_openFile {d₁ d₂ : Disk} {file : Disk.File}
    (hmade : d.createDirectories f.route.parent = (d₁, .ok ()))
    (hopen : d₁.openFile f.route = .ok (file, d₂)) :
    f.openFile.out d = (.ok file.number,
      if file.content.isEmpty then d₂.append file.number (Text.toBytes header) else d₂) := by
  rw [openFile, Work.out_bind, out_createDirectories, hmade]
  dsimp only [Except.mapError]
  rw [Work.out_bind, Work.out_get]
  dsimp only
  rw [hopen]
  rfl

/-- There is no other way to open a file. -/
theorem openFile_eq_ok {handle : Disk.Handle} (h : f.openFile.out d = (.ok handle, d')) :
    ∃ d₁ d₂ file, d.createDirectories f.route.parent = (d₁, .ok ()) ∧
      d₁.openFile f.route = .ok (file, d₂) ∧ handle = file.number ∧
      d' = if file.content.isEmpty then d₂.append file.number (Text.toBytes header) else d₂ := by
  cases hmade : d.createDirectories f.route.parent with
  | mk d₁ result =>
    cases result with
    | error e =>
      rw [openFile, Work.out_bind, out_createDirectories, hmade] at h
      cases h
    | ok u =>
      cases hopen : d₁.openFile f.route with
      | error e =>
        rw [openFile, Work.out_bind, out_createDirectories, hmade] at h
        dsimp only [Except.mapError] at h
        rw [Work.out_bind, Work.out_get] at h
        dsimp only at h
        rw [hopen] at h
        cases h
      | ok opened =>
        obtain ⟨file, d₂⟩ := opened
        rw [out_openFile hmade hopen] at h
        cases h
        exact ⟨d₁, d₂, file, rfl, hopen, rfl, rfl⟩

variable (hf : f.route.Plain) (hd : d.Sound)

include hf hd

/-- A file that was opened is there, with all that was in it. -/
theorem openFile_spec {handle : Disk.Handle} (h : f.openFile.out d = (.ok handle, d')) :
    d'.Sound ∧ d.ChangesOnly d' f.route.parts ∧ d'.locate f.route = .ok f.route.parts ∧
      ∃ file, d'.files.get? f.route.parts = some file ∧ file.number = handle ∧
        file.content = opened (d.contentAt f.route.parts) := by
  obtain ⟨d₁, d₂, file, hmade, hopen, rfl, rfl⟩ := openFile_eq_ok h
  have hbuilds := Disk.createDirectories_builds d f.route.parent
  rw [hmade] at hbuilds
  obtain ⟨hfile, hcontent⟩ := Disk.get?_of_openFile hf hopen
  have hsound := (hbuilds.sound hd).openFile hf hopen
  have hchanges := (hbuilds.changesOnly _).trans (Disk.changesOnly_of_openFile hf hopen)
  have hlocate := Disk.locate_of_openFile hf hopen
  rw [hbuilds.contentAt] at hcontent
  split
  · next hempty =>
    -- a new file gets its header
    have happend := Disk.changesOnly_append hsound hfile (Text.toBytes header)
    refine ⟨hsound.append _ _, hchanges.trans happend, happend.locate hf hlocate, _,
      Disk.get?_append_self hfile _, rfl, ?_⟩
    rw [opened, ← hcontent, if_pos hempty, List.isEmpty_iff.1 hempty, List.nil_append]
  · next hempty =>
    refine ⟨hsound, hchanges, hlocate, file, hfile, rfl, ?_⟩
    rw [opened, ← hcontent, if_neg hempty]

/-- A file that is there can be opened. -/
theorem openFile_of_file (hlocate : d.locate f.route = .ok f.route.parts)
    (hfile : d.hasFile f.route.parts = true) : ∃ handle d', f.openFile.out d = (.ok handle, d') := by
  obtain ⟨file, hget⟩ := Disk.hasFile_iff.1 hfile
  have hmade := Disk.createDirectories_parent hf hlocate
  exact ⟨_, _, out_openFile hmade (Disk.openFile_of_file hf hd hlocate hget)⟩

end

section

variable {r : Registry} {d d' : Disk} {f f' : FlatFile}

theorem out_readFile (h : Kept r ((d.read f.route).toOption.getD [])) :
    (f.readFile r).out d = (eventsIn r ((d.read f.route).toOption.getD []), d) := by
  unfold readFile
  rw [Work.out_bind, Work.out_get]
  dsimp only
  rw [Work.out_bind, Work.out_lift, value_readLines, h.lost]
  rfl

theorem out_connect (h : f.handle = none) : f.connect.out d = match f.openFile.out d with
      | (.ok handle, d') => (({ f with handle := some handle }, .ok ()), d')
      | (.error e, d') => ((f, .error e), d') := by
  unfold connect
  rw [connected, h]
  dsimp only [Option.isSome_none]
  rw [if_neg Bool.false_ne_true, Work.out_bind]
  generalize f.openFile.out d = result
  obtain ⟨result, d₁⟩ := result
  cases result <;> rfl

/-- If nothing is lost, loading is reading and connecting. -/
theorem out_load (hhandle : f.handle = none) (hkept : Kept r ((d.read f.route).toOption.getD [])) :
    (f.load r).out d = if d.isDirectory f.route then (⟨f, [], some (.notAFile (d.shown f.file))⟩, d)
      else match f.openFile.out d with
        | (.ok handle, d') => (⟨{ f with handle := some handle, loaded := true },
            eventsIn r ((d.read f.route).toOption.getD []), none⟩, d')
        | (.error e, d') => (⟨f, eventsIn r ((d.read f.route).toOption.getD []), some e⟩, d') := by
  unfold load
  rw [Work.out_bind, Work.out_get]
  dsimp only
  split
  · rfl
  · rw [Work.out_bind, out_readFile hkept, Work.out_bind, out_connect hhandle]
    generalize f.openFile.out d = result
    obtain ⟨result, d₁⟩ := result
    cases result <;> rfl

theorem Loadable.kept_read (hf : f.Loadable r d) : Kept r ((d.read f.route).toOption.getD []) := by
  rcases Disk.read_cases hf.plain with hread | hread <;> rw [hread]
  · exact hf.kept
  · exact kept_nil r

/-- **A storage that was loaded has handed over what is in the file**, and works. -/
theorem Loadable.load_spec (hf : f.Loadable r d) (hd : d.Sound) {events : List Event}
    (h : (f.load r).out d = (⟨f', events, none⟩, d')) :
    events = eventsIn r (d.contentAt f.route.parts) ∧ f'.file = f.file ∧ f'.Works r d' ∧ d'.Sound ∧
      d.ChangesOnly d' f.route.parts ∧
      eventsIn r (d'.contentAt f.route.parts) = eventsIn r (d.contentAt f.route.parts) := by
  rw [out_load hf.handle hf.kept_read] at h
  split at h
  · cases h
  · split at h
    · next handle d₁ hopen =>
      cases h
      obtain ⟨hsound, hchanges, hlocate, file, hget, hnumber, hcontent⟩ :=
        openFile_spec hf.plain hd hopen
      obtain ⟨hkept, hevents⟩ := kept_opened hf.kept
      rw [← hcontent, ← Disk.contentAt_of_file hget] at hkept hevents
      have hread := Disk.read_eq hf.plain hd hchanges hlocate
      refine ⟨by rw [hread], rfl, ⟨hf.plain, rfl, hlocate, ⟨file, hget, ?_⟩, hkept⟩, hsound, hchanges,
        hevents⟩
      rw [hnumber]
    · cases h

/-- A storage whose file is there can be loaded. -/
theorem Loadable.load_of_file (hf : f.Loadable r d) (hd : d.Sound)
    (hlocate : d.locate f.route = .ok f.route.parts) (hfile : d.hasFile f.route.parts = true) :
    ∃ f' events d', (f.load r).out d = (⟨f', events, none⟩, d') := by
  have hdirectory : d.isDirectory f.route = false := by
    rw [Disk.isDirectory, hlocate]
    exact hd.apart hfile
  obtain ⟨handle, d₁, hopen⟩ := openFile_of_file hf.plain hd hlocate hfile
  rw [out_load hf.handle hf.kept_read, if_neg (by rw [hdirectory]; exact Bool.false_ne_true), hopen]
  exact ⟨_, _, _, rfl⟩

/-- A storage that is connected appends every change, but for deletions before it is loaded. -/
theorem out_save_open {handle : Disk.Handle} (hhandle : f.handle = some handle) (change : Change) :
    (f.save change).out d = if change.2.isNone && !f.loaded then ((f, .ok ()), d)
      else (({ f with changes := f.changes + 1 }, .ok ()),
        d.append handle (Text.toBytes (lineOf change))) := by
  unfold save
  rw [hhandle]
  split <;> rfl

/-- One that is closed refuses them instead. -/
theorem out_save_closed (hhandle : f.handle = none) (change : Change) :
    (f.save change).out d = ((f, if change.2.isNone && !f.loaded then .ok ()
      else .error (.closed (d.shown f.file))), d) := by
  unfold save
  split
  · rfl
  · rw [hhandle]
    rfl

theorem out_save (hloaded : f.loaded = true) {handle : Disk.Handle} (hhandle : f.handle = some handle)
    (change : Change) : (f.save change).out d
      = (({ f with changes := f.changes + 1 }, .ok ()),
          d.append handle (Text.toBytes (lineOf change))) := by
  rw [out_save_open hhandle, hloaded, Bool.not_true, Bool.and_false, if_neg Bool.false_ne_true]

/-- A replacement in its three steps. -/
theorem out_replace (f : FlatFile) (vars : List (String × Saved)) (d : Disk) :
    (f.replace vars).out d =
      match d.write (.ofText (f.file ++ ".temp")) (Text.toBytes (contentOf vars)) with
      | .error e => ((f.disconnect, .error (.file e)), d)
      | .ok d₁ =>
        match d₁.rename (.ofText (f.file ++ ".temp")) f.route with
        | .error e => ((f.disconnect, .error (.file e)), d₁)
        | .ok d₂ =>
          if f.connected then (connect { f.disconnect with changes := 0 }).out d₂
          else (({ f.disconnect with changes := 0 }, .ok ()), d₂) := by
  unfold replace
  generalize Text.toBytes (contentOf vars) = content
  rw [Work.out_bind]
  cases hwrite : d.write (.ofText (f.file ++ ".temp")) content with
  | error e =>
    rw [out_onDisk_error hwrite]
    rfl
  | ok d₁ =>
    rw [out_onDisk hwrite]
    dsimp only
    rw [Work.out_bind]
    cases hrename : d₁.rename (.ofText (f.file ++ ".temp")) f.route with
    | error e =>
      rw [out_onDisk_error hrename]
      rfl
    | ok d₂ =>
      rw [out_onDisk hrename]
      dsimp only
      split <;> rfl

/-- **A change that is saved is appended to the events.** -/
theorem Works.save_spec (hf : f.Works r d) (hd : d.Sound) (hr : r.Faithful) {v : Option Value}
    {saved : Option Saved} (hsaved : r.Writes v saved) {name : String} (hname : Takes name) :
    ∃ f' d', (f.save (name, saved)).out d = ((f', .ok ()), d') ∧ f'.file = f.file ∧ f'.Works r d' ∧
      d'.Sound ∧ d.ChangesOnly d' f.route.parts ∧
      eventsIn r (d'.contentAt f.route.parts)
        = eventsIn r (d.contentAt f.route.parts) ++ [(name, v)] := by
  obtain ⟨file, hget, hhandle⟩ := hf.file
  have hkept := hf.kept
  rw [Disk.contentAt_of_file hget] at hkept ⊢
  obtain ⟨hkept', hevents⟩ := kept_append_lineOf (hr.recovers hsaved) hname hkept
  have hchanges := Disk.changesOnly_append hd hget (Text.toBytes (lineOf (name, saved)))
  have hself := Disk.get?_append_self hget (Text.toBytes (lineOf (name, saved)))
  have hcontent := Disk.contentAt_of_file hself
  refine ⟨{ f with changes := f.changes + 1 },
    d.append file.number (Text.toBytes (lineOf (name, saved))), out_save hf.loaded hhandle _, rfl,
    ⟨hf.plain, hf.loaded, hchanges.locate hf.plain hf.locate, ⟨_, hself, hhandle⟩, ?_⟩,
    hd.append _ _, hchanges, ?_⟩
  · show Kept r (Disk.contentAt _ f.route.parts)
    rw [hcontent]
    exact hkept'
  · rw [hcontent]
    exact hevents

end

end ScriptStore.Storage.FlatFile
