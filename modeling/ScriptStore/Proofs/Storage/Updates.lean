import Mathlib.Data.List.Induction
import ScriptStore.Proofs.Storage.Backend
import ScriptStore.Proofs.Types.Built

/-!
# Updates of a storage

A storage that is loaded takes changes to single variables, and lists that replace all of them. Such
updates describe a map from names to values (`Update.described`), and what every storage keeps says
such a map (`Backend.Says`): a text file by what its lines leave behind when they are replayed, a
storage in memory and a table by their records. An update takes the map to the one that it describes
(`Backend.Holds.run_spec`).

Only one thing can go wrong. A text file is replaced by way of another file beside it, and if that
cannot be written, the replacement is refused and the storage is closed (`Backend.Shut`). From then
on it refuses all updates, and the file stays as it was. So whatever becomes of a list of updates, the
storage says the map that those describe which were accepted (`Backend.Holds.runAll_spec`).

Files may be reached over routes that turn back on their way. All that a text file needs is that the
directories stay the same, and no update makes any.
-/

namespace ScriptStore.Storage

open History (told)
open Text (Bytes)
open ScriptStore.Types (Registry Saved)

/-! ## Maps -/

/-- The values of variables by their names. -/
abbrev Bindings := String → Option Value

/-- What events leave behind: a value binds the name, and none unbinds it. -/
def replay (events : List Event) : Bindings :=
  events.foldl (fun m e => Function.update m e.1 e.2) fun _ => none

theorem replay_concat (events : List Event) (e : Event) :
    replay (events ++ [e]) = Function.update (replay events) e.1 e.2 := by
  rw [replay, List.foldl_append]
  rfl

/-- What is left of a variable is the end of what was told of it. -/
theorem replay_apply (events : List Event) (name : String) :
    replay events name = (told name events).final := by
  induction events using List.reverseRecOn with
  | nil => rfl
  | append_singleton events e ih =>
    rw [replay_concat, Function.update_apply, History.told_append, History.told_cons,
      History.told_nil]
    by_cases h : name = e.1
    · rw [if_pos h, if_pos h.symm, History.final, List.getLast?_concat]
      rfl
    · rw [if_neg h, if_neg (Ne.symm h), List.append_nil]
      exact ih

/-- Events that tell at most a value of every variable leave just that. -/
theorem replay_of_told {events : List Event} {m : Bindings}
    (h : ∀ name, told name events = (m name).toList.map some) : replay events = m := by
  funext name
  rw [replay_apply, h name]
  cases m name <;> rfl

/-! ## Updates -/

/-- An update of a storage that is loaded. -/
inductive Update where
  | save (name : String) (saved : Option Saved)
  | replace (vars : List (String × Saved))

namespace Update

def run (u : Update) (b : Backend) : Work Reply :=
  match u with
  | .save name saved => b.save (name, saved)
  | .replace vars => b.replace vars

/-- Runs updates in turn, and gives the answers. -/
def runAll : List Update → Backend → Work (Backend × List (Except Error Unit))
  | [], b => pure (b, [])
  | u :: rest, b => do
    let (b, answer) ← u.run b
    let (b, answers) ← runAll rest b
    return (b, answer :: answers)

/-- The map that an update makes of another one. -/
def apply (r : Registry) (m : Bindings) : Update → Bindings
  | .save name saved => Function.update m name (saved.bind fun saved => (r.load saved).value)
  | .replace vars => replay (vars.map fun e => (e.1, (r.load e.2).value))

/-- The map that updates describe. -/
def described (r : Registry) (updates : List Update) : Bindings :=
  updates.foldl (apply r) fun _ => none

/-- How updates are answered: all are accepted, or those up to a replacement that there is no room
for. That one and the rest are refused. -/
def Answered (room : Prop) (updates accepted : List Update) (answers : List (Except Error Unit)) :
    Prop :=
  (accepted = updates ∧ answers = updates.map fun _ => .ok ()) ∨
  (¬room ∧ ∃ vars rest, ∃ errors : List Error, updates = accepted ++ .replace vars :: rest ∧
    errors.length = rest.length + 1 ∧
    answers = accepted.map (fun _ => .ok ()) ++ errors.map .error)

theorem Answered.cons {room : Prop} {updates accepted : List Update}
    {answers : List (Except Error Unit)} (h : Answered room updates accepted answers) (u : Update) :
    Answered room (u :: updates) (u :: accepted) (.ok () :: answers) := by
  rcases h with ⟨rfl, rfl⟩ | ⟨hroom, vars, rest, errors, rfl, hlength, rfl⟩
  · exact .inl ⟨rfl, rfl⟩
  · exact .inr ⟨hroom, vars, rest, errors, rfl, hlength, rfl⟩

/-- Whether all names in an update, and all that it saves, have a property. -/
def Uses (name : String → Prop) (saved : Saved → Prop) : Update → Prop
  | .save n s => name n ∧ ∀ x ∈ s, saved x
  | .replace vars => ∀ e ∈ vars, name e.1 ∧ saved e.2

theorem Uses.imp {name : String → Prop} {saved saved' : Saved → Prop} {u : Update}
    (h : u.Uses name saved) (himp : ∀ s, saved s → saved' s) : u.Uses name saved' := by
  cases u with
  | save n s => exact ⟨h.1, fun x hx => himp x (h.2 x hx)⟩
  | replace vars => exact fun e he => ⟨(h e he).1, himp e.2 (h e he).2⟩

end Update

/-- What can be loaded is recovered. -/
theorem recovers_load {r : Registry} {saved : Option Saved} (h : ∀ s ∈ saved, ∃ v, r.LoadsAs s v) :
    r.Recovers (saved.bind fun s => (r.load s).value) saved := by
  cases saved with
  | none => trivial
  | some s =>
    obtain ⟨v, hv⟩ := h s rfl
    rw [Option.bind_some, hv.load]
    exact hv

/-! ## Text files -/

namespace FlatFile

/-- Lines that are written in turn tell just that. -/
theorem kept_linesOf {r : Registry} {vars : List (String × Saved)}
    (hvars : ∀ e ∈ vars, Takes e.1 ∧ ∃ v, r.LoadsAs e.2 v) :
    Kept r (Text.toBytes (String.join (vars.map fun e => lineOf (e.1, some e.2)))) ∧
      eventsIn r (Text.toBytes (String.join (vars.map fun e => lineOf (e.1, some e.2))))
        = vars.map fun e => (e.1, (r.load e.2).value) := by
  induction vars with
  | nil => exact ⟨kept_nil r, rfl⟩
  | cons e rest ih =>
    obtain ⟨⟨hname, v, hv⟩, hrest⟩ := List.forall_mem_cons.1 hvars
    have hone : r.Recovers (some v) (some e.2) := hv
    obtain ⟨hkept, hevents⟩ := kept_lineOf hone hname
    obtain ⟨hkept', hevents'⟩ := ih hrest
    rw [List.map_cons, String.join_cons, Text.toBytes_append]
    refine ⟨hkept.append hkept', ?_⟩
    rw [eventsIn_append r hkept.complete, hevents, hevents', List.map_cons, hv.load]
    rfl

/-- A file that is written anew says what it was given. -/
theorem kept_contentOf {r : Registry} {vars : List (String × Saved)}
    (hvars : ∀ e ∈ vars, Takes e.1 ∧ ∃ v, r.LoadsAs e.2 v) :
    Kept r (Text.toBytes (contentOf vars)) ∧
      eventsIn r (Text.toBytes (contentOf vars)) = vars.map fun e => (e.1, (r.load e.2).value) := by
  obtain ⟨hkept, hevents⟩ := kept_header r
  obtain ⟨hkept', hevents'⟩ := kept_linesOf hvars
  rw [contentOf, Text.toBytes_append]
  refine ⟨hkept.append hkept', ?_⟩
  rw [eventsIn_append r hkept.complete, hevents]
  exact hevents'

theorem toBytes_header_ne_nil : Text.toBytes header ≠ [] := by
  intro hnil
  have hheader : header = Text.ofBytesLossy [] := by rw [← hnil, Text.ofBytesLossy_toBytes]
  exact absurd hheader (by decide)

/-- Whether the file where the route of a storage leads says what a map does. -/
structure Says (r : Registry) (d : Disk) (f : FlatFile) (file : Disk.File) (m : Bindings) : Prop where
  place : ∃ q part, d.Writable f.route q part ∧ d.files.get? (q ++ [part]) = some file
  content : file.content ≠ []
  kept : Kept r file.content
  leaves : replay (eventsIn r file.content) = m

/-- Whether a storage is loaded, and has the file open that says what a map does. -/
structure Holds (r : Registry) (d : Disk) (f : FlatFile) (m : Bindings) : Prop where
  loaded : f.loaded = true
  file : ∃ file, f.Says r d file m ∧ f.handle = some file.number

/-- Whether a storage was closed because there is no room to write its file anew. -/
structure Shut (r : Registry) (d : Disk) (f : FlatFile) (m : Bindings) : Prop where
  loaded : f.loaded = true
  handle : f.handle = none
  file : ∃ file, f.Says r d file m
  full : ∀ p, d.writable (.ofText (f.file ++ ".temp")) ≠ .ok p

section

variable {r : Registry} {d d' : Disk} {f f' : FlatFile} {q : Disk.Path} {part : String}
  {file : Disk.File} {m : Bindings}

/-- A file that is there and has its header is opened as it is. -/
theorem out_openFile_of_found (hfile : d.Finds f.route file) (hne : file.content ≠ []) :
    f.openFile.out d = (.ok file.number, d) := by
  obtain ⟨q, part, hw, hget⟩ := hfile
  have hmade := hw.toEndsAt.createDirectories_parent hw.unslashed
  rw [out_openFile hmade (hw.openFile_eq hget),
    if_neg fun hempty => hne (List.isEmpty_iff.1 hempty)]

/-- A file that was opened is where the route leads, and has a header at least. -/
theorem found_of_openFile {handle : Disk.Handle} (h : f.openFile.out d = (.ok handle, d')) :
    ∃ file, d'.Finds f.route file ∧ file.number = handle ∧ file.content ≠ [] := by
  obtain ⟨d₁, d₂, file, -, hopen, rfl, rfl⟩ := openFile_eq_ok h
  obtain ⟨q, part, hw, hget⟩ := Disk.exists_writable_of_openFile hopen
  split
  · -- a new file gets its header
    refine ⟨_, Disk.Finds.append ⟨q, part, hw, hget⟩ _, rfl, fun hnil => ?_⟩
    exact toBytes_header_ne_nil (List.append_eq_nil_iff.1 hnil).2
  · next hempty => exact ⟨file, ⟨q, part, hw, hget⟩, rfl, by simpa using hempty⟩

/-- A storage that was loaded has its file open, whatever was in it. -/
theorem open_of_load (hf : f.handle = none) {es : List Event}
    (h : (f.load r).out d = (⟨f', es, none⟩, d')) :
    f'.loaded = true ∧ f'.file = f.file ∧ ∃ file, d'.Finds f'.route file ∧
      f'.handle = some file.number ∧ file.content ≠ [] := by
  unfold load at h
  rw [Work.out_bind, Work.out_get] at h
  dsimp only at h
  split at h
  · cases h
  · rw [Work.out_bind, Work.out_bind, out_connect hf] at h
    generalize ((f.readFile r).out d).2 = d₀ at h
    cases hopen : f.openFile.out d₀ with
    | mk result d₁ =>
      rw [hopen] at h
      cases result with
      | error e => cases h
      | ok handle =>
        cases h
        obtain ⟨file, hfound, hnumber, hne⟩ := found_of_openFile hopen
        exact ⟨rfl, rfl, file, hfound, by rw [hnumber], hne⟩

/-- A change is appended to what the file says. -/
theorem Holds.save_spec (h : f.Holds r d m) {v : Option Value} {saved : Option Saved}
    (hsaved : r.Recovers v saved) {name : String} (hname : Takes name) :
    ∃ f' d', (f.save (name, saved)).out d = ((f', .ok ()), d') ∧ f'.file = f.file ∧
      f'.Holds r d' (Function.update m name v) ∧ d.SameTree d' := by
  obtain ⟨file, hsays, hhandle⟩ := h.file
  obtain ⟨q, part, hw, hget⟩ := hsays.place
  obtain ⟨hkept, hevents⟩ := kept_append_lineOf hsaved hname hsays.kept
  have hself := Disk.get?_append_self hget (Text.toBytes (lineOf (name, saved)))
  have hsave := out_save (d := d) h.loaded hhandle (name, saved)
  generalize Text.toBytes (lineOf (name, saved)) = line at hkept hevents hself hsave
  have htree := Disk.sameTree_append d file.number line
  refine ⟨{ f with changes := f.changes + 1 }, d.append file.number line, hsave, rfl,
    ⟨h.loaded, ⟨file.number, file.content ++ line⟩,
      ⟨⟨q, part, hw.sameTree htree, hself⟩, ?_, hkept, ?_⟩, hhandle⟩, htree⟩
  · exact fun hnil => hsays.content (List.append_eq_nil_iff.1 hnil).1
  · rw [hevents, replay_concat, hsays.leaves]

/-- A file that is written anew, and moved over the old one, says what it was given. -/
theorem Holds.replace_spec (h : f.Holds r d m) {vars : List (String × Saved)}
    (hvars : ∀ e ∈ vars, Takes e.1 ∧ ∃ v, r.LoadsAs e.2 v) {p : Disk.Path}
    (hroom : d.writable (.ofText (f.file ++ ".temp")) = .ok p) :
    ∃ f' d', (f.replace vars).out d = ((f', .ok ()), d') ∧ f'.file = f.file ∧
      f'.Holds r d' (replay (vars.map fun e => (e.1, (r.load e.2).value))) ∧ d.SameTree d' := by
  obtain ⟨file, hsays, hhandle⟩ := h.file
  obtain ⟨q, part, hw, -⟩ := hsays.place
  obtain ⟨q', part', htemp, rfl⟩ := Disk.writable_iff.1 hroom
  obtain ⟨hkept, hevents⟩ := kept_contentOf hvars
  have hne : Text.toBytes (contentOf vars) ≠ [] := by
    rw [contentOf, Text.toBytes_append]
    exact fun hnil => toBytes_header_ne_nil (List.append_eq_nil_iff.1 hnil).1
  rw [out_replace]
  generalize Text.toBytes (contentOf vars) = content at hkept hevents hne ⊢
  -- the new file is written beside the old one, and moved to where that was
  obtain ⟨d₁, number, hwrite, htree₁, hwritten⟩ := htemp.exists_write content
  have hplace := hw.sameTree htree₁
  obtain ⟨d₂, hrename, htree₂, hmoved⟩ := (htemp.sameTree htree₁).exists_rename hplace hwritten
  have hagain := hplace.sameTree htree₂
  have hconnect := out_openFile_of_found (f := { f.disconnect with changes := 0 })
    ⟨q, part, hagain, hmoved⟩ hne
  refine ⟨{ f with handle := some number, changes := 0 }, d₂, ?_, rfl, ⟨h.loaded, ⟨number, content⟩,
    ⟨⟨q, part, hagain, hmoved⟩, hne, hkept, by rw [hevents]⟩, rfl⟩, htree₁.trans htree₂⟩
  rw [hwrite]
  dsimp only
  rw [hrename]
  dsimp only
  rw [if_pos (by rw [connected, hhandle]; rfl), out_connect rfl, hconnect]
  rfl

/-- Where there is no room for another file, a replacement fails and leaves the storage closed. -/
theorem out_replace_full (vars : List (String × Saved))
    (hfull : ∀ p, d.writable (.ofText (f.file ++ ".temp")) ≠ .ok p) :
    ∃ e, (f.replace vars).out d = ((f.disconnect, .error e), d) := by
  rw [out_replace]
  generalize Text.toBytes (contentOf vars) = content
  cases hroom : d.writable (.ofText (f.file ++ ".temp")) with
  | ok p => exact absurd hroom (hfull p)
  | error e =>
    have hwrite : d.write (.ofText (f.file ++ ".temp")) content = .error e := by
      rw [Disk.write, hroom]
      rfl
    exact ⟨.file e, by rw [hwrite]⟩

theorem Holds.shut (h : f.Holds r d m)
    (hfull : ∀ p, d.writable (.ofText (f.file ++ ".temp")) ≠ .ok p) : f.disconnect.Shut r d m := by
  obtain ⟨file, hsays, -⟩ := h.file
  exact ⟨h.loaded, rfl, ⟨file, hsays.place, hsays.content, hsays.kept, hsays.leaves⟩, hfull⟩

/-- A storage that was closed so refuses changes. -/
theorem Shut.out_save (h : f.Shut r d m) (change : Change) :
    (f.save change).out d = ((f, .error (.closed (d.shown f.file))), d) := by
  rw [out_save_closed h.handle, h.loaded, Bool.not_true, Bool.and_false, if_neg Bool.false_ne_true]

theorem Shut.out_replace (h : f.Shut r d m) (vars : List (String × Saved)) :
    ∃ e, (f.replace vars).out d = ((f, .error e), d) := by
  have hclosed : f.disconnect = f := by
    rw [disconnect, ← h.handle]
  obtain ⟨e, hreplace⟩ := out_replace_full vars h.full
  rw [hclosed] at hreplace
  exact ⟨e, hreplace⟩

end

end FlatFile

/-! ## Storage in memory -/

namespace Memory

variable {r : Registry} {m : Memory}

/-- The values of entries by their names. -/
def bindings (r : Registry) (m : Memory) : Bindings := fun name =>
  (m.get? name).bind fun saved => (r.load saved).value

theorem replay_load (h : m.Kept r) : replay (m.load r).value = m.bindings r :=
  replay_of_told (told_load h.keys r)

theorem bindings_save (m : Memory) (name : String) (saved : Option Saved) :
    (m.save (name, saved)).bindings r
      = Function.update (m.bindings r) name (saved.bind fun saved => (r.load saved).value) := by
  funext name'
  rw [bindings, get?_save, Function.update_apply]
  by_cases h : name' = name
  · rw [if_pos h.symm, if_pos h]
  · rw [if_neg (Ne.symm h), if_neg h]
    rfl

theorem kept_empty (r : Registry) : Kept r {} := .of_entries .nil nofun

/-- Entries that are put in turn bind as events do. -/
theorem Kept.saveAll {vars : List (String × Saved)}
    (hvars : ∀ e ∈ vars, ∃ v, (r.load e.2).value = some v) (h : m.Kept r) :
    (vars.foldl (fun m e => m.save (e.1, some e.2)) m).Kept r ∧
      (vars.foldl (fun m e => m.save (e.1, some e.2)) m).bindings r
        = (vars.map fun e => (e.1, (r.load e.2).value)).foldl
            (fun m e => Function.update m e.1 e.2) (m.bindings r) := by
  induction vars generalizing m with
  | nil => exact ⟨h, rfl⟩
  | cons e rest ih =>
    obtain ⟨he, hrest⟩ := List.forall_mem_cons.1 hvars
    have hone : (m.save (e.1, some e.2)).Kept r := by
      refine h.save e.1 fun s hs => ?_
      rw [← Option.some.inj hs]
      exact he
    rw [List.map_cons, List.foldl_cons, List.foldl_cons,
      ← show _ = Function.update (m.bindings r) e.1 (r.load e.2).value from
        bindings_save m e.1 (some e.2)]
    exact ih hrest hone

theorem ofEntries_eq (vars : List (String × Saved)) :
    ofEntries vars = vars.foldl (fun m e => m.save (e.1, some e.2)) {} := by
  have hfold : ∀ (vars : List (String × Saved)) (entries : Dict String Saved),
      (⟨vars.foldl (fun d e => d.insert e.1 e.2) entries⟩ : Memory)
        = vars.foldl (fun m e => m.save (e.1, some e.2)) ⟨entries⟩ := by
    intro vars
    induction vars with
    | nil => exact fun _ => rfl
    | cons e rest ih => exact fun entries => ih (entries.insert e.1 e.2)
  exact hfold vars {}

end Memory

/-! ## Tables -/

namespace Table

variable {r : Registry} {d : Disk} {t : Table} {m m' : Bindings}

/-- The values in records by the names of their variables. -/
def bindings (r : Registry) (records : Dict Bytes Bytes) : Bindings := fun name =>
  (records.get? (Text.toBytes name)).bind (valueIn r)

theorem replay_eventsIn {records : Dict Bytes Bytes} (h : Kept r records) :
    replay (eventsIn r records) = bindings r records := replay_of_told (told_eventsIn h)

theorem bindings_change (records : Dict Bytes Bytes) (name : String) (record : Option Bytes) :
    bindings r (change records (Text.toBytes name) record)
      = Function.update (bindings r records) name (record.bind (valueIn r)) := by
  funext name'
  rw [bindings, get?_change, Function.update_apply]
  by_cases h : name' = name
  · rw [h, if_pos rfl, if_pos rfl]
  · rw [if_neg (Text.toBytes_injective.ne (Ne.symm h)), if_neg h]
    rfl

theorem kept_empty (r : Registry) : Kept r {} := ⟨.nil, nofun, nofun⟩

/-- Records that are put in turn bind as events do. -/
theorem Kept.putAll {vars : List (String × Saved)}
    (hvars : ∀ e ∈ vars, Takes e.1 ∧ ∃ v, r.LoadsAs e.2 v) {records : Dict Bytes Bytes}
    (h : Kept r records) :
    ∃ records', putAll records vars = .ok records' ∧ Kept r records' ∧
      bindings r records' = (vars.map fun e => (e.1, (r.load e.2).value)).foldl
        (fun m e => Function.update m e.1 e.2) (bindings r records) := by
  induction vars generalizing records with
  | nil => exact ⟨records, rfl, h, rfl⟩
  | cons e rest ih =>
    obtain ⟨⟨hname, v, hv⟩, hrest⟩ := List.forall_mem_cons.1 hvars
    have hone : r.Recovers (some v) (some e.2) := hv
    obtain ⟨record, hvalue, hloads, hput⟩ := put_or_erase hone hname records
    obtain ⟨records', hputs, hkept, hbindings⟩ := ih hrest (h.change e.1 hloads)
    refine ⟨records', ?_, hkept, ?_⟩
    · rw [Table.putAll, show put records e.1 e.2 = _ from hput]
      exact hputs
    · rw [hbindings, bindings_change, hvalue, List.map_cons, List.foldl_cons, hv.load]

/-- Whether the records where the route of a table leads say what a map does. -/
structure Says (r : Registry) (d : Disk) (t : Table) (p : Disk.Path) (m : Bindings) : Prop where
  locate : d.locate t.route = .ok p
  directory : d.hasDirectory p = true
  apart : d.hasFile p = false
  kept : Kept r (d.recordsAt p)
  binds : bindings r (d.recordsAt p) = m

/-- Whether a table is loaded, and its records say what a map does. -/
structure Holds (r : Registry) (d : Disk) (t : Table) (m : Bindings) : Prop where
  connected : t.connected = true
  records : ∃ p, t.Says r d p m

/-- What is done to the records is done to the map. -/
theorem Holds.update_spec (h : t.Holds r d m)
    {f : Dict Bytes Bytes → Except Error (Dict Bytes Bytes)}
    (hf : ∀ records, Kept r records → bindings r records = m →
      ∃ records', f records = .ok records' ∧ Kept r records' ∧ bindings r records' = m') :
    ∃ d', (t.update f).out d = (.ok (), d') ∧ t.Holds r d' m' ∧ d.SameTree d' := by
  obtain ⟨p, hsays⟩ := h.records
  obtain ⟨records, hf, hkept, hm⟩ := hf _ hsays.kept hsays.binds
  have hat := Disk.recordsAt_setRecords hsays.locate records
  have hset := Disk.setRecords_eq hsays.locate records
  refine ⟨d.setRecords t.route records, out_update h.connected hsays.locate hf, ⟨h.connected, p, ?_, ?_,
    ?_, by rw [hat]; exact hkept, by rw [hat]; exact hm⟩, ?_⟩
  · rw [hset]
    exact hsays.locate
  · rw [hset]
    exact hsays.directory
  · rw [hset]
    exact hsays.apart
  · rw [hset]
    exact ⟨rfl, rfl⟩

theorem Holds.save_spec (h : t.Holds r d m) {v : Option Value} {saved : Option Saved}
    (hsaved : r.Recovers v saved) {name : String} (hname : Takes name) :
    ∃ d', (t.save (name, saved)).out d = (.ok (), d') ∧ t.Holds r d' (Function.update m name v) ∧
      d.SameTree d' := by
  refine h.update_spec fun records hkept hm => ?_
  obtain ⟨record, hvalue, hloads, hchange⟩ := put_or_erase hsaved hname records
  refine ⟨_, ?_, hkept.change name hloads, ?_⟩
  · cases saved <;> exact hchange
  · rw [bindings_change, hvalue, hm]

theorem Holds.replace_spec (h : t.Holds r d m) {vars : List (String × Saved)}
    (hvars : ∀ e ∈ vars, Takes e.1 ∧ ∃ v, r.LoadsAs e.2 v) :
    ∃ d', (t.replace vars).out d = (.ok (), d') ∧
      t.Holds r d' (replay (vars.map fun e => (e.1, (r.load e.2).value))) ∧ d.SameTree d' :=
  h.update_spec fun _ _ _ => (kept_empty r).putAll hvars

end Table

/-! ## All of them -/

/-- Whether a file can be written anew: there has to be room beside it. -/
def Medium.HasRoom (d : Disk) : Medium → Prop
  | .file text => ∃ p, d.writable (.ofText (text ++ ".temp")) = .ok p
  | .memory | .table _ | .host => True

theorem Medium.HasRoom.sameTree {d d' : Disk} {m : Medium} (h : m.HasRoom d) (hd' : d.SameTree d') :
    m.HasRoom d' := by
  cases m with
  | file text =>
    obtain ⟨p, hp⟩ := h
    obtain ⟨q, part, hw, rfl⟩ := Disk.writable_iff.1 hp
    exact ⟨_, (hw.sameTree hd').writable_eq⟩
  | memory => trivial
  | table text => trivial
  | host => trivial

namespace Backend

/-- Whether what a backend keeps says what a map does. Those of the embedding program are left
out. -/
def Says (r : Registry) (d : Disk) (m : Bindings) : Backend → Prop
  | .memory s => s.Kept r ∧ s.bindings r = m
  | .flatFile f => ∃ file, f.Says r d file m
  | .table t => ∃ p, t.Says r d p m
  | .relay _ => False

/-- Whether a backend is loaded and takes updates of a map. -/
def Holds (r : Registry) (d : Disk) (m : Bindings) : Backend → Prop
  | .memory s => s.Kept r ∧ s.bindings r = m
  | .flatFile f => f.Holds r d m
  | .table t => t.Holds r d m
  | .relay _ => False

/-- Whether a backend was closed because there is no room to write its file anew. -/
def Shut (r : Registry) (d : Disk) (m : Bindings) : Backend → Prop
  | .flatFile f => f.Shut r d m
  | .memory _ | .table _ | .relay _ => False

theorem out_replace_flatFile (f : FlatFile) (vars : List (String × Saved)) (d : Disk) :
    (replace (.flatFile f) vars).out d = ((.flatFile ((f.replace vars).out d).1.1,
      ((f.replace vars).out d).1.2), ((f.replace vars).out d).2) := by
  rw [replace, Work.out_bind]
  rfl

theorem out_replace_table (t : Table) (vars : List (String × Saved)) (d : Disk) :
    (replace (.table t) vars).out d
      = ((.table t, ((t.replace vars).out d).1), ((t.replace vars).out d).2) := by
  rw [replace, Work.out_bind]
  rfl

section

variable {r : Registry} {d : Disk} {b : Backend} {m : Bindings}

theorem Holds.save_spec (h : b.Holds r d m) {name : String} {saved : Option Saved}
    (hname : b.medium.Takes name) (hsaved : ∀ s ∈ saved, ∃ v, r.LoadsAs s v) :
    ∃ b' d', (b.save (name, saved)).out d = ((b', .ok ()), d') ∧ b'.medium = b.medium ∧
      b'.Holds r d' ((Update.save name saved).apply r m) ∧ d.SameTree d' := by
  have hrecovers := recovers_load hsaved
  cases b with
  | memory s =>
    obtain ⟨hkept, rfl⟩ := h
    refine ⟨.memory (s.save (name, saved)), d, rfl, rfl, ⟨hkept.save name fun x hx => ?_,
      Memory.bindings_save s name saved⟩, .refl d⟩
    obtain ⟨v, hv⟩ := hsaved x hx
    exact ⟨v, hv.load⟩
  | flatFile f =>
    obtain ⟨f', d', hsave, hfile, hholds, htree⟩ := h.save_spec hrecovers hname
    exact ⟨.flatFile f', d', by rw [out_save_flatFile, hsave], congrArg Medium.file hfile, hholds,
      htree⟩
  | table t =>
    obtain ⟨d', hsave, hholds, htree⟩ := h.save_spec hrecovers hname
    exact ⟨.table t, d', by rw [out_save_table, hsave], rfl, hholds, htree⟩
  | relay s => exact h.elim

theorem Holds.replace_spec (h : b.Holds r d m) {vars : List (String × Saved)}
    (hvars : ∀ e ∈ vars, b.medium.Takes e.1 ∧ ∃ v, r.LoadsAs e.2 v) (hroom : b.medium.HasRoom d) :
    ∃ b' d', (b.replace vars).out d = ((b', .ok ()), d') ∧ b'.medium = b.medium ∧
      b'.Holds r d' ((Update.replace vars).apply r m) ∧ d.SameTree d' := by
  cases b with
  | memory s =>
    have hloads : ∀ e ∈ vars, ∃ v, (r.load e.2).value = some v := by
      intro e he
      obtain ⟨v, hv⟩ := (hvars e he).2
      exact ⟨v, hv.load⟩
    have hall := (Memory.kept_empty r).saveAll hloads
    rw [← Memory.ofEntries_eq] at hall
    exact ⟨.memory (.ofEntries vars), d, rfl, rfl, hall, .refl d⟩
  | flatFile f =>
    obtain ⟨p, hp⟩ := hroom
    obtain ⟨f', d', hreplace, hfile, hholds, htree⟩ := h.replace_spec hvars hp
    exact ⟨.flatFile f', d', by rw [out_replace_flatFile, hreplace], congrArg Medium.file hfile,
      hholds, htree⟩
  | table t =>
    obtain ⟨d', hreplace, hholds, htree⟩ := h.replace_spec hvars
    exact ⟨.table t, d', by rw [out_replace_table, hreplace], rfl, hholds, htree⟩
  | relay s => exact h.elim

/-- **An update takes the map that is held to the one that it describes.** -/
theorem Holds.run_spec (h : b.Holds r d m) {u : Update}
    (hu : u.Uses (b.medium.Takes ·) fun s => ∃ v, r.LoadsAs s v)
    (hroom : ∀ vars, u = .replace vars → b.medium.HasRoom d) :
    ∃ b' d', (u.run b).out d = ((b', .ok ()), d') ∧ b'.medium = b.medium ∧
      b'.Holds r d' (u.apply r m) ∧ d.SameTree d' := by
  cases u with
  | save name saved => exact h.save_spec hu.1 hu.2
  | replace vars => exact h.replace_spec hu (hroom vars rfl)

/-- A replacement that there is no room for is refused, and the map stays. -/
theorem Holds.refuse (h : b.Holds r d m) (hfull : ¬b.medium.HasRoom d) (vars : List (String × Saved)) :
    ∃ b' e, (b.replace vars).out d = ((b', .error e), d) ∧ b'.medium = b.medium ∧
      b'.Shut r d m := by
  cases b with
  | memory s => exact absurd trivial hfull
  | flatFile f =>
    have hnone : ∀ p, d.writable (.ofText (f.file ++ ".temp")) ≠ .ok p :=
      fun p hp => hfull ⟨p, hp⟩
    obtain ⟨e, hreplace⟩ := FlatFile.out_replace_full vars hnone
    exact ⟨.flatFile f.disconnect, e, by rw [out_replace_flatFile, hreplace], rfl, h.shut hnone⟩
  | table t => exact absurd trivial hfull
  | relay s => exact h.elim

/-- From then on all updates are refused. -/
theorem Shut.run_eq (h : b.Shut r d m) (u : Update) : ∃ e, (u.run b).out d = ((b, .error e), d) := by
  cases b with
  | flatFile f =>
    cases u with
    | save name saved =>
      exact ⟨_, by rw [Update.run, out_save_flatFile, h.out_save]⟩
    | replace vars =>
      obtain ⟨e, hreplace⟩ := h.out_replace vars
      exact ⟨e, by rw [Update.run, out_replace_flatFile, hreplace]⟩
  | memory s => exact h.elim
  | table t => exact h.elim
  | relay s => exact h.elim

theorem Shut.runAll_eq (h : b.Shut r d m) (updates : List Update) :
    ∃ errors : List Error, errors.length = updates.length ∧
      (Update.runAll updates b).out d = ((b, errors.map .error), d) := by
  induction updates with
  | nil => exact ⟨[], rfl, rfl⟩
  | cons u rest ih =>
    obtain ⟨e, hrun⟩ := h.run_eq u
    obtain ⟨errors, hlength, hruns⟩ := ih
    refine ⟨e :: errors, congrArg (· + 1) hlength, ?_⟩
    rw [Update.runAll, Work.out_bind, hrun]
    dsimp only
    rw [Work.out_bind, hruns]
    rfl

theorem Holds.says (h : b.Holds r d m) : b.Says r d m := by
  cases b with
  | memory s => exact h
  | flatFile f =>
    obtain ⟨file, hsays, -⟩ := h.file
    exact ⟨file, hsays⟩
  | table t => exact h.records
  | relay s => exact h.elim

theorem Shut.says (h : b.Shut r d m) : b.Says r d m := by
  cases b with
  | memory s => exact h.elim
  | flatFile f => exact h.file
  | table t => exact h.elim
  | relay s => exact h.elim

/-- **Updates in turn are accepted for as long as there is room for them, and the map becomes the one
that the accepted updates describe.** -/
theorem Holds.runAll_spec (h : b.Holds r d m) {updates : List Update}
    (hupdates : ∀ u ∈ updates, u.Uses (b.medium.Takes ·) fun s => ∃ v, r.LoadsAs s v) :
    ∃ accepted b' answers d', (Update.runAll updates b).out d = ((b', answers), d') ∧
      b'.medium = b.medium ∧ Update.Answered (b.medium.HasRoom d) updates accepted answers ∧
      b'.Says r d' (accepted.foldl (Update.apply r) m) := by
  induction updates generalizing b d m with
  | nil => exact ⟨[], b, [], d, rfl, rfl, .inl ⟨rfl, rfl⟩, h.says⟩
  | cons u rest ih =>
    obtain ⟨hu, hrest⟩ := List.forall_mem_cons.1 hupdates
    by_cases hroom : ∀ vars, u = .replace vars → b.medium.HasRoom d
    · obtain ⟨b₁, d₁, hrun, hmedium, hholds, htree⟩ := h.run_spec hu hroom
      -- the medium stays the same, and so does the room beside it
      rw [← hmedium] at hrest
      obtain ⟨accepted, b₂, answers, d₂, hruns, hmedium₂, hanswered, hsays⟩ := ih hholds hrest
      have hanswered' : Update.Answered (b.medium.HasRoom d) rest accepted answers := by
        refine hanswered.imp_right (And.imp_left fun hfull hhas => hfull ?_)
        rw [hmedium]
        exact hhas.sameTree htree
      refine ⟨u :: accepted, b₂, .ok () :: answers, d₂, ?_, hmedium₂.trans hmedium,
        hanswered'.cons u, hsays⟩
      rw [Update.runAll, Work.out_bind, hrun]
      dsimp only
      rw [Work.out_bind, hruns]
      rfl
    · obtain ⟨vars, hvars⟩ := not_forall.1 hroom
      obtain ⟨rfl, hfull⟩ := Classical.not_imp.1 hvars
      obtain ⟨b₁, e, hreplace, hmedium, hshut⟩ := h.refuse hfull vars
      obtain ⟨errors, hlength, hruns⟩ := hshut.runAll_eq rest
      refine ⟨[], b₁, .error e :: errors.map .error, d, ?_, hmedium, .inr ⟨hfull, vars, rest,
        e :: errors, rfl, congrArg (· + 1) hlength, rfl⟩, hshut.says⟩
      rw [Update.runAll, Work.out_bind, Update.run, hreplace]
      dsimp only
      rw [Work.out_bind, hruns]
      rfl

end

end Backend

end ScriptStore.Storage
