import ScriptStore.Proofs.Storage.Updates

/-!
# Loading a storage again

A storage that says a map can be closed and opened anew. Whatever kind it is of, nothing is told of
lost lines or records, and the events that it hands over leave the map behind when they are replayed
(`Backend.Says.reload_spec`). So all kinds of storages are one and the same map from names to values:
the one that the updates describe which were accepted since the storage was empty
(`Backend.replay_reload_eq_described`).
-/

namespace ScriptStore

open Storage
open Text (Bytes)
open ScriptStore.Types (Registry Saved)

/-- Nothing is told of a value that can be loaded. -/
theorem Types.Registry.notices_load {r : Registry} {saved : Saved} {v : Value}
    (h : (r.load saved).value = some v) : (r.load saved).notices = [] := by
  unfold load deserialize at h ⊢
  cases hinfo : r.info? saved.code with
  | none => rw [hinfo] at h; cases h
  | some info =>
    rw [hinfo] at h
    dsimp only at h ⊢
    cases hs : info.serializer with
    | none => rw [hs] at h; cases h
    | some s =>
      rw [hs] at h
      dsimp only at h ⊢
      cases hdecode : Codec.decodeStored saved.data s.shape info.code >>= s.decode with
      | error e => rw [hdecode] at h; cases h
      | ok w => rfl

namespace Storage

/-! ## Nothing is told -/

namespace FlatFile

variable {r : Registry} {d : Disk} {f : FlatFile}

theorem notices_readLine {number : Nat} {line : Bytes} (h : (meaning r line).lost? = none) :
    (readLine r number line).notices = [] := by
  rw [← value_readLine r number] at h
  unfold readLine at h ⊢
  dsimp only at h ⊢
  split
  · rfl
  · next hvoid =>
    rw [if_neg hvoid] at h
    split
    · next name code field hfields =>
      rw [hfields] at h
      dsimp only at h
      split
      · rfl
      · next hcode =>
        rw [if_neg hcode] at h
        cases hdata : dataOf field with
        | error e => rw [hdata] at h; cases h
        | ok data =>
          rw [hdata] at h
          dsimp only at h ⊢
          rw [Logged.value_bind] at h
          cases hload : (r.deserialize code data).value with
          | none => rw [hload] at h; cases h
          | some v =>
            have hsilent : (r.deserialize code data).notices = [] :=
              @Registry.notices_load r ⟨code, data⟩ v hload
            rw [Logged.notices_bind, hsilent, hload]
            rfl
    · next hno =>
      -- a line with other fields is lost
      split at h
      · next hfields => exact absurd hfields (hno _ _ _)
      · cases h

theorem notices_readLines {content : Bytes} (h : lostIn r content = []) :
    (readLines r (splitLines content)).notices = [] := by
  have hlines : ∀ line ∈ splitLines content, (meaning r line).lost? = none :=
    List.filterMap_eq_nil_iff.1 h
  have hread : (((splitLines content).zipIdx 1).mapM fun e => readLine r e.2 e.1).notices = [] := by
    refine Logged.notices_mapM fun e he => notices_readLine (hlines e.1 ?_)
    rw [← List.zipIdx_map_fst 1 (splitLines content)]
    exact List.mem_map_of_mem he
  unfold readLines
  rw [Logged.notices_bind, hread]
  rfl

theorem notices_readFile (h : Kept r ((d.read f.route).toOption.getD [])) :
    (f.readFile r).notices d = [] := by
  unfold readFile
  rw [Work.notices_bind, Work.out_get, Work.notices_get]
  dsimp only
  rw [Work.notices_bind, Work.notices_lift, Work.out_lift, notices_readLines h.lost, value_readLines,
    h.lost]
  rfl

theorem notices_openFile (f : FlatFile) (d : Disk) : f.openFile.notices d = [] := by
  unfold openFile
  rw [Work.notices_bind, notices_createDirectories]
  generalize (createDirectories f.route.parent).out d = made
  obtain ⟨result, d₁⟩ := made
  cases result with
  | error e => rfl
  | ok u =>
    dsimp only
    rw [Work.notices_bind, Work.notices_get, Work.out_get]
    dsimp only
    cases d₁.openFile f.route <;> rfl

theorem notices_connect (f : FlatFile) (d : Disk) : f.connect.notices d = [] := by
  unfold connect
  split
  · rfl
  · rw [Work.notices_bind, notices_openFile]
    generalize f.openFile.out d = result
    obtain ⟨result, d₁⟩ := result
    cases result <;> rfl

theorem notices_load (h : Kept r ((d.read f.route).toOption.getD [])) :
    (f.load r).notices d = [] := by
  unfold load
  rw [Work.notices_bind, Work.notices_get, Work.out_get]
  dsimp only
  split
  · rfl
  · rw [Work.notices_bind, notices_readFile h, Work.notices_bind, notices_connect]
    generalize f.connect.out ((f.readFile r).out d).2 = result
    obtain ⟨⟨f', result⟩, d₁⟩ := result
    cases result <;> rfl

end FlatFile

namespace Memory

theorem notices_loadAll {r : Registry} {entries : List (String × Saved)}
    (h : ∀ e ∈ entries, ∃ v, (r.load e.2).value = some v) : (loadAll r entries).notices = [] := by
  induction entries with
  | nil => rfl
  | cons e rest ih =>
    obtain ⟨⟨v, hv⟩, hrest⟩ := List.forall_mem_cons.1 h
    obtain ⟨name, saved⟩ := e
    rw [loadAll, Logged.notices_bind, Registry.notices_load hv, hv]
    dsimp only
    rw [Logged.notices_bind, ih hrest]
    rfl

theorem Kept.notices_load {r : Registry} {m : Memory} (h : m.Kept r) : (m.load r).notices = [] := by
  refine notices_loadAll fun e he => ?_
  have hmem : (e.1, e.2) ∈ m.entries.entries := (List.mergeSort_perm _ _).mem_iff.1 he
  exact h.loads ((Dict.mem_entries_iff h.keys).1 hmem)

end Memory

namespace Table

variable {r : Registry} {d : Disk} {t : Table}

theorem notices_readRecord (key : Bytes) {record : Bytes} {v : Value}
    (h : valueIn r record = some v) : (readRecord r key record).notices = [] := by
  rw [valueIn, ← toOption_decodeRecord (Text.ofBytesLossy key)] at h
  unfold readRecord
  dsimp only
  cases hdecode : decodeRecord (Text.ofBytesLossy key) record with
  | error e => rfl
  | ok saved =>
    rw [hdecode] at h
    dsimp only
    rw [Logged.notices_bind, Registry.notices_load h]
    rfl

/-- If all records can be loaded, none is lost and nothing is told. -/
theorem readRecords_silent {records : List (Bytes × Bytes)}
    (h : ∀ e ∈ records, ∃ v, valueIn r e.2 = some v) :
    (readRecords r records).value.2 = [] ∧ (readRecords r records).notices = [] := by
  have hread : (records.mapM fun e => readRecord r e.1 e.2).notices = [] := by
    refine Logged.notices_mapM fun e he => ?_
    obtain ⟨v, hv⟩ := h e he
    exact notices_readRecord e.1 hv
  constructor
  · unfold readRecords
    rw [Logged.value_bind, Logged.value_mapM, Logged.value_pure, List.partition_eq_filter_filter]
    simp only [value_readRecord]
    rw [List.map_eq_nil_iff, List.filter_eq_nil_iff]
    intro e he
    obtain ⟨e', he', rfl⟩ := List.mem_map.1 he
    obtain ⟨v, hv⟩ := h e' he'
    simp [hv]
  · unfold readRecords
    rw [Logged.notices_bind, hread]
    rfl

theorem notices_connect (t : Table) (d : Disk) : t.connect.notices d = [] := by
  unfold connect
  rw [Work.notices_bind, Work.notices_get, Work.out_get]
  dsimp only
  split
  · rfl
  · split
    · rfl
    · rw [Work.notices_bind, notices_createDirectories]
      generalize (createDirectories t.route).out d = made
      obtain ⟨result, d₁⟩ := made
      cases result <;> rfl

theorem Kept.loads_sorted {records : Dict Bytes Bytes} (h : Kept r records) :
    ∀ e ∈ sorted records, ∃ v, valueIn r e.2 = some v := by
  intro e he
  have hmem : (e.1, e.2) ∈ records.entries := (List.mergeSort_perm _ _).mem_iff.1 he
  exact h.loads ((Dict.mem_entries_iff h.keys).1 hmem)

theorem notices_load {t' : Table} {d' : Disk} (hconnect : t.connect.out d = ((t', .ok ()), d'))
    (h : Kept r (d'.records t'.route)) : (t.load r).notices d = [] := by
  obtain ⟨hlost, hsilent⟩ := readRecords_silent h.loads_sorted
  unfold load
  rw [Work.notices_bind, notices_connect, hconnect]
  dsimp only
  rw [Work.notices_bind, Work.notices_get, Work.out_get]
  dsimp only
  rw [Work.notices_bind, Work.notices_lift, Work.out_lift, hsilent]
  generalize (readRecords r (sorted (d'.records t'.route))).value = read at hlost
  obtain ⟨events, lost⟩ := read
  obtain rfl : lost = [] := hlost
  rfl

end Table

/-! ## What a storage says is loaded -/

section

variable {r : Registry} {d : Disk} {m : Bindings}

theorem FlatFile.Says.reload_spec {f : FlatFile} {file : Disk.File} (h : f.Says r d file m) :
    ∃ f' es, (load { file := f.file } r).out d = (⟨f', es, none⟩, d) ∧
      (load { file := f.file } r).notices d = [] ∧ replay es = m := by
  have hfound : d.Finds (route { file := f.file }) file := h.place
  have hread := hfound.read_eq
  have hdirectory := hfound.isDirectory_eq
  have hcontent : Kept r ((d.read (route { file := f.file })).toOption.getD []) := by
    rw [hread]
    exact h.kept
  refine ⟨{ file := f.file, handle := some file.number, loaded := true }, eventsIn r file.content, ?_,
    notices_load hcontent, h.leaves⟩
  rw [out_load rfl hcontent, hdirectory, if_neg Bool.false_ne_true,
    out_openFile_of_found hfound h.content, hread]
  rfl

theorem Table.Says.reload_spec {t : Table} {p : Disk.Path} (h : t.Says r d p m) :
    ∃ t' es, (load { directory := t.directory } r).out d = (⟨t', es, none⟩, d) ∧
      (load { directory := t.directory } r).notices d = [] ∧ replay es = m := by
  have hlocate : d.locate (route { directory := t.directory }) = .ok p := h.locate
  have hisFile : d.isFile (route { directory := t.directory }) = false := by
    rw [Disk.isFile, hlocate]
    exact h.apart
  have hmade : d.createDirectories (route { directory := t.directory }) = (d, .ok ()) :=
    Disk.createDirectories_of_isDirectory (Disk.checkRoute_of_locate hlocate)
      (Disk.isDirectory_iff.2 ⟨p, hlocate, h.directory⟩)
  have hrecords : d.records (route { directory := t.directory }) = d.recordsAt p :=
    Disk.records_eq hlocate
  have hconnect : (connect { directory := t.directory }).out d
      = (({ directory := t.directory, connected := true }, .ok ()), d) := by
    rw [out_connect rfl, hisFile, if_neg Bool.false_ne_true, hmade]
  refine ⟨{ directory := t.directory, connected := true }, eventsIn r (d.recordsAt p), ?_,
    notices_load hconnect (hrecords.symm ▸ h.kept), (replay_eventsIn h.kept).trans h.binds⟩
  rw [out_load rfl, hisFile, if_neg Bool.false_ne_true, hmade]
  dsimp only
  rw [hrecords]

/-- A file that has nothing but its header when it was loaded says nothing. -/
theorem FlatFile.holds_of_load {f f' : FlatFile} {d' : Disk} {es : List Event} (hf : f.handle = none)
    (hload : (f.load r).out d = (⟨f', es, none⟩, d'))
    (hblank : d'.read f'.route = .ok (Text.toBytes header)) :
    f'.file = f.file ∧ f'.Holds r d' fun _ => none := by
  obtain ⟨hloaded, hfile, file, hfound, hhandle, hne⟩ := open_of_load hf hload
  have hcontent : file.content = Text.toBytes header := by
    rw [hfound.read_eq] at hblank
    exact Except.ok.inj hblank
  obtain ⟨hkept, hevents⟩ := kept_header r
  refine ⟨hfile, hloaded, file, ⟨hfound, hne, ?_, ?_⟩, hhandle⟩
  · rw [hcontent]
    exact hkept
  · rw [hcontent, hevents]
    rfl

/-- A table that has no records when it was loaded says nothing. -/
theorem Table.holds_of_load {t t' : Table} {d' : Disk} {es : List Event} (hd : d.Sound)
    (ht : t.connected = false) (hload : (t.load r).out d = (⟨t', es, none⟩, d'))
    (hblank : d'.records t'.route = {}) :
    t'.directory = t.directory ∧ t'.Holds r d' fun _ => none := by
  rw [out_load ht] at hload
  split at hload
  · cases hload
  · have hbuilds := Disk.createDirectories_builds d t.route
    split at hload
    · next d₁ _ hmade =>
      cases hload
      rw [hmade] at hbuilds
      obtain ⟨p, hlocate, hdirectory⟩ := Disk.isDirectory_iff.1
        (Disk.isDirectory_of_createDirectories hmade)
      -- what is a directory is no file, so the table can be connected again
      have hfile : d'.hasFile p = false := by
        cases hfile : d'.hasFile p with
        | false => rfl
        | true =>
          rw [(hbuilds.sound hd).apart hfile] at hdirectory
          cases hdirectory
      have hrecords : d'.recordsAt p = {} := by
        rw [← Disk.records_eq hlocate]
        exact hblank
      refine ⟨rfl, rfl, p, hlocate, hdirectory, hfile, ?_, ?_⟩
      · rw [hrecords]
        exact kept_empty r
      · rw [hrecords]
        rfl
    · cases hload

namespace Backend

variable {b b' : Backend} {d' : Disk}

theorem notices_load_flatFile (f : FlatFile) (r : Registry) (d : Disk) :
    (load (.flatFile f) r).notices d = (f.load r).notices d := List.append_nil _

theorem notices_load_table (t : Table) (r : Registry) (d : Disk) :
    (load (.table t) r).notices d = (t.load r).notices d := List.append_nil _

theorem notices_load_memory (s : Memory) (r : Registry) (d : Disk) :
    (load (.memory s) r).notices d = (s.load r).notices := by
  show ((s.load r).notices ++ []) ++ [] = _
  rw [List.append_nil, List.append_nil]

/-- **A backend that is opened anew hands over the map that it says**, and gives no notices. -/
theorem Says.reload_spec (h : b.Says r d m) :
    ∃ b' es, (b.afresh.load r).out d = (⟨b', es, none⟩, d) ∧ (b.afresh.load r).notices d = [] ∧
      replay es = m := by
  cases b with
  | memory s =>
    obtain ⟨hkept, rfl⟩ := h
    exact ⟨.memory s, (s.load r).value, rfl, (notices_load_memory s r d).trans hkept.notices_load,
      Memory.replay_load hkept⟩
  | flatFile f =>
    obtain ⟨file, hsays⟩ := h
    obtain ⟨f', es, hload, hsilent, hm⟩ := hsays.reload_spec
    refine ⟨.flatFile f', es, ?_, (notices_load_flatFile _ r d).trans hsilent, hm⟩
    rw [afresh, out_load_flatFile, hload]
  | table t =>
    obtain ⟨p, hsays⟩ := h
    obtain ⟨t', es, hload, hsilent, hm⟩ := hsays.reload_spec
    refine ⟨.table t', es, ?_, (notices_load_table _ r d).trans hsilent, hm⟩
    rw [afresh, out_load_table, hload]
  | relay s => exact h.elim

/-! ## From the first loading on -/

/-- Whether a backend that is loaded has nothing in it. A text file has its header. Those of the
embedding program are left out. -/
def Blank (d : Disk) : Backend → Prop
  | .memory s => s.entries = {}
  | .flatFile f => d.read f.route = .ok (Text.toBytes FlatFile.header)
  | .table t => d.records t.route = {}
  | .relay _ => False

/-- A backend that was loaded and has nothing in it holds the empty map. -/
theorem holds_of_load (hd : d.Sound) (hnew : b.afresh = b) {es : List Event}
    (hload : (b.load r).out d = (⟨b', es, none⟩, d')) (hblank : b'.Blank d') :
    b'.medium = b.medium ∧ b'.Holds r d' fun _ => none := by
  cases b with
  | memory s =>
    cases hload
    obtain ⟨entries⟩ := s
    obtain rfl : entries = {} := hblank
    exact ⟨rfl, Memory.kept_empty r, rfl⟩
  | flatFile f =>
    rw [out_load_flatFile] at hload
    generalize hf : (f.load r).out d = result at hload
    obtain ⟨⟨f', es', failure⟩, d₁⟩ := result
    cases hload
    have hhandle : f.handle = none := by rw [← Backend.flatFile.inj hnew]
    obtain ⟨hfile, hholds⟩ := FlatFile.holds_of_load hhandle hf hblank
    exact ⟨congrArg Medium.file hfile, hholds⟩
  | table t =>
    rw [out_load_table] at hload
    generalize ht : (t.load r).out d = result at hload
    obtain ⟨⟨t', es', failure⟩, d₁⟩ := result
    cases hload
    have hconnected : t.connected = false := by rw [← Backend.table.inj hnew]
    obtain ⟨hdirectory, hholds⟩ := Table.holds_of_load hd hconnected ht hblank
    exact ⟨congrArg Medium.table hdirectory, hholds⟩
  | relay s =>
    have hrelay : Backend.relay _ = b' := congrArg (fun result => result.1.storage) hload
    rw [← hrelay] at hblank
    exact hblank.elim

/-- **All kinds of backends are the same map.** A backend is new, and empty once it was loaded. It is
updated with names that it takes and with what a registry saves, which is loaded as the value that
the registry encoded. All updates are accepted, unless a file is to be replaced that has no room
beside it. When the backend is closed and opened anew, nothing is told of lost lines or records, and
the events that it hands over leave the map behind that the accepted updates describe. -/
theorem replay_reload_eq_described (hr : r.Built)
    (hserializers : ∀ info ∈ r.infos, ∀ s ∈ info.serializer, s.Faithful) (hd : d.Sound)
    (hnew : b.afresh = b) {es : List Event} (hload : (b.load r).out d = (⟨b', es, none⟩, d'))
    (hblank : b'.Blank d') {updates : List Update}
    (hupdates : ∀ u ∈ updates, u.Uses (b.medium.Takes ·) r.Makes) :
    (∀ {v : Value} {saved : Saved}, (r.serialize v).value = some saved →
      saved.code ≠ FlatFile.deletedType →
      ∃ p, r.plan? v = some p ∧ (r.load saved).value = some p.value) ∧
    ∃ accepted b₁ answers d₁, (Update.runAll updates b').out d' = ((b₁, answers), d₁) ∧
      Update.Answered (b.medium.HasRoom d') updates accepted answers ∧
      b₁.disconnect.1.afresh.medium = b.medium ∧
      ∃ b₂ es₂ d₂, (b₁.disconnect.1.afresh.load r).out d₁ = (⟨b₂, es₂, none⟩, d₂) ∧
        (b₁.disconnect.1.afresh.load r).notices d₁ = [] ∧
        replay es₂ = Update.described r accepted := by
  have hvalues : ∀ {v : Value} {saved : Saved}, (r.serialize v).value = some saved →
      saved.code ≠ FlatFile.deletedType → ∃ p, r.plan? v = some p ∧ r.LoadsAs saved p.value :=
    fun hsaved hcode => hr.loadsAs hserializers hsaved hcode
  refine ⟨fun hsaved hcode => ?_, ?_⟩
  · obtain ⟨p, hplan, hloads⟩ := hvalues hsaved hcode
    exact ⟨p, hplan, hloads.load⟩
  · obtain ⟨hmedium, hholds⟩ := holds_of_load hd hnew hload hblank
    rw [← hmedium] at hupdates ⊢
    have hloads : ∀ u ∈ updates, u.Uses (b'.medium.Takes ·) fun s => ∃ v, r.LoadsAs s v := by
      intro u hu
      refine (hupdates u hu).imp fun saved hmakes => ?_
      obtain ⟨⟨v, hsaved⟩, hcode⟩ := hmakes
      obtain ⟨p, -, hp⟩ := hvalues hsaved hcode
      exact ⟨p.value, hp⟩
    obtain ⟨accepted, b₁, answers, d₁, hruns, hmedium₁, hanswered, hsays⟩ :=
      hholds.runAll_spec hloads
    obtain ⟨b₂, es₂, hreload, hsilent, hreplay⟩ := hsays.reload_spec
    refine ⟨accepted, b₁, answers, d₁, hruns, hanswered, ?_⟩
    rw [afresh_disconnect]
    exact ⟨(medium_afresh b₁).trans hmedium₁, b₂, es₂, d₁, hreload, hsilent, hreplay⟩

/-- A registry of integers. -/
def counters : Registry where
  settings := {}
  hierarchy := {}
  infos := [Types.Builtin.described
    (.integer, "integer", [.serializer Types.Builtin.integerSerializer])]
  graph := .build {} []

theorem built_counters : counters.Built := by
  have hcode : Types.isCode "integer" = true := by decide
  have hinfo : Types.ClassInfo.ofAttributes .integer "integer"
        [.serializer Types.Builtin.integerSerializer]
      = .ok (Types.Builtin.described
          (.integer, "integer", [.serializer Types.Builtin.integerSerializer])) := by
    rw [Types.ClassInfo.ofAttributes, hcode]
    rfl
  exact ⟨_, counters, .register (.start {}) hinfo rfl, rfl, rfl⟩

/-- The record of a small integer. -/
def countRecord (b : UInt8) : Saved := ⟨"integer", [0, 0, 0, 0, 0, 0, 0, b]⟩

theorem makes_countRecord {b : UInt8} (h : b ∈ [1, 2, 3]) : counters.Makes (countRecord b) := by
  simp only [List.mem_cons, List.not_mem_nil, or_false] at h
  rcases h with rfl | rfl | rfl
  · exact ⟨⟨.integer 1, rfl⟩, by decide⟩
  · exact ⟨⟨.integer 2, rfl⟩, by decide⟩
  · exact ⟨⟨.integer 3, rfl⟩, by decide⟩

/-- A file and the one beside it can be written where there is nothing yet. -/
theorem writable_counts {text : String} (h : text ∈ ["counts.csv", "counts.csv.temp"]) :
    ({} : Disk).Writable (.ofText text) [] text := by
  have hroute : ∀ text ∈ ["counts.csv", "counts.csv.temp"],
      (Disk.Route.ofText text).parts = [text] ∧ (text ≠ "" ∧ text ≠ "." ∧ text ≠ "..") ∧
      text.utf8ByteSize ≤ Disk.maxName ∧ ({} : Disk).hasDirectory [text] = false ∧
      ¬ Disk.routeLimit ≤ (({} : Disk).shown (Disk.Route.ofText text).text).utf8ByteSize := by decide
  have hnul : ∀ text ∈ ["counts.csv", "counts.csv.temp"], text.contains '\x00' = false := by simp
  obtain ⟨hparts, ⟨hne, hname⟩, hsize, hfree, hlimit⟩ := hroute text h
  refine ⟨⟨?_, ⟨[], ?_, rfl⟩, rfl, hname⟩, ?_, hsize, hfree⟩
  · rw [Disk.checkRoute, hparts, List.any_cons, hnul text h, if_neg (by decide), if_neg hlimit]
  · simp [Disk.Route.steps, hparts, hne]
  · simp [Disk.Route.endsWithSlash, hparts, hne]

/-- The disk after the file was opened for the first time. -/
def firstOpened : Disk where
  files := ⟨[(["counts.csv"], ⟨0, Text.toBytes FlatFile.header⟩)]⟩
  nextFile := 1

theorem load_countFile : (FlatFile.load { file := "counts.csv" } counters).out {}
    = (⟨{ file := "counts.csv", handle := some 0, loaded := true }, [], none⟩, firstOpened) := by
  have hw : ({} : Disk).Writable (FlatFile.route { file := "counts.csv" }) [] "counts.csv" :=
    writable_counts (by decide)
  have hlocate : ({} : Disk).locate (FlatFile.route { file := "counts.csv" })
      = .error .notFound := by
    rw [Disk.locate, hw.checks]
    rfl
  have hread : ({} : Disk).read (FlatFile.route { file := "counts.csv" }) = .error .notFound := by
    rw [Disk.read, hlocate]
    rfl
  have hdirectory : ({} : Disk).isDirectory (FlatFile.route { file := "counts.csv" }) = false := by
    rw [Disk.isDirectory, hlocate]
    rfl
  have hopen : (FlatFile.openFile { file := "counts.csv" }).out {} = (.ok 0, firstOpened) := by
    have hnew : ({} : Disk).openFile (FlatFile.route { file := "counts.csv" })
        = .ok (⟨0, []⟩, ({} : Disk).setContent ["counts.csv"] []) := by
      rw [Disk.openFile, hw.writable_eq]
      rfl
    rw [FlatFile.out_openFile (hw.toEndsAt.createDirectories_parent hw.unslashed) hnew]
    rfl
  rw [FlatFile.out_load rfl (by rw [hread]; exact FlatFile.kept_nil _), hdirectory,
    if_neg Bool.false_ne_true, hopen, hread]
  rfl

theorem load_counts : (load (.flatFile { file := "counts.csv" }) counters).out {}
    = (⟨.flatFile { file := "counts.csv", handle := some 0, loaded := true }, [], none⟩,
        firstOpened) := by
  rw [out_load_flatFile, load_countFile]

/-- A variable is saved, all are replaced, and of those one is deleted before another one comes. -/
def countUpdates : List Update :=
  [.save "a" (some (countRecord 1)), .replace [("b, c", countRecord 2), ("a", countRecord 1)],
    .save "a" none, .save "d" (some (countRecord 3))]

theorem uses_countUpdates : ∀ u ∈ countUpdates,
    u.Uses ((Medium.file "counts.csv").Takes ·) counters.Makes := by
  have hname : ∀ {name}, name ∈ ["a", "b, c", "d"] → FlatFile.Takes name :=
    fun {name} h => (by decide : ∀ name ∈ ["a", "b, c", "d"], FlatFile.Takes name) name h
  intro u hu
  simp only [countUpdates, List.mem_cons, List.not_mem_nil, or_false] at hu
  rcases hu with rfl | rfl | rfl | rfl
  · refine ⟨hname (by decide), fun saved hsaved => ?_⟩
    cases hsaved
    exact makes_countRecord (by decide)
  · intro e he
    simp only [List.mem_cons, List.not_mem_nil, or_false] at he
    rcases he with rfl | rfl
    · exact ⟨hname (by decide), makes_countRecord (by decide)⟩
    · exact ⟨hname (by decide), makes_countRecord (by decide)⟩
  · exact ⟨hname (by decide), nofun⟩
  · refine ⟨hname (by decide), fun saved hsaved => ?_⟩
    cases hsaved
    exact makes_countRecord (by decide)

/-- A text file that was not there before holds these updates. -/
theorem replay_reload_eq_described_counts :
    ∃ b₁ d₁ b₂ es₂ d₂, (Update.runAll countUpdates
        (.flatFile { file := "counts.csv", handle := some 0, loaded := true })).out firstOpened
          = ((b₁, [.ok (), .ok (), .ok (), .ok ()]), d₁) ∧
      (b₁.disconnect.1.afresh.load counters).out d₁ = (⟨b₂, es₂, none⟩, d₂) ∧
      (b₁.disconnect.1.afresh.load counters).notices d₁ = [] ∧ replay es₂ "a" = none ∧
      replay es₂ "b, c" = some (.integer 2) ∧ replay es₂ "d" = some (.integer 3) := by
  have hserializers : ∀ info ∈ counters.infos, ∀ s ∈ info.serializer, s.Faithful := by
    intro info hinfo s hs
    obtain rfl := List.mem_singleton.1 hinfo
    cases hs
    exact Types.Builtin.integerSerializer_faithful
  have hsound : ({} : Disk).Sound := .of_files rfl rfl .nil .nil nofun
  have htree : ({} : Disk).SameTree firstOpened := ⟨rfl, rfl⟩
  have hread : firstOpened.read (.ofText "counts.csv") = .ok (Text.toBytes FlatFile.header) := by
    rw [Disk.read_of_locate (((writable_counts (by decide)).sameTree htree).locate_eq rfl)]
    rfl
  have hroom : (Medium.file "counts.csv").HasRoom firstOpened :=
    ⟨_, ((writable_counts (by decide)).sameTree htree).writable_eq⟩
  obtain ⟨-, accepted, b₁, answers, d₁, hruns, hanswered, -, b₂, es₂, d₂, hreload, hsilent, hreplay⟩ :=
    replay_reload_eq_described built_counters hserializers hsound rfl load_counts hread
      uses_countUpdates
  rcases hanswered with ⟨rfl, rfl⟩ | ⟨hfull, -⟩
  · refine ⟨b₁, d₁, b₂, es₂, d₂, hruns, hreload, hsilent, ?_⟩
    rw [hreplay]
    exact ⟨rfl, rfl, rfl⟩
  · exact absurd hroom hfull

end Backend

end

end Storage

end ScriptStore
