import ScriptStore.Proofs.Disk
import ScriptStore.Proofs.Store.History
import ScriptStore.Proofs.Text.Utf8
import ScriptStore.Proofs.Types.Saving
import ScriptStore.Storage.Memory
import ScriptStore.Storage.Table

/-!
# Storages that keep variables by key

A storage in memory and a table hand over at most one value for a variable, the one that is kept
under its key. A change puts another value there or takes it away, and leaves all other variables.
As long as all that is kept can be loaded (`Kept`), what is handed over is also all that is kept.
-/

namespace ScriptStore.Storage

open History (told)
open Text (Bytes)
open ScriptStore.Types (Registry Saved)

/-! ## Events by key -/

/-- The events of entries under keys. What cannot be loaded is left out. -/
def keyedEvents {κ β : Type} (nameOf : κ → String) (load : β → Option Value)
    (entries : List (κ × β)) : List Event :=
  entries.filterMap fun e => (load e.2).map fun v => (nameOf e.1, some v)

/-- An event is told of a variable if there is an entry under its key. -/
theorem told_keyedEvents {κ β : Type} [DecidableEq κ] {nameOf : κ → String} (keyOf : String → κ)
    {entries : List (κ × β)} (hkeys : (entries.map (·.1)).Nodup)
    (hname : ∀ name, nameOf (keyOf name) = name) (hkey : ∀ e ∈ entries, keyOf (nameOf e.1) = e.1)
    (load : β → Option Value) (name : String) :
    told name (keyedEvents nameOf load entries)
      = ((Dict.lookup (keyOf name) entries).bind load).toList.map some := by
  induction entries with
  | nil => rfl
  | cons e rest ih =>
    obtain ⟨key, b⟩ := e
    rw [List.map_cons, List.nodup_cons] at hkeys
    obtain ⟨hhead, hrest⟩ := List.forall_mem_cons.1 hkey
    have ih := ih hkeys.2 hrest
    have hevents : keyedEvents nameOf load ((key, b) :: rest)
        = ((load b).map fun v => (nameOf key, some v)).toList ++ keyedEvents nameOf load rest := by
      rw [keyedEvents, List.filterMap_cons]
      cases load b <;> rfl
    rw [hevents, History.told_append, ih, Dict.lookup]
    by_cases heq : key = keyOf name
    · -- no other entry has this key
      have hnone : Dict.lookup (keyOf name) rest = none := Dict.lookup_eq_none (heq ▸ hkeys.1)
      have hkeyname : nameOf key = name := by rw [heq, hname]
      rw [if_pos heq, hnone]
      cases hload : load b <;> simp [hload, hkeyname]
    · have hother : nameOf key ≠ name := fun h => heq (h ▸ hhead.symm)
      rw [if_neg heq]
      cases load b <;> simp [hother]

/-! ## Storage in memory -/

namespace Memory

theorem value_loadAll (r : Registry) (entries : List (String × Saved)) :
    (loadAll r entries).value = keyedEvents id (fun saved => (r.load saved).value) entries := by
  induction entries with
  | nil => rfl
  | cons e rest ih =>
    obtain ⟨name, saved⟩ := e
    rw [loadAll, Logged.value_bind, keyedEvents, List.filterMap_cons]
    cases hload : (r.load saved).value with
    | none =>
      dsimp only [Option.map_none]
      rw [Logged.value_bind, ih]
      rfl
    | some v =>
      dsimp only [Option.map_some]
      rw [Logged.value_bind, ih]
      rfl

theorem told_load {m : Memory} (h : m.entries.keys.Nodup) (r : Registry) (name : String) :
    told name (m.load r).value
      = ((m.get? name).bind fun saved => (r.load saved).value).toList.map some := by
  have hperm : m.entries.entries.Perm m.sorted := (List.mergeSort_perm _ _).symm
  have hkeys : (m.sorted.map (·.1)).Nodup := (hperm.map _).nodup_iff.1 h
  rw [load, value_loadAll, told_keyedEvents id hkeys (fun _ => rfl) (fun _ _ => rfl), id,
    Dict.lookup_perm hperm h]
  rfl

theorem get?_save (m : Memory) (name name' : String) (saved : Option Saved) :
    (m.save (name, saved)).get? name' = if name = name' then saved else m.get? name' := by
  cases saved with
  | none => exact Dict.get?_erase m.entries name name'
  | some saved => exact Dict.get?_insert m.entries name name' saved

/-- Whether every name stands once, and every entry can be loaded. -/
structure Kept (r : Registry) (m : Memory) : Prop where
  keys : m.entries.keys.Nodup
  loads : ∀ {name : String} {saved : Saved}, m.get? name = some saved →
    ∃ v, (r.load saved).value = some v

theorem Kept.of_entries {r : Registry} {m : Memory} (hkeys : m.entries.keys.Nodup)
    (hloads : ∀ e ∈ m.entries.entries, ∃ v, (r.load e.2).value = some v) : m.Kept r :=
  ⟨hkeys, fun hget => hloads _ ((Dict.mem_entries_iff hkeys).2 hget)⟩

theorem Kept.save {r : Registry} {m : Memory} (h : m.Kept r) (name : String) {saved : Option Saved}
    (hsaved : ∀ s ∈ saved, ∃ v, (r.load s).value = some v) : (m.save (name, saved)).Kept r where
  keys := by
    cases saved with
    | none => exact Dict.nodup_keys_erase h.keys name
    | some saved => exact Dict.nodup_keys_insert h.keys name saved
  loads := by
    intro name' s hs
    rw [get?_save] at hs
    split at hs
    · exact hsaved s hs
    · exact h.loads hs

end Memory

/-! ## Tables -/

namespace Table

/-- The value in a record. -/
def valueIn (r : Registry) (record : Bytes) : Option Value :=
  (decodeRecord "" record).toOption.bind fun saved => (r.load saved).value

/-- The name is for messages only. -/
theorem toOption_decodeRecord (name : String) (record : Bytes) :
    (decodeRecord name record).toOption = (decodeRecord "" record).toOption := by
  cases record with
  | nil => rfl
  | cons length rest =>
    rw [decodeRecord, decodeRecord]
    split
    · rfl
    · cases Text.ofBytes (rest.take length.toNat) <;> rfl

theorem value_readRecord (r : Registry) (key record : Bytes) :
    (readRecord r key record).value = (Text.ofBytesLossy key, valueIn r record) := by
  unfold readRecord
  dsimp only
  rw [valueIn, ← toOption_decodeRecord (Text.ofBytesLossy key)]
  cases decodeRecord (Text.ofBytesLossy key) record <;> rfl

theorem value_readRecords (r : Registry) (records : List (Bytes × Bytes)) :
    (readRecords r records).value.1 = keyedEvents Text.ofBytesLossy (valueIn r) records := by
  unfold readRecords keyedEvents
  rw [Logged.value_bind, Logged.value_mapM, Logged.value_pure, List.partition_eq_filter_filter]
  simp only [value_readRecord]
  induction records with
  | nil => rfl
  | cons e rest ih =>
    rw [List.map_cons, List.filter_cons, ih, List.filterMap_cons]
    cases valueIn r e.2 <;> rfl

/-- The events of records. -/
def eventsIn (r : Registry) (records : Dict Bytes Bytes) : List Event :=
  keyedEvents Text.ofBytesLossy (valueIn r) (sorted records)

/-- Whether every key is that of a name, and stands once, and every record can be loaded. -/
structure Kept (r : Registry) (records : Dict Bytes Bytes) : Prop where
  keys : records.keys.Nodup
  names : ∀ key ∈ records.keys, Text.toBytes (Text.ofBytesLossy key) = key
  loads : ∀ {key record : Bytes}, records.get? key = some record → ∃ v, valueIn r record = some v

theorem told_eventsIn {r : Registry} {records : Dict Bytes Bytes} (h : Kept r records)
    (name : String) :
    told name (eventsIn r records)
      = ((records.get? (Text.toBytes name)).bind (valueIn r)).toList.map some := by
  have hperm : records.entries.Perm (sorted records) := (List.mergeSort_perm _ _).symm
  have hkeys : ((sorted records).map (·.1)).Nodup := (hperm.map _).nodup_iff.1 h.keys
  have hnames : ∀ e ∈ sorted records, Text.toBytes (Text.ofBytesLossy e.1) = e.1 := fun e he =>
    h.names e.1 (List.mem_map_of_mem (hperm.mem_iff.2 he))
  rw [eventsIn, told_keyedEvents Text.toBytes hkeys Text.ofBytesLossy_toBytes hnames,
    Dict.lookup_perm hperm h.keys]
  rfl

/-- Whether a table takes the name of a variable as a key. -/
def Takes (name : String) : Prop :=
  Text.toBytes name ≠ [] ∧ (Text.toBytes name).length ≤ maxKeySize

instance (name : String) : Decidable (Takes name) := inferInstanceAs (Decidable (_ ∧ _))

theorem Takes.checkKey_eq {name : String} (h : Takes name) :
    checkKey (Text.toBytes name) = .ok () := by
  obtain ⟨hne, hle⟩ := h
  rw [checkKey, if_neg]
  rw [Bool.or_eq_true, not_or]
  exact ⟨by simpa using hne, by simpa using hle⟩

/-- A value is read back from its record. -/
theorem valueIn_encodeRecord {r : Registry} {v : Value} {saved : Saved} (h : r.LoadsAs saved v)
    (name : String) : ∃ record, encodeRecord name saved = .ok record ∧ valueIn r record = some v := by
  have hlength : (Text.toBytes saved.code).length < 256 := by
    have hle := h.length_le
    rw [← Text.length_toBytes] at hle
    exact Nat.lt_of_le_of_lt hle (by decide)
  refine ⟨_, if_pos hlength, ?_⟩
  have hdecode : decodeRecord "" (UInt8.ofNat (Text.toBytes saved.code).length ::
      (Text.toBytes saved.code ++ saved.data)) = .ok saved := by
    rw [decodeRecord, Text.Utf8.toNat_byte hlength, if_neg (by simp), List.take_left, List.drop_left,
      Text.ofBytes_toBytes]
  rw [valueIn, hdecode]
  exact h.load

/-- Records with another one under a key, or with none. -/
def change (records : Dict Bytes Bytes) (key : Bytes) : Option Bytes → Dict Bytes Bytes
  | some record => records.insert key record
  | none => records.erase key

theorem get?_change (records : Dict Bytes Bytes) (key key' : Bytes) (record : Option Bytes) :
    (change records key record).get? key' = if key = key' then record else records.get? key' := by
  cases record with
  | none => exact Dict.get?_erase records key key'
  | some record => exact Dict.get?_insert records key key' record

theorem Kept.change {r : Registry} {records : Dict Bytes Bytes} (h : Kept r records) (name : String)
    {record : Option Bytes} (hrecord : ∀ b ∈ record, ∃ v, valueIn r b = some v) :
    Kept r (change records (Text.toBytes name) record) where
  keys := by
    cases record with
    | none => exact Dict.nodup_keys_erase h.keys _
    | some record => exact Dict.nodup_keys_insert h.keys _ _
  names := by
    intro key hkey
    cases record with
    | none => exact h.names key (Dict.mem_keys_erase hkey)
    | some record =>
      rcases Dict.mem_keys_insert hkey with rfl | hkey
      · rw [Text.ofBytesLossy_toBytes]
      · exact h.names key hkey
  loads := by
    intro key b hb
    rw [get?_change] at hb
    split at hb
    · exact hrecord b hb
    · exact h.loads hb

/-- A change puts a record under the key of the variable, or takes it away. -/
theorem put_or_erase {r : Registry} {v : Option Value} {saved : Option Saved}
    (hsaved : r.Recovers v saved) {name : String} (hname : Takes name) (records : Dict Bytes Bytes) :
    ∃ record : Option Bytes, record.bind (valueIn r) = v ∧
      (∀ b ∈ record, ∃ w, valueIn r b = some w) ∧
      (match saved with
        | some saved => put records name saved
        | none => erase records name) = .ok (change records (Text.toBytes name) record) := by
  cases saved with
  | none =>
    cases v with
    | some v => exact hsaved.elim
    | none =>
      refine ⟨none, rfl, by simp, ?_⟩
      dsimp only
      rw [erase, if_neg (by simpa using hname.1), change]
  | some saved =>
    cases v with
    | none => exact hsaved.elim
    | some v =>
      obtain ⟨record, hencode, hvalue⟩ := valueIn_encodeRecord hsaved name
      refine ⟨some record, hvalue, fun b hb => ⟨v, Option.some.inj hb ▸ hvalue⟩, ?_⟩
      dsimp only
      rw [put, hencode]
      dsimp only
      rw [hname.checkKey_eq]
      rfl

/-! ## Loading and saving tables -/

/-- Whether a table that is not connected can be loaded. -/
structure Loadable (r : Registry) (d : Disk) (t : Table) : Prop where
  plain : t.route.Plain
  connected : t.connected = false
  kept : Kept r (d.recordsAt t.route.parts)

/-- Whether a table is loaded and takes changes. -/
structure Works (r : Registry) (d : Disk) (t : Table) : Prop where
  plain : t.route.Plain
  connected : t.connected = true
  locate : d.locate t.route = .ok t.route.parts
  directory : d.hasDirectory t.route.parts = true
  kept : Kept r (d.recordsAt t.route.parts)

variable {r : Registry} {d d' : Disk} {t t' : Table}

theorem out_connect (h : t.connected = false) : t.connect.out d =
    if d.isFile t.route then ((t, .error (.notAFile (d.shown t.directory))), d)
    else match d.createDirectories t.route with
      | (d', .ok _) => (({ t with connected := true }, .ok ()), d')
      | (d', .error e) => ((t, .error (.file e)), d') := by
  unfold connect
  rw [Work.out_bind, Work.out_get, h]
  dsimp only
  rw [if_neg Bool.false_ne_true]
  split
  · rfl
  · rw [Work.out_bind, out_createDirectories]
    generalize d.createDirectories t.route = made
    obtain ⟨d₁, result⟩ := made
    cases result <;> rfl

/-- Loading is connecting and reading. -/
theorem out_load (hconnected : t.connected = false) : (t.load r).out d =
    if d.isFile t.route then (⟨t, [], some (.notAFile (d.shown t.directory))⟩, d)
    else match d.createDirectories t.route with
      | (d', .ok _) => (⟨{ t with connected := true }, eventsIn r (d'.records t.route), none⟩, d')
      | (d', .error e) => (⟨t, [], some (.file e)⟩, d') := by
  unfold load
  rw [Work.out_bind, out_connect hconnected]
  by_cases hfile : d.isFile t.route = true
  · rw [if_pos hfile, if_pos hfile]
    rfl
  · rw [if_neg hfile, if_neg hfile]
    generalize d.createDirectories t.route = made
    obtain ⟨d₁, result⟩ := made
    cases result with
    | error e => rfl
    | ok u =>
      dsimp only
      rw [Work.out_bind, Work.out_get]
      dsimp only
      rw [Work.out_bind, Work.out_lift, eventsIn, ← value_readRecords]
      show Work.out _ d₁ = (_, d₁)
      change Work.out (if _ then _ else _) d₁ = _
      split <;> rfl

/-- **A table that was loaded has handed over its records**, and works. -/
theorem Loadable.load_spec (ht : t.Loadable r d) (hd : d.Sound) {events : List Event}
    (h : (t.load r).out d = (⟨t', events, none⟩, d')) :
    events = eventsIn r (d.recordsAt t.route.parts) ∧ t'.directory = t.directory ∧ t'.Works r d' ∧
      d'.Sound ∧ d.ChangesOnly d' t.route.parts ∧
      d'.recordsAt t.route.parts = d.recordsAt t.route.parts := by
  rw [out_load ht.connected] at h
  split at h
  · cases h
  · have hbuilds := Disk.createDirectories_builds d t.route
    split at h
    · next d₁ _ hmade =>
      cases h
      rw [hmade] at hbuilds
      obtain ⟨p, hlocate, hdirectory⟩ := Disk.isDirectory_iff.1
        (Disk.isDirectory_of_createDirectories hmade)
      obtain rfl := ((Disk.locate_eq_ok ht.plain).1 hlocate).1
      have hrecords := hbuilds.recordsAt t.route.parts
      refine ⟨?_, rfl, ⟨ht.plain, rfl, hlocate, hdirectory, ?_⟩, hbuilds.sound hd,
        hbuilds.changesOnly _, hrecords⟩
      · rw [Disk.records_eq hlocate, hrecords]
      · show Kept r (d'.recordsAt t.route.parts)
        rw [hrecords]
        exact ht.kept
    · cases h

/-- A table whose directory is there can be loaded. -/
theorem Loadable.load_of_directory (ht : t.Loadable r d) (hd : d.Sound)
    (hlocate : d.locate t.route = .ok t.route.parts)
    (hdirectory : d.hasDirectory t.route.parts = true) :
    ∃ t' events d', (t.load r).out d = (⟨t', events, none⟩, d') := by
  have hfile : d.isFile t.route = false := by
    rw [Disk.isFile, hlocate]
    show d.hasFile t.route.parts = false
    cases hfile : d.hasFile t.route.parts with
    | false => rfl
    | true => rw [hd.apart hfile] at hdirectory; cases hdirectory
  have hmade : d.createDirectories t.route = (d, .ok ()) :=
    Disk.createDirectories_of_isDirectory ((Disk.locate_eq_ok ht.plain).1 hlocate).2.1
      (Disk.isDirectory_iff.2 ⟨_, hlocate, hdirectory⟩)
  rw [out_load ht.connected, hfile, if_neg Bool.false_ne_true, hmade]
  exact ⟨_, _, _, rfl⟩

theorem out_update (hconnected : t.connected = true) {p : Disk.Path} (hlocate : d.locate t.route = .ok p)
    {f : Dict Bytes Bytes → Except Error (Dict Bytes Bytes)} {records : Dict Bytes Bytes}
    (h : f (d.recordsAt p) = .ok records) :
    (t.update f).out d = (.ok (), d.setRecords t.route records) := by
  unfold update
  rw [Work.out_bind, Work.out_get, hconnected]
  dsimp only
  rw [Bool.not_true, if_neg Bool.false_ne_true, Disk.records_eq hlocate, h]
  rfl

/-- **A change that is saved changes what is told of its variable only.** -/
theorem Works.save_spec (ht : t.Works r d) (hd : d.Sound) (hr : r.Faithful) {v : Option Value}
    {saved : Option Saved} (hsaved : r.Writes v saved) {name : String} (hname : Takes name) :
    ∃ d', (t.save (name, saved)).out d = (.ok (), d') ∧ t.Works r d' ∧ d'.Sound ∧
      d.ChangesOnly d' t.route.parts ∧
      ∀ name', told name' (eventsIn r (d'.recordsAt t.route.parts)) =
        if name' = name then v.toList.map some
        else told name' (eventsIn r (d.recordsAt t.route.parts)) := by
  obtain ⟨record, hvalue, hloads, hchange⟩ :=
    put_or_erase (hr.recovers hsaved) hname (d.recordsAt t.route.parts)
  have hkept := ht.kept.change name hloads
  generalize hrecords : change (d.recordsAt t.route.parts) (Text.toBytes name) record = records
    at hchange hkept
  have hchanges := Disk.changesOnly_setRecords ht.locate records
  have hat := Disk.recordsAt_setRecords ht.locate records
  refine ⟨d.setRecords t.route records, ?_, ⟨ht.plain, ht.connected, hchanges.locate ht.plain ht.locate,
    hchanges.directories ht.directory, hat.symm ▸ hkept⟩, hd.setRecords ht.locate records ht.directory,
    hchanges, fun name' => ?_⟩
  · refine out_update ht.connected ht.locate ?_
    cases saved <;> exact hchange
  · rw [hat, told_eventsIn hkept, ← hrecords, get?_change, told_eventsIn ht.kept]
    by_cases heq : name' = name
    · rw [heq, if_pos rfl, if_pos rfl, hvalue]
    · have hne : Text.toBytes name ≠ Text.toBytes name' :=
        Text.toBytes_injective.ne (Ne.symm heq)
      rw [if_neg hne, if_neg heq]

end Table

end ScriptStore.Storage
