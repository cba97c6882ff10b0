import ScriptStore.Proofs.Storage.FlatFile
import ScriptStore.Proofs.Storage.Keyed
import ScriptStore.Storage.Backend

/-!
# What all storages have in common

A backend on a disk hands over events (`Backend.events`), whether it keeps them in memory, in a text
file or in a table. Loading a backend hands over just these and leaves them as they are; saving a
change adds to the history of one variable; and neither touches what other backends keep, as long as
no two of them share a file or directory.
-/

namespace ScriptStore.Storage

open History (told)
open ScriptStore.Types (Registry Saved)

/-! ## Media -/

/-- What a backend keeps variables on, apart from what is on it. -/
inductive Medium where
  | memory
  | file (text : String)
  | table (text : String)
  | host
  deriving DecidableEq

namespace Medium

/-- The path that belongs to a medium. -/
def path? : Medium → Option Disk.Path
  | .file text | .table text => some (Disk.Route.ofText text).parts
  | .memory | .host => none

/-- Whether a medium knows only the last value of a variable. -/
def keyed : Medium → Bool
  | .file _ => false
  | _ => true

/-- Whether a medium takes variables of a name. -/
def Takes (name : String) : Medium → Prop
  | .file _ => FlatFile.Takes name
  | .table _ => Table.Takes name
  | .memory | .host => True

instance (name : String) : DecidablePred (Takes name)
  | .file _ => inferInstanceAs (Decidable (FlatFile.Takes name))
  | .table _ => inferInstanceAs (Decidable (Table.Takes name))
  | .memory => inferInstanceAs (Decidable True)
  | .host => inferInstanceAs (Decidable True)

/-- Whether media have no path in common. -/
def Apart (m m' : Medium) : Prop := ∀ p ∈ m.path?, m'.path? ≠ some p

instance (m m' : Medium) : Decidable (m.Apart m') :=
  inferInstanceAs (Decidable (∀ p ∈ m.path?, m'.path? ≠ some p))

theorem Apart.symm {m m' : Medium} (h : m.Apart m') : m'.Apart m :=
  fun p hp hp' => h p hp' hp

/-- Whether a disk differs from another one only where a medium is, and in that it has more
directories. -/
def Confines (m : Medium) (d d' : Disk) : Prop :=
  match m.path? with
  | none => d' = d
  | some p => d.ChangesOnly d' p

section

variable {m : Medium} {d d' : Disk} (h : m.Confines d d')

include h

theorem Confines.keeps : d.Keeps d' := by
  unfold Confines at h
  split at h
  · rw [h]
    exact .refl d
  · exact h.keeps

variable {p : Disk.Path} (hp : m.path? ≠ some p)

include hp

theorem Confines.files : d'.files.get? p = d.files.get? p := by
  unfold Confines at h
  split at h
  · rw [h]
  · next q hq => exact h.files fun heq => hp (heq ▸ hq)

theorem Confines.contentAt : d'.contentAt p = d.contentAt p := by
  rw [Disk.contentAt, h.files hp, Disk.contentAt]

theorem Confines.recordsAt : d'.recordsAt p = d.recordsAt p := by
  unfold Confines at h
  split at h
  · rw [h]
  · next q hq => exact h.recordsAt fun heq => hp (heq ▸ hq)

end

end Medium

namespace Backend

def medium : Backend → Medium
  | .memory _ => .memory
  | .flatFile f => .file f.file
  | .table t => .table t.directory
  | .relay _ => .host

/-- What a backend hands over when it is loaded. -/
def events (r : Registry) (d : Disk) : Backend → List Event
  | .memory m => (m.load r).value
  | .flatFile f => FlatFile.eventsIn r (d.contentAt f.route.parts)
  | .table t => Table.eventsIn r (d.recordsAt t.route.parts)
  | .relay _ => []

/-- Whether a backend can be loaded without loss. Those of the embedding program are left out. -/
def Loadable (r : Registry) (d : Disk) : Backend → Prop
  | .memory m => m.Kept r
  | .flatFile f => f.Loadable r d
  | .table t => t.Loadable r d
  | .relay _ => False

/-- Whether what a backend keeps is on the disk. -/
def Found (d : Disk) : Backend → Prop
  | .flatFile f => d.locate f.route = .ok f.route.parts ∧ d.hasFile f.route.parts = true
  | .table t => d.locate t.route = .ok t.route.parts ∧ d.hasDirectory t.route.parts = true
  | .memory _ | .relay _ => True

/-- Whether a backend is loaded and takes changes. -/
def Works (r : Registry) (d : Disk) : Backend → Prop
  | .memory m => m.Kept r
  | .flatFile f => f.Works r d
  | .table t => t.Works r d
  | .relay _ => False

/-- What a backend keeps under the name of a variable: a record, of which the value may have been
lost. A log keeps nothing under a name. -/
def held? (r : Registry) (d : Disk) (name : String) : Backend → Option (Option Value)
  | .memory m => (m.get? name).map fun saved => (r.load saved).value
  | .table t => ((d.recordsAt t.route.parts).get? (Text.toBytes name)).map (Table.valueIn r)
  | .flatFile _ | .relay _ => none

/-- The same backend before it is loaded for the first time. -/
def afresh : Backend → Backend
  | .memory m => .memory m
  | .flatFile f => .flatFile { file := f.file }
  | .table t => .table { directory := t.directory }
  | .relay s => .relay s

/-! ## Elsewhere nothing changes -/

section

variable {r : Registry} {d d' : Disk} {b : Backend} {m : Medium} (hd' : m.Confines d d')

include hd'

theorem events_of_confines (hm : b.medium.Apart m) : b.events r d' = b.events r d := by
  cases b with
  | memory _ => rfl
  | relay _ => rfl
  | flatFile f =>
    have hp : m.path? ≠ some f.route.parts := hm _ rfl
    rw [events, events, hd'.contentAt hp]
  | table t =>
    have hp : m.path? ≠ some t.route.parts := hm _ rfl
    rw [events, events, hd'.recordsAt hp]

theorem Loadable.of_confines (hb : b.Loadable r d) (hm : b.medium.Apart m) : b.Loadable r d' := by
  cases b with
  | memory _ => exact hb
  | relay _ => exact hb
  | flatFile f =>
    have hp : m.path? ≠ some f.route.parts := hm _ rfl
    have hkept := hb.kept
    rw [← hd'.contentAt hp] at hkept
    exact ⟨hb.plain, hb.handle, hkept⟩
  | table t =>
    have hp : m.path? ≠ some t.route.parts := hm _ rfl
    have hkept := hb.kept
    rw [← hd'.recordsAt hp] at hkept
    exact ⟨hb.plain, hb.connected, hkept⟩

theorem Works.of_confines (hb : b.Works r d) (hm : b.medium.Apart m) : b.Works r d' := by
  have hkeeps := hd'.keeps
  cases b with
  | memory _ => exact hb
  | relay _ => exact hb
  | flatFile f =>
    obtain ⟨file, hfile, hhandle⟩ := hb.file
    have hp : m.path? ≠ some f.route.parts := hm _ rfl
    have hkept := hb.kept
    rw [← hd'.contentAt hp] at hkept
    rw [← hd'.files hp] at hfile
    exact ⟨hb.plain, hb.loaded, hkeeps.locate hb.plain hb.locate, ⟨file, hfile, hhandle⟩, hkept⟩
  | table t =>
    have hp : m.path? ≠ some t.route.parts := hm _ rfl
    have hkept := hb.kept
    rw [← hd'.recordsAt hp] at hkept
    exact ⟨hb.plain, hb.connected, hkeeps.locate hb.plain hb.locate,
      hkeeps.directories hb.directory, hkept⟩

omit hd' in
theorem Found.of_keeps (hkeeps : d.Keeps d') (hb : b.Loadable r d) (h : b.Found d) : b.Found d' := by
  cases b with
  | memory _ => trivial
  | relay _ => trivial
  | flatFile f => exact ⟨hkeeps.locate hb.plain h.1, hkeeps.hasFile h.2⟩
  | table t => exact ⟨hkeeps.locate hb.plain h.1, hkeeps.directories h.2⟩

end

/-! ## Loading, saving and reopening -/

theorem out_load_flatFile (f : FlatFile) (r : Registry) (d : Disk) :
    (load (.flatFile f) r).out d = (⟨.flatFile ((f.load r).out d).1.storage,
      ((f.load r).out d).1.events, ((f.load r).out d).1.failure⟩, ((f.load r).out d).2) := rfl

theorem out_load_table (t : Table) (r : Registry) (d : Disk) :
    (load (.table t) r).out d = (⟨.table ((t.load r).out d).1.storage,
      ((t.load r).out d).1.events, ((t.load r).out d).1.failure⟩, ((t.load r).out d).2) := rfl

theorem out_save_flatFile (f : FlatFile) (change : Change) (d : Disk) :
    (save (.flatFile f) change).out d = ((.flatFile ((f.save change).out d).1.1,
      ((f.save change).out d).1.2), ((f.save change).out d).2) := rfl

theorem out_save_table (t : Table) (change : Change) (d : Disk) :
    (save (.table t) change).out d
      = ((.table t, ((t.save change).out d).1), ((t.save change).out d).2) := rfl

section

variable {r : Registry} {d d' : Disk} {b b' : Backend}

/-- **A backend that was loaded has handed over its events**, keeps them, and works. -/
theorem Loadable.load_spec (hb : b.Loadable r d) (hd : d.Sound) {es : List Event}
    (h : (b.load r).out d = (⟨b', es, none⟩, d')) :
    es = b.events r d ∧ b'.medium = b.medium ∧ b'.Works r d' ∧ d'.Sound ∧ b.medium.Confines d d' ∧
      b'.events r d' = b.events r d := by
  cases b with
  | memory m =>
    cases h
    exact ⟨rfl, rfl, hb, hd, rfl, rfl⟩
  | relay s => exact hb.elim
  | flatFile f =>
    rw [out_load_flatFile] at h
    generalize hf : (f.load r).out d = result at h
    obtain ⟨⟨f', es', failure⟩, d₁⟩ := result
    cases h
    obtain ⟨hes, hfile, hworks, hsound, hchanges, hevents⟩ := hb.load_spec hd hf
    have hroute : f'.route = f.route := by rw [FlatFile.route, hfile, FlatFile.route]
    refine ⟨hes, congrArg Medium.file hfile, hworks, hsound, hchanges, ?_⟩
    rw [events, hroute]
    exact hevents
  | table t =>
    rw [out_load_table] at h
    generalize ht : (t.load r).out d = result at h
    obtain ⟨⟨t', es', failure⟩, d₁⟩ := result
    cases h
    obtain ⟨hes, hdirectory, hworks, hsound, hchanges, hrecords⟩ := hb.load_spec hd ht
    have hroute : t'.route = t.route := by rw [Table.route, hdirectory, Table.route]
    refine ⟨hes, congrArg Medium.table hdirectory, hworks, hsound, hchanges, ?_⟩
    rw [events, hroute, hrecords]
    rfl

/-- A backend whose content is found can be loaded. -/
theorem Loadable.load_of_found (hb : b.Loadable r d) (hd : d.Sound) (h : b.Found d) :
    ∃ b' es d', (b.load r).out d = (⟨b', es, none⟩, d') := by
  cases b with
  | memory m => exact ⟨_, _, _, rfl⟩
  | relay s => exact hb.elim
  | flatFile f =>
    obtain ⟨f', es, d', hload⟩ := hb.load_of_file hd h.1 h.2
    exact ⟨.flatFile f', es, d', by rw [out_load_flatFile, hload]⟩
  | table t =>
    obtain ⟨t', es, d', hload⟩ := hb.load_of_directory hd h.1 h.2
    exact ⟨.table t', es, d', by rw [out_load_table, hload]⟩

/-- **A saved change is told of its variable, after all that was told before**; of a keyed medium it
is told alone. -/
theorem Works.save_spec (hb : b.Works r d) (hd : d.Sound) (hr : r.Faithful) {v : Option Value}
    {saved : Option Saved} (hsaved : r.Writes v saved) {name : String}
    (hname : b.medium.Takes name) :
    ∃ b' d', (b.save (name, saved)).out d = ((b', .ok ()), d') ∧ b'.medium = b.medium ∧
      b'.Works r d' ∧ d'.Sound ∧ b.medium.Confines d d' ∧
      ∀ name', told name' (b'.events r d') =
        if name' = name then (told name (b.events r d)).after b.medium.keyed v
        else told name' (b.events r d) := by
  cases b with
  | memory m =>
    have hvalue : (saved.bind fun saved => (r.load saved).value) = v :=
      (hr.recovers hsaved).load_eq
    have hkept : (m.save (name, saved)).Kept r := by
      -- a record is written for a value only, and that can be loaded from it
      refine hb.save name fun s hs => ?_
      cases hs
      cases v with
      | none => exact hsaved.elim
      | some v => exact ⟨v, hvalue⟩
    refine ⟨.memory (m.save (name, saved)), d, rfl, rfl, hkept, hd, rfl, fun name' => ?_⟩
    rw [events, events, Memory.told_load hkept.keys, Memory.get?_save]
    by_cases heq : name' = name
    · rw [if_pos heq.symm, if_pos heq, hvalue]
      rfl
    · rw [if_neg (Ne.symm heq), if_neg heq, Memory.told_load hb.keys]
  | relay s => exact hb.elim
  | flatFile f =>
    obtain ⟨f', d', hsave, hfile, hworks, hsound, hchanges, hevents⟩ :=
      hb.save_spec hd hr hsaved hname
    have hroute : f'.route = f.route := by rw [FlatFile.route, hfile, FlatFile.route]
    refine ⟨.flatFile f', d', by rw [out_save_flatFile, hsave], congrArg Medium.file hfile, hworks,
      hsound, hchanges, fun name' => ?_⟩
    rw [events, hroute, hevents, History.told_append, History.told_cons, History.told_nil]
    by_cases heq : name' = name
    · rw [if_pos heq.symm, if_pos heq, heq]
      rfl
    · rw [if_neg (Ne.symm heq), if_neg heq, List.append_nil]
      rfl
  | table t =>
    obtain ⟨d', hsave, hworks, hsound, hchanges, htold⟩ := hb.save_spec hd hr hsaved hname
    exact ⟨.table t, d', by rw [out_save_table, hsave], rfl, hworks, hsound, hchanges, htold⟩

/-- A keyed backend tells at most a value of a variable. -/
theorem fits_told (hb : b.Loadable r d ∨ b.Works r d) (name : String) :
    History.Fits b.medium.keyed (told name (b.events r d)) := by
  intro hkeyed
  cases b with
  | memory m => exact ⟨_, Memory.told_load (hb.elim (·.keys) (·.keys)) r name⟩
  | relay s => exact (hb.elim id id).elim
  | flatFile f => cases hkeyed
  | table t =>
    have hkept : Table.Kept r (d.recordsAt t.route.parts) := hb.elim (·.kept) (·.kept)
    exact ⟨_, Table.told_eventsIn hkept name⟩

/-- All values that a backend tells were loaded from something that was saved. -/
theorem load_of_told (hb : b.Loadable r d ∨ b.Works r d) {name : String} {v : Value}
    (h : some v ∈ told name (b.events r d)) : ∃ saved, (r.load saved).value = some v := by
  cases b with
  | memory m =>
    rw [events, Memory.told_load (hb.elim (·.keys) (·.keys))] at h
    obtain ⟨w, hw, heq⟩ := List.mem_map.1 h
    cases heq
    obtain ⟨saved, _, hload⟩ := Option.bind_eq_some_iff.1 (Option.mem_toList.1 hw)
    exact ⟨saved, hload⟩
  | relay s => exact (hb.elim id id).elim
  | flatFile f =>
    obtain ⟨e, he, heq⟩ := List.mem_map.1 h
    obtain ⟨line, _, hline⟩ := List.mem_filterMap.1 (List.mem_of_mem_filter he)
    obtain ⟨name', v'⟩ := e
    cases heq
    cases hmeaning : FlatFile.meaning r line with
    | blank => rw [hmeaning] at hline; cases hline
    | lost name => rw [hmeaning] at hline; cases hline
    | event e =>
      rw [hmeaning] at hline
      cases hline
      exact FlatFile.load_of_meaning hmeaning
  | table t =>
    have hkept : Table.Kept r (d.recordsAt t.route.parts) := hb.elim (·.kept) (·.kept)
    rw [events, Table.told_eventsIn hkept] at h
    obtain ⟨w, hw, heq⟩ := List.mem_map.1 h
    cases heq
    obtain ⟨record, _, hvalue⟩ := Option.bind_eq_some_iff.1 (Option.mem_toList.1 hw)
    obtain ⟨saved, _, hload⟩ := Option.bind_eq_some_iff.1 hvalue
    exact ⟨saved, hload⟩

/-- **A keyed backend tells what it keeps.** -/
theorem told_eq_iff_held? (hb : b.Loadable r d ∨ b.Works r d) (hkeyed : b.medium.keyed = true)
    (name : String) (v : Option Value) :
    told name (b.events r d) = v.toList.map some ↔ b.held? r d name = v.map some := by
  have hall : ∀ {β : Type} {load : β → Option Value} {record : Option β},
      (∀ saved, record = some saved → ∃ w, load saved = some w) →
      ((record.bind load).toList.map some = v.toList.map some ↔
        record.map load = v.map some) := by
    intro β load record hload
    cases record with
    | none => cases v <;> simp
    | some saved =>
      obtain ⟨w, hw⟩ := hload saved rfl
      cases v <;> simp [hw]
  cases b with
  | memory m =>
    have hkept : m.Kept r := hb.elim id id
    rw [events, Memory.told_load hkept.keys, held?]
    exact hall fun _ hget => hkept.loads hget
  | relay s => exact (hb.elim id id).elim
  | flatFile f => cases hkeyed
  | table t =>
    have hkept : Table.Kept r (d.recordsAt t.route.parts) := hb.elim (·.kept) (·.kept)
    rw [events, Table.told_eventsIn hkept, held?]
    exact hall fun _ hget => hkept.loads hget

theorem held?_disconnect (r : Registry) (d : Disk) (name : String) (b : Backend) :
    b.disconnect.1.held? r d name = b.held? r d name := by
  cases b <;> rfl

/-- A backend that was loaded can be loaded once more. -/
theorem Works.afresh_spec (hb : b.Works r d) :
    b.afresh.Loadable r d ∧ b.afresh.Found d ∧ b.afresh.medium = b.medium ∧
      b.afresh.events r d = b.events r d := by
  cases b with
  | memory m => exact ⟨hb, trivial, rfl, rfl⟩
  | relay s => exact hb.elim
  | flatFile f =>
    obtain ⟨file, hfile, _⟩ := hb.file
    exact ⟨⟨hb.plain, rfl, hb.kept⟩, ⟨hb.locate, Disk.hasFile_iff.2 ⟨file, hfile⟩⟩, rfl, rfl⟩
  | table t => exact ⟨⟨hb.plain, rfl, hb.kept⟩, ⟨hb.locate, hb.directory⟩, rfl, rfl⟩

theorem medium_afresh (b : Backend) : b.afresh.medium = b.medium := by
  cases b <;> rfl

theorem afresh_disconnect (b : Backend) : b.disconnect.1.afresh = b.afresh := by
  cases b <;> rfl

end

end Backend

end ScriptStore.Storage
