import ScriptStore.Proofs.Store.Overwriting
import ScriptStore.Proofs.Variables.FullNames

/-!
# Saving all variables

To save all variables is to go through the tree and hand every outlet the records of those that belong
to it. The names are put together on the way, and the separators at the front of a name are left out.
So a variable is saved under its own name exactly if that does not start with `::`. Any other one is
saved under a name that is not its own and may belong to another variable, or to another outlet.

A variable with a first segment that is not empty is never replaced in this way: it stands behind all
those that could take its name, and of two records of one name the last is kept.
-/

namespace ScriptStore.VariableMap

open Variables

/-! ## Entries -/

/-- Whether a change is a call for a single variable. -/
def Change.Single : Change → Prop
  | .set name _ => isList name = false
  | .removeList _ => False
  | .clear => False

/-- The variables of a map with their full names. -/
def allVariables (m : VariableMap) : List (String × Value) := Children.variablesBelow [] m.tree

section

variable {m : VariableMap} {f : String → Option Value}

theorem Reads.change_single (h : Reads m f) {c : Change} (hc : c.Single) :
    Reads (m.change c) (c.effect f) := by
  cases c with
  | set name v =>
    have hname : isList name = false := hc
    have heffect : Change.effect f (.set name v) = fun n => if n = name then v else f n :=
      funext (Change.effect_set hname v f)
    simp only [change, VariableMap.set, hname, if_neg Bool.false_ne_true, heffect]
    exact h.setSingle name v
  | removeList list => exact absurd hc id
  | clear => exact absurd hc id

/-- **Calls for single variables are read as they were made**, whatever the names. -/
theorem Reads.changes_single (h : Reads m f) {changes : List Change}
    (hchanges : ∀ c ∈ changes, c.Single) :
    Reads (changes.foldl change m) (changes.foldl Change.effect f) := by
  induction changes generalizing m f with
  | nil => exact h
  | cons c changes ih =>
    obtain ⟨hc, hrest⟩ := List.forall_mem_cons.1 hchanges
    exact ih (h.change_single hc) hrest

theorem Reads.grown (h : Reads m f) : Children.Grown m.tree := ⟨h.tidy, h.named⟩

theorem Reads.mem_variables (h : Reads m f) {n : String} {v : Value} :
    (n, v) ∈ m.allVariables ↔ f n = some v := by
  obtain ⟨s, path, hpath⟩ := List.exists_cons_of_ne_nil (segments_ne_nil n)
  have hbelow : Extends [] (segments n) := by
    rw [hpath]
    exact extends_nil_cons s path
  rw [allVariables, h.grown.mem_variablesBelow, h.tree, and_iff_right hbelow]

theorem Reads.ascending_variables (h : Reads m f) :
    m.allVariables.Pairwise fun a b => (segments a.1).compareLex compareSegments (segments b.1) = .lt :=
  h.grown.ascending_variablesBelow []

theorem Reads.entries_eq (h : Reads m f) : m.entries = m.allVariables.map fun e => (bare e.1, e.2) :=
  h.grown.entries_eq

/-- A variable is reported under its own name exactly if that does not start with a separator. -/
theorem Reads.mem_entries_iff (h : Reads m f) {n : String} {v : Value} (hn : f n = some v) :
    (n, v) ∈ m.entries ↔ ¬Led n := by
  rw [h.entries_eq, List.mem_map]
  constructor
  · rintro ⟨e, -, he⟩
    obtain ⟨rfl, rfl⟩ := Prod.mk.inj he
    exact not_led_bare e.1
  · intro hled
    exact ⟨(n, v), h.mem_variables.2 hn, by rw [bare_eq_self_iff.2 hled]⟩

theorem Reads.entries_iff (h : Reads m f) :
    (∀ n v, (n, v) ∈ m.entries ↔ f n = some v) ↔ ∀ n, f n ≠ none → ¬Led n := by
  constructor
  · intro hsame n hn
    obtain ⟨v, hv⟩ := Option.ne_none_iff_exists'.1 hn
    exact (h.mem_entries_iff hv).1 ((hsame n v).2 hv)
  · intro hplain n v
    refine ⟨fun hmem => ?_, fun hn => (h.mem_entries_iff hn).2 (hplain n ?_)⟩
    · rw [h.entries_eq, List.mem_map] at hmem
      obtain ⟨⟨n', v'⟩, hmem, heq⟩ := hmem
      obtain ⟨rfl, rfl⟩ := Prod.mk.inj heq
      have hn' := h.mem_variables.1 hmem
      rw [bare_eq_self_iff.2 (hplain n' (by rw [hn']; exact Option.some_ne_none v'))]
      exact hn'
    · rw [hn]
      exact Option.some_ne_none v

end

end ScriptStore.VariableMap

namespace ScriptStore.Variables

/-! ## Names that could be taken -/

theorem compareSegments_empty {s : String} (h : s ≠ "") : compareSegments "" s = .lt := by
  have hnone : tokens "".toList = [] := rfl
  have hsome : tokens s.toList ≠ [] := by
    intro hnil
    have htext := flatMap_text_tokens s.toList
    rw [hnil] at htext
    exact h (String.toList_inj.1 htext.symm)
  obtain ⟨t, ts, hts⟩ := List.exists_cons_of_ne_nil hsome
  rw [compareSegments, hnone, hts, compareTokens]

/-- Names that start with a separator stand before all others that are not empty. -/
theorem compareLex_of_led {n' n : String} (h' : Led n') (h : ¬Led n) (hn : n ≠ "") :
    (segments n').compareLex compareSegments (segments n) = .lt := by
  obtain ⟨s, path, hpath⟩ := led_iff_segments.1 h'
  obtain ⟨t, more, hmore⟩ := List.exists_cons_of_ne_nil (segments_ne_nil n)
  have ht : t ≠ "" := by
    rintro rfl
    cases more with
    | nil => exact hn (String.toList_inj.1 (toList_eq_of_segments hmore))
    | cons u more => exact h (led_iff_segments.2 ⟨u, more, hmore⟩)
  rw [hpath, hmore, List.compareLex_cons_cons, compareSegments_empty ht]
  rfl

/-- What stands behind a name in order does not take it. -/
theorem bare_ne_of_lt {n n' : String} (h : ¬Led n) (hn : n ≠ "")
    (hlt : (segments n).compareLex compareSegments (segments n') = .lt) : bare n' ≠ n := by
  intro hbare
  by_cases hled : Led n'
  · -- such names stand in front
    rw [Std.OrientedCmp.gt_of_lt (compareLex_of_led hled h hn)] at hlt
    cases hlt
  · rw [bare_eq_self_iff.2 hled] at hbare
    rw [hbare] at hlt
    exact compareLex_self_ne_lt _ hlt

end ScriptStore.Variables

namespace ScriptStore.Store

open Storage
open ScriptStore.Types (Registry Saved)
open ScriptStore.Types.Builtin (wordless)
open Variables (Led bare bare_eq_self_iff)

/-! ## Records -/

/-- What is saved of an entry, with the place of the outlet that its name belongs to; nothing if there
is none, or if the value cannot be saved. -/
def record? (r : Registry) (outlets : List Outlet) (e : String × Value) : Option (Nat × String × Saved) :=
  (home? outlets e.1).bind fun i => (r.serialize e.2).value.map fun saved => (i, e.1, saved)

/-- What is saved of entries. -/
def records (r : Registry) (outlets : List Outlet) (entries : List (String × Value)) :
    List (Nat × String × Saved) := entries.filterMap (record? r outlets)

/-- Replaces the contents of the outlets by records. -/
def replaced (s : Store) (all : List (Nat × String × Saved)) : Work (Store × Except Error Unit) := do
  let (outlets, result) ← replaceContents all 0 s.outlets
  return ({ s with outlets }, result)

section

variable {r : Registry} {s : Store} {outlets : List Outlet}

theorem InUse.value_collect (h : s.InUse) (entries : List (String × Value)) :
    (s.collect entries).value = (records s.registry s.outlets entries, s) := by
  induction entries with
  | nil => rfl
  | cons e entries ih =>
    obtain ⟨name, v⟩ := e
    rw [collect, records, List.filterMap_cons]
    cases hhome : home? s.outlets name with
    | none =>
      have hrecord : record? s.registry s.outlets (name, v) = none := by
        rw [record?, hhome, Option.bind_none]
      rw [hrecord]
      exact ih
    | some i =>
      dsimp only
      rw [Logged.value_bind, h.value_encode]
      cases hsaved : (s.registry.serialize v).value with
      | none =>
        have hrecord : record? s.registry s.outlets (name, v) = none := by
          rw [record?, hhome, Option.bind_some, hsaved, Option.map_none]
        rw [hrecord]
        exact ih
      | some saved =>
        have hrecord : record? s.registry s.outlets (name, v) = some (i, name, saved) := by
          rw [record?, hhome, Option.bind_some, hsaved, Option.map_some]
        rw [hrecord]
        dsimp only
        rw [Logged.value_bind, ih]
        rfl

/-- **To save all is to replace the contents by the records of the entries.** -/
theorem InUse.out_saveAll (h : s.InUse) (d : Disk) :
    s.saveAll.out d = (s.replaced (records s.registry s.outlets s.vars.entries)).out d := by
  rw [saveAll, Work.out_bind, h.drain_eq, Work.out_pure, Work.out_bind, Work.out_lift, h.value_collect]
  rfl

/-! ## Outlets in memory -/

/-- What is kept at a place of records. -/
def recordsAt (i : Nat) (all : List (Nat × String × Saved)) : List (String × Saved) :=
  (all.filter (·.1 == i)).map (·.2)

/-- Whether an outlet in memory keeps a record. -/
def KeptAt (outlets : List Outlet) (i : Nat) (name : String) (saved : Saved) : Prop :=
  ∃ o m, outlets[i]? = some o ∧ o.backend = .memory m ∧ m.get? name = some saved

theorem out_replaceContents_memory (h : ∀ o ∈ outlets, ∃ m, o.backend = .memory m)
    (all : List (Nat × String × Saved)) (place : Nat) (d : Disk) :
    (replaceContents all place outlets).out d
      = ((outlets.mapIdx fun i o =>
          { o with backend := .memory (.ofEntries (recordsAt (place + i) all)) }, .ok ()), d) := by
  induction outlets generalizing place with
  | nil => rfl
  | cons o outlets ih =>
    obtain ⟨⟨m, hm⟩, hrest⟩ := List.forall_mem_cons.1 h
    have hreplace : ∀ vars, (o.backend.replace vars).out d = ((.memory (.ofEntries vars), .ok ()), d) := by
      intro vars
      rw [hm]
      rfl
    rw [replaceContents, Work.out_bind, hreplace]
    dsimp only
    rw [Work.out_bind, ih hrest, List.mapIdx_cons]
    simp only [Nat.add_assoc, Nat.add_comm 1]
    rfl

theorem recordsAt_append (i : Nat) (all more : List (Nat × String × Saved)) :
    recordsAt i (all ++ more) = recordsAt i all ++ recordsAt i more := by
  rw [recordsAt, List.filter_append, List.map_append]
  rfl

theorem recordsAt_cons_self (i : Nat) (e : String × Saved) (all : List (Nat × String × Saved)) :
    recordsAt i ((i, e) :: all) = e :: recordsAt i all := by
  simp [recordsAt]

/-- Only entries are kept. -/
theorem exists_entry_of_mem {entries : List (String × Value)} {i : Nat} {name : String}
    (h : name ∈ (recordsAt i (records r outlets entries)).map (·.1)) : ∃ e ∈ entries, e.1 = name := by
  obtain ⟨⟨_, saved⟩, hmem, rfl⟩ := List.mem_map.1 h
  obtain ⟨record, hrecord, heq⟩ := List.mem_map.1 hmem
  obtain ⟨e, he, hsome⟩ := List.mem_filterMap.1 (List.mem_of_mem_filter hrecord)
  obtain ⟨j, -, hsaved⟩ := Option.bind_eq_some_iff.1 hsome
  obtain ⟨_, -, rfl⟩ := Option.map_eq_some_iff.1 hsaved
  exact ⟨e, he, congrArg Prod.fst heq⟩

/-- **What is kept of a variable under its own name.** -/
theorem get?_ofEntries_iff {m : VariableMap} {f : String → Option Value} (h : m.Reads f) {n : String}
    {v : Value} {i : Nat} {saved : Saved} (hn : f n = some v) (hne : n ≠ "")
    (hhome : home? outlets n = some i) (hsaved : (r.serialize v).value = some saved) :
    (Memory.ofEntries (recordsAt i (records r outlets m.entries))).get? n = some saved ↔ ¬Led n := by
  rw [h.entries_eq]
  constructor
  · intro hkept hled
    -- no entry has such a name
    have hnone : n ∉ (recordsAt i (records r outlets
        (m.allVariables.map fun e => (bare e.1, e.2)))).map (·.1) := by
      intro hmem
      obtain ⟨e, he, rfl⟩ := exists_entry_of_mem hmem
      obtain ⟨e', -, rfl⟩ := List.mem_map.1 he
      exact Variables.not_led_bare e'.1 hled
    rw [Memory.get?, Memory.ofEntries, Dict.ofList, Dict.get?_foldl_insert_of_notMem hnone] at hkept
    cases hkept
  · intro hled
    -- nothing behind the variable takes its name, so that its record is the last one of that name
    obtain ⟨front, back, hvars⟩ := List.append_of_mem (h.mem_variables.2 hn)
    have hbehind := h.ascending_variables
    rw [hvars] at hbehind
    have hlast : n ∉ (recordsAt i (records r outlets
        (back.map fun e => (bare e.1, e.2)))).map (·.1) := by
      intro hmem
      obtain ⟨e, he, heq⟩ := exists_entry_of_mem hmem
      obtain ⟨e', he', rfl⟩ := List.mem_map.1 he
      have hlt := (List.pairwise_cons.1 (List.pairwise_append.1 hbehind).2.1).1 e' he'
      exact Variables.bare_ne_of_lt hled hne hlt heq
    have hrecord : record? r outlets (n, v) = some (i, n, saved) := by
      rw [record?, hhome, Option.bind_some, hsaved, Option.map_some]
    rw [hvars, List.map_append, List.map_cons, bare_eq_self_iff.2 hled, records, List.filterMap_append,
      List.filterMap_cons_some hrecord, ← records, ← records, recordsAt_append, recordsAt_cons_self]
    exact Dict.get?_ofList_append _ n saved hlast

/-- **Under which names variables are saved.** After any calls for single variables, the entries are the
variables in the order of their segments, without the separators at the fronts of their names: so all
are reported under their own names if and only if none starts with a separator. To save all in a store
that has these variables is to hand over their records as they are reported. Where outlets in memory
keep them, a variable that can be saved is then kept under its own name exactly if that does not start
with a separator, unless it is empty. -/
theorem saveAll_under_own_names {changes : List VariableMap.Change} (h : ∀ c ∈ changes, c.Single) :
    let m := VariableMap.ofChanges changes
    let f := VariableMap.effect changes
    (∃ vars : List (String × Value), (∀ n v, (n, v) ∈ vars ↔ f n = some v) ∧
      (vars.Pairwise fun a b => (Variables.segments a.1).compareLex Variables.compareSegments
        (Variables.segments b.1) = .lt) ∧
      m.entries = vars.map fun e => (bare e.1, e.2)) ∧
    (∀ n v, f n = some v → ((n, v) ∈ m.entries ↔ ¬Led n)) ∧
    ((∀ n v, (n, v) ∈ m.entries ↔ f n = some v) ↔ ∀ n, f n ≠ none → ¬Led n) ∧
    ∀ (s : Store) (d : Disk), s.InUse → s.vars = m →
      s.saveAll.out d = (s.replaced (records s.registry s.outlets m.entries)).out d ∧
      ((∀ o ∈ s.outlets, ∃ memory, o.backend = .memory memory) →
        ∃ t, s.saveAll.out d = ((t, .ok ()), d) ∧
          ∀ n v i saved, f n = some v → n ≠ "" → home? s.outlets n = some i →
            (s.registry.serialize v).value = some saved → (KeptAt t.outlets i n saved ↔ ¬Led n)) := by
  intro m f
  have hreads : m.Reads f := VariableMap.Reads.empty.changes_single h
  refine ⟨⟨m.allVariables, fun n v => hreads.mem_variables, hreads.ascending_variables, hreads.entries_eq⟩,
    fun n v hn => hreads.mem_entries_iff hn, hreads.entries_iff, fun s d huse hvars => ?_⟩
  have hsave := huse.out_saveAll d
  rw [hvars] at hsave
  refine ⟨hsave, fun hmemory => ?_⟩
  rw [hsave, replaced, Work.out_bind, out_replaceContents_memory hmemory]
  refine ⟨_, rfl, fun n v i saved hn hne hhome hsaved => ?_⟩
  obtain ⟨hi, -⟩ := List.findIdx?_eq_some_iff_getElem.1 hhome
  rw [← get?_ofEntries_iff hreads hn hne hhome hsaved, KeptAt]
  dsimp only
  rw [List.getElem?_mapIdx, List.getElem?_eq_getElem hi, Option.map_some, Nat.zero_add]
  constructor
  · rintro ⟨o, memory, ho, hbackend, hkept⟩
    cases ho
    cases hbackend
    exact hkept
  · intro hkept
    exact ⟨_, _, rfl, rfl, hkept⟩

end

/-- A store over one storage in memory, with variables that calls have set. -/
def afterCalls (changes : List VariableMap.Change) : Store where
  registry := wordless
  vars := .ofChanges changes
  outlets := [(keeper []).working (.memory {})]

/-- Of two variables that would have the same name without separators, the one that has it is kept. -/
theorem saveAll_under_own_names_both :
    let changes : List VariableMap.Change := [.set "x" (some (.integer 1)), .set "::x" (some (.integer 2))]
    (∀ c ∈ changes, c.Single) ∧ (afterCalls changes).InUse ∧
      ∃ t, (afterCalls changes).saveAll.out {} = ((t, .ok ()), {}) ∧
        KeptAt t.outlets 0 "x" (integerRecord 1) ∧ ¬KeptAt t.outlets 0 "::x" (integerRecord 2) := by
  intro changes
  have hsingle : ∀ c ∈ changes, c.Single := by
    intro c hc
    rcases List.mem_pair.1 hc with rfl | rfl
    · exact (by decide : Variables.isList "x" = false)
    · exact (by decide : Variables.isList "::x" = false)
  have huse : (afterCalls changes).InUse := ⟨rfl, rfl, rfl, List.forall_mem_singleton.2 rfl⟩
  obtain ⟨t, hsave, hkept⟩ := ((saveAll_under_own_names hsingle).2.2.2 _ {} huse rfl).2
    (List.forall_mem_singleton.2 ⟨{}, rfl⟩)
  refine ⟨hsingle, huse, t, hsave, ?_, ?_⟩
  · exact (hkept "x" (.integer 1) 0 _ rfl (by decide) rfl rfl).2 (by decide)
  · intro hled
    exact (hkept "::x" (.integer 2) 0 _ rfl (by decide) rfl rfl).1 hled (by decide)

/-- A variable `::x` is reported as `x`, and `x` is what is saved. -/
theorem saveAll_under_other_name :
    let changes : List VariableMap.Change := [.set "::x" (some (.integer 1))]
    (VariableMap.ofChanges changes).value? "::x" = some (.integer 1) ∧
      (VariableMap.ofChanges changes).entries = [("x", .integer 1)] ∧
      ((afterCalls changes).saveAll.out {}).1.1.outlets
        = [(keeper []).working (.memory (.ofEntries [("x", integerRecord 1)]))] :=
  ⟨rfl, rfl, rfl⟩

end ScriptStore.Store
