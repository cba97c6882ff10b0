import ScriptStore.Proofs.Store.Routing

/-!
# Overwriting a value that was saved

A value that cannot be saved is kept among the variables only. The outlet that the variable belongs to
is not told of the change, and goes on keeping what was saved before. So when the store is closed and
built again over the same storage, every variable has the last of its values that could be saved
(`survivor`), and if that is not the last value it was set to, an overwritten value has come back
(`Reverts`). Deletions can always be saved.

All this is shown of a store over one storage in memory, to which all variables belong.
-/

namespace ScriptStore

open Storage
open History (told)
open ScriptStore.Types (Registry Saved)
open ScriptStore.Types.Builtin (wordless ofBuiltin_wordless)

namespace Store

section

variable {r : Registry} {d : Disk} {s : Store} {o : Outlet} {m : Memory}
  {arrange : List (String × Value × Nat) → List (String × Value × Nat)}

/-! ## Loading the only outlet -/

/-- The variables that come from the first outlet are its own, and each stands once. -/
structure Loading.Alone (l : Loading) : Prop where
  outlets : l.outlets = []
  keys : l.vars.keys.Nodup
  places : ∀ {name : String} {v : Value} {i : Nat}, l.vars.get? name = some (v, i) → i = 0

/-- The first outlet has nobody to be in conflict with. -/
theorem Loading.Alone.merge {l : Loading} (h : l.Alone) (current : String) (event : Event) (d : Disk) :
    ∃ vars, (l.merge current event).out d = ({ l with vars }, d) ∧ Alone { l with vars } ∧
      ∀ name, vars.get? name = if name = event.1 then event.2.map (·, 0) else l.vars.get? name := by
  obtain ⟨name, v⟩ := event
  obtain ⟨outlets, vars, conflicts, failures⟩ := l
  obtain rfl : outlets = [] := h.outlets
  cases v with
  | none =>
    have hget : ∀ n, (vars.erase name).get? n = if n = name then none else vars.get? n := by
      intro n
      rw [Dict.get?_erase]
      simp only [eq_comm]
    have hmerge : (Loading.merge ⟨[], vars, conflicts, failures⟩ current (name, none)).out d
        = (if (vars.get? name).map (·.2) = some 0 then ⟨[], vars.erase name, conflicts, failures⟩
            else ⟨[], vars, conflicts, failures⟩, d) := rfl
    by_cases hbefore : (vars.get? name).map (·.2) = some 0
    · rw [if_pos hbefore] at hmerge
      refine ⟨vars.erase name, hmerge, ⟨rfl, Dict.nodup_keys_erase h.keys name, ?_⟩, hget⟩
      intro n v i hn
      rw [hget] at hn
      split at hn
      · cases hn
      · exact h.places hn
    · -- what is not there need not be deleted
      rw [if_neg hbefore] at hmerge
      refine ⟨vars, hmerge, h, fun n => ?_⟩
      by_cases hn : n = name
      · rw [if_pos hn, hn]
        cases hname : vars.get? name with
        | none => rfl
        | some e =>
          rw [hname, Option.map_some, h.places hname] at hbefore
          exact absurd rfl hbefore
      · rw [if_neg hn]
  | some v =>
    have hget : ∀ n, (vars.insert name (v, 0)).get? n
        = if n = name then some (v, 0) else vars.get? n := by
      intro n
      rw [Dict.get?_insert]
      simp only [eq_comm]
    refine ⟨vars.insert name (v, 0), ?_, ⟨rfl, Dict.nodup_keys_insert h.keys name _, ?_⟩, hget⟩
    · unfold Loading.merge
      dsimp only
      cases (vars.get? name).map (·.2) <;> rfl
    · intro n v i hn
      rw [hget] at hn
      split at hn
      · cases hn
        rfl
      · exact h.places hn

theorem Loading.Alone.mergeAll {l : Loading} (h : l.Alone) (current : String) (events : List Event)
    (d : Disk) :
    ∃ vars, (l.mergeAll current events).out d = ({ l with vars }, d) ∧ Alone { l with vars } ∧
      ∀ name, vars.get? name
        = (((told name events).getLast?).map (·.map (·, 0))).getD (l.vars.get? name) := by
  induction events generalizing l with
  | nil => exact ⟨l.vars, rfl, h, fun _ => rfl⟩
  | cons event events ih =>
    obtain ⟨vars₁, hmerge, halone₁, hget₁⟩ := h.merge current event d
    obtain ⟨vars, hall, halone, hget⟩ := ih halone₁
    refine ⟨vars, ?_, halone, fun name => ?_⟩
    · rw [Loading.mergeAll, Work.out_bind, hmerge]
      exact hall
    · rw [hget, hget₁, History.told_cons]
      by_cases hname : event.1 = name
      · rw [if_pos hname, if_pos hname.symm, List.getLast?_cons]
        cases (told name events).getLast? <;> rfl
      · rw [if_neg hname, if_neg (Ne.symm hname)]

/-! ## A store over one storage in memory -/

/-- What is at home stays where it is. -/
theorem out_placeAll_home {entries : List (String × Value × Nat)}
    (h : ∀ e ∈ entries, home? s.outlets e.1 = some e.2.2) (d : Disk) :
    (s.placeAll entries).out d
      = ((0, { s with vars := s.vars.setAll (entries.map fun e => (e.1, e.2.1)) }), d) := by
  induction entries generalizing s with
  | nil => rfl
  | cons e entries ih =>
    obtain ⟨name, v, source⟩ := e
    obtain ⟨hhome, hrest⟩ := List.forall_mem_cons.1 h
    have hplace : (s.place name v source).out d
        = ((false, { s with vars := (s.vars.set name (some v)).value }), d) := by
      unfold Store.place
      dsimp only
      rw [hhome]
      dsimp only
      rw [if_pos rfl]
      rfl
    rw [Store.placeAll, Work.out_bind, hplace]
    dsimp only
    rw [Work.out_bind, ih (s := { s with vars := (s.vars.set name (some v)).value }) hrest]
    rfl

/-- An outlet in memory to which all variables belong, before it is loaded. -/
structure KeepsAll (o : Outlet) (m : Memory) : Prop where
  backend : o.backend = .memory m
  keys : m.entries.keys.Nodup
  accepts : ∀ name, o.accepts name = true
  waiting : o.delivery = .queued [] false

theorem KeepsAll.home?_eq (h : KeepsAll o m) (b : Backend) (name : String) :
    home? [o.working b] name = some 0 := by
  have haccepts : (o.working b).accepts name = true := h.accepts name
  rw [home?, List.findIdx?_cons, haccepts]
  rfl

/-- **A store over one storage in memory** has the variables that can be loaded. -/
theorem KeepsAll.exists_build (h : KeepsAll o m) (harrange : ∀ entries, (arrange entries).Perm entries)
    (r : Registry) (d : Disk) :
    ∃ vars, (buildIn arrange r [o] 0).out d
        = (({ registry := r, vars, outlets := [o.working (.memory m)] }, .ok ()), d) ∧
      ∀ n, Variables.isList n = false →
        vars.value? n = (m.get? n).bind fun saved => (r.load saved).value := by
  have halone : Loading.Alone { failures := 0 } := ⟨rfl, List.nodup_nil, fun h => by cases h⟩
  obtain ⟨loaded, hall, hloaded, hget⟩ := halone.mergeAll o.name (m.load r).value d
  have hbackend : (o.backend.load r).out d = (⟨.memory m, (m.load r).value, none⟩, d) := by
    rw [h.backend]
    rfl
  have hload : (Loading.addAll { failures := 0 } r [o]).out d
      = ({ outlets := [o.working (.memory m)], vars := loaded, failures := 0 }, d) := by
    rw [Loading.addAll, Work.out_bind, Loading.out_add h.waiting hbackend, hall]
    rfl
  have hvars : ∀ n, loaded.get? n
      = ((m.get? n).bind fun saved => (r.load saved).value).map (·, 0) := by
    intro n
    rw [hget, Memory.told_load h.keys]
    cases (m.get? n).bind fun saved => (r.load saved).value <;> rfl
  -- the only outlet accepts all that it has handed over, so nothing is moved
  have hhome : ∀ e ∈ arrange loaded.entries, home? [o.working (.memory m)] e.1 = some e.2.2 := by
    intro e he
    have hentry := (Dict.mem_entries_iff hloaded.keys).1 ((harrange _).mem_iff.1 he)
    rw [h.home?_eq, hloaded.places hentry]
  have hplace := out_placeAll_home (s := { registry := r, outlets := [o.working (.memory m)] }) hhome d
  have hkeys : ((arrange loaded.entries).map (·.1)).Nodup :=
    ((harrange _).map _).nodup_iff.2 hloaded.keys
  refine ⟨_, (out_buildIn arrange r [o] 0 d hload hplace).trans rfl, fun n hn => ?_⟩
  have hreads := VariableMap.Reads.empty.setAll
    (l := (arrange loaded.entries).map fun e => (e.1, e.2.1)) (by rw [List.map_map]; exact hkeys)
  have hlookup : Dict.lookup n (arrange loaded.entries) = loaded.get? n :=
    Dict.lookup_perm (harrange _).symm hloaded.keys n
  rw [hreads.flat, hn, if_neg Bool.false_ne_true,
    Dict.lookup_map (fun e : Value × Nat => e.1) n (arrange loaded.entries), hlookup, hvars,
    Option.or_none]
  cases (m.get? n).bind fun saved => (r.load saved).value <;> rfl

/-! ## What the memory keeps -/

/-- The changes that can be saved, as they are. -/
def savedOf (r : Registry) (changes : List Event) : List Change :=
  changes.filterMap fun c => (saved? r c.2).map (c.1, ·)

/-- What changes leave in memory: the last record that was saved of a variable. -/
theorem get?_foldl_save (r : Registry) (changes : List Event) (m : Memory) (n : String) :
    ((savedOf r changes).foldl Memory.save m).get? n
      = (((told n changes).filterMap (saved? r)).getLast?).getD (m.get? n) := by
  induction changes generalizing m with
  | nil => rfl
  | cons c changes ih =>
    obtain ⟨name, v⟩ := c
    rw [savedOf, List.filterMap_cons, History.told_cons]
    cases hsaved : saved? r v with
    | none =>
      -- the memory is not told of it
      dsimp only [Option.map_none]
      rw [← savedOf, ih]
      split
      · rw [List.filterMap_cons, hsaved]
      · rfl
    | some saved =>
      dsimp only [Option.map_some]
      rw [← savedOf, List.foldl_cons, ih, Memory.get?_save]
      by_cases hname : name = n
      · rw [if_pos hname, if_pos hname, List.filterMap_cons, hsaved]
        dsimp only
        rw [List.getLast?_cons]
        rfl
      · rw [if_neg hname, if_neg hname]

theorem nodup_keys_foldl_save (h : m.entries.keys.Nodup) (changes : List Change) :
    (changes.foldl Memory.save m).entries.keys.Nodup := by
  induction changes generalizing m with
  | nil => exact h
  | cons c changes ih =>
    obtain ⟨name, saved⟩ := c
    cases saved with
    | none => exact ih (Dict.nodup_keys_erase h name)
    | some saved => exact ih (Dict.nodup_keys_insert h name saved)

theorem KeepsAll.out_deliver (h : KeepsAll o m) (changes : List Event) (d : Disk) :
    (deliver (deliveries r [o.working (.memory m)] changes) [o.working (.memory m)]).out d
      = ([o.working (.memory ((savedOf r changes).foldl Memory.save m))], d) := by
  have hlog : deliveries r [o.working (.memory m)] changes = (savedOf r changes).map (0, ·) := by
    rw [savedOf, List.map_filterMap, deliveries]
    refine List.filterMap_congr fun c _ => ?_
    rw [delivery?, h.home?_eq, Option.bind_some, Option.map_map]
    rfl
  have hdeliver : ∀ (log : List Change) (m : Memory),
      (deliver (log.map (0, ·)) [o.working (.memory m)]).out d
        = ([o.working (.memory (log.foldl Memory.save m))], d) := by
    intro log
    induction log with
    | nil => exact fun _ => rfl
    | cons change log ih => exact fun m => ih (m.save change)
  rw [hlog]
  exact hdeliver _ m

/-! ## Building once more -/

/-- The outlet may be loaded again, whatever is in its memory when it is closed. -/
theorem KeepsAll.reopened (h : KeepsAll o m) {m' : Memory} (hkeys : m'.entries.keys.Nodup) :
    KeepsAll (o.working (.memory m')).shut.afresh m' :=
  ⟨rfl, hkeys, h.accepts, rfl⟩

/-- **What is found again** of a variable is what is loaded of the last change that was saved. -/
theorem KeepsAll.exists_rebuild (h : KeepsAll o m)
    (harrange : ∀ entries, (arrange entries).Perm entries) (r : Registry) (d : Disk)
    (calls late : List Event) :
    ∃ s t, (buildIn arrange r [o] 0).out d = ((s, .ok ()), d) ∧ s.registry = r ∧ s.InUse ∧
      (buildIn arrange r (((s.session calls late).out d).1.outlets.map Outlet.afresh) 0).out
        ((s.session calls late).out d).2 = ((t, .ok ()), d) ∧
      ∀ n, Variables.isList n = false → t.vars.value? n =
        ((((told n (effects r s.vars calls)).filterMap (saved? r)).getLast?).map
          (·.bind fun saved => (r.load saved).value)).getD (s.vars.value? n) := by
  obtain ⟨vars, hbuild, hvalue⟩ := h.exists_build harrange r d
  have huse : InUse { registry := r, vars, outlets := [o.working (.memory m)] } :=
    ⟨rfl, rfl, rfl, List.forall_mem_singleton.2 rfl⟩
  have hsession := huse.out_session calls late d
  dsimp only at hsession
  rw [h.out_deliver] at hsession
  obtain ⟨vars', hbuild', hvalue'⟩ :=
    (h.reopened (nodup_keys_foldl_save h.keys (savedOf r (effects r vars calls)))).exists_build
      harrange r d
  have hrebuild := congrArg (fun e : Store × Disk =>
    (buildIn arrange r (e.1.outlets.map Outlet.afresh) 0).out e.2) hsession
  refine ⟨_, _, hbuild, rfl, huse, hrebuild.trans hbuild', fun n hn => ?_⟩
  rw [hvalue' n hn, get?_foldl_save, hvalue n hn]
  cases ((told n (effects r vars calls)).filterMap (saved? r)).getLast? <;> rfl

/-- The last entry of a history that could be saved; if there is none, what was there at the start. -/
def survivor (r : Registry) (start : Option Value) (h : History) : Option Value :=
  ((h.filter fun v => v.all (saves r)).getLast?).getD start

/-- An overwritten value comes back: the last one cannot be saved, and another one was. -/
def Reverts (r : Registry) (start : Option Value) (h : History) : Prop :=
  ∃ v u, h.getLast? = some (some v) ∧ saves r v = false ∧ survivor r start h = some u ∧ u ≠ v

/-- Whether values are loaded as they were saved. -/
def Keeps (r : Registry) : Prop :=
  ∀ v saved, (r.serialize v).value = some saved → (r.load saved).value = some v

/-- What is saved of a history, and loaded again. -/
theorem Keeps.map_filterMap (h : Keeps r) (history : History) :
    (history.filterMap (saved? r)).map (·.bind fun saved => (r.load saved).value)
      = history.filter fun v => v.all (saves r) := by
  induction history with
  | nil => rfl
  | cons v history ih =>
    rw [List.filterMap_cons, List.filter_cons]
    cases v with
    | none => exact congrArg (none :: ·) ih
    | some v =>
      cases hsaved : (r.serialize v).value with
      | none => simpa [saved?, saves, hsaved] using ih
      | some saved => simpa [saved?, saves, hsaved, h v saved hsaved] using ih

/-- A change that can be saved survives. -/
theorem survivor_of_getLast? {start v : Option Value} {history : History}
    (hlast : history.getLast? = some v) (hsaves : v.all (saves r) = true) :
    survivor r start history = v := by
  obtain ⟨front, rfl⟩ := List.getLast?_eq_some_iff.1 hlast
  rw [survivor, List.filter_append, List.filter_cons_of_pos hsaves, List.filter_nil,
    List.getLast?_concat]
  rfl

/-- **Nothing but an earlier value that was saved can be found in place of the last one.** -/
theorem not_reverts_iff {start : Option Value} {history : History} :
    (survivor r start history = none ∨ survivor r start history = History.final (start :: history)) ↔
      ¬ Reverts r start history := by
  have hfinal : History.final (start :: history) = (history.getLast?).getD start := by
    rw [History.final, List.getLast?_cons]
    rfl
  rw [hfinal]
  constructor
  · rintro hsame ⟨v, u, hlast, -, hsurvivor, hne⟩
    rw [hsurvivor, hlast, Option.getD_some, Option.some.injEq] at hsame
    rcases hsame with hsame | hsame
    · cases hsame
    · exact hne hsame
  · intro hreverts
    cases hlast : history.getLast? with
    | none =>
      rw [List.getLast?_eq_none_iff] at hlast
      subst hlast
      exact .inr rfl
    | some v =>
      by_cases hsaves : v.all (saves r) = true
      · exact .inr (survivor_of_getLast? hlast hsaves)
      · -- the last value is lost: whatever is found is an earlier one
        cases v with
        | none => exact absurd rfl hsaves
        | some v =>
          cases hsurvivor : survivor r start history with
          | none => exact .inl rfl
          | some u =>
            by_cases hu : u = v
            · exact .inr (congrArg some hu)
            · exact absurd ⟨v, u, hlast, Bool.eq_false_iff.2 hsaves, hsurvivor, hu⟩ hreverts

/-- **What a variable is when the store is built again.** After any calls, closing the store and
building one over the same storage, a variable has what is loaded of the last change that could be
saved. If the registry loads values as they were saved, this is nothing or the last value, except when
the last value cannot be saved and an earlier one was: then the earlier one has come back. -/
theorem value?_rebuilt_iff (h : KeepsAll o m) (harrange : ∀ entries, (arrange entries).Perm entries)
    (r : Registry) (d : Disk) (calls late : List Event) :
    ∃ s t, (buildIn arrange r [o] 0).out d = ((s, .ok ()), d) ∧
      (buildIn arrange r (((s.session calls late).out d).1.outlets.map Outlet.afresh) 0).out
        ((s.session calls late).out d).2 = ((t, .ok ()), d) ∧
      ∀ n, Variables.isList n = false →
        let history := told n (effects r s.vars calls)
        (t.vars.value? n = (((history.filterMap (saved? r)).getLast?).map
          (·.bind fun saved => (r.load saved).value)).getD (s.vars.value? n)) ∧
        (Keeps r → t.vars.value? n = survivor r (s.vars.value? n) history ∧
          ((t.vars.value? n = none ∨ t.vars.value? n = History.final (s.vars.value? n :: history)) ↔
            ¬ Reverts r (s.vars.value? n) history)) := by
  obtain ⟨s, t, hbuild, -, -, hrebuild, hvalue⟩ := h.exists_rebuild harrange r d calls late
  refine ⟨s, t, hbuild, hrebuild, fun n hn => ⟨hvalue n hn, fun hkeeps => ?_⟩⟩
  have hsurvivor : t.vars.value? n = survivor r (s.vars.value? n) (told n (effects r s.vars calls)) := by
    rw [hvalue n hn, survivor, ← hkeeps.map_filterMap, List.getLast?_map]
  rw [hsurvivor]
  exact ⟨rfl, not_reverts_iff⟩

end

/-- An outlet in memory for all variables. -/
def keeper (entries : List (String × Saved)) : Outlet where
  name := "default"
  pattern := none
  backend := .memory (.ofEntries entries)

/-- A list, which no serializer is for. -/
def unsavable : Value := .list [.integer 2]

/-- Of three variables, one is overwritten by a value that cannot be saved, one by a value that can,
and one is deleted. -/
theorem value?_rebuilt_iff_keeper :
    let calls : List Event := [("x", some (.integer 1)), ("y", some unsavable), ("x", some unsavable),
      ("y", some (.integer 3)), ("z", none)]
    ∃ s t, (buildIn List.reverse wordless [keeper [("z", integerRecord 9)]] 0).out {}
        = ((s, .ok ()), {}) ∧
      (buildIn List.reverse wordless (((s.session calls []).out {}).1.outlets.map Outlet.afresh) 0).out
        ((s.session calls []).out {}).2 = ((t, .ok ()), {}) ∧
      t.vars.value? "x" = some (.integer 1) ∧ t.vars.value? "y" = some (.integer 3) ∧
      t.vars.value? "z" = none := by
  intro calls
  have hkeeps : Keeps wordless := fun v saved hsaved => (ofBuiltin_wordless.faithful.loadsAs hsaved).load
  have hkeeper : KeepsAll (keeper [("z", integerRecord 9)]) (.ofEntries [("z", integerRecord 9)]) :=
    ⟨rfl, by decide, fun _ => rfl, rfl⟩
  obtain ⟨s, t, hbuild, hrebuild, hvalue⟩ :=
    value?_rebuilt_iff hkeeper List.reverse_perm wordless {} calls []
  have htold : ∀ n, told n (effects wordless s.vars calls) = told n calls := fun n => rfl
  refine ⟨s, t, hbuild, hrebuild, ?_, ?_, ?_⟩
  · rw [((hvalue "x" rfl).2 hkeeps).1, htold]
    rfl
  · rw [((hvalue "y" rfl).2 hkeeps).1, htold]
    rfl
  · rw [((hvalue "z" rfl).2 hkeeps).1, htold]
    rfl

/-- A variable that was set to `1` and then to a list is `1` again in the next store. -/
theorem overwritten_value_returns :
    let calls : List Event := [("x", some (.integer 1)), ("x", some unsavable)]
    ∃ s t, (buildIn id wordless [keeper []] 0).out {} = ((s, .ok ()), {}) ∧
      ((s.session calls []).out {}).1.vars.value? "x" = some unsavable ∧
      (buildIn id wordless (((s.session calls []).out {}).1.outlets.map Outlet.afresh) 0).out
        ((s.session calls []).out {}).2 = ((t, .ok ()), {}) ∧
      t.vars.value? "x" = some (.integer 1) := by
  intro calls
  have hkeeper : KeepsAll (keeper []) (.ofEntries []) := ⟨rfl, List.nodup_nil, fun _ => rfl, rfl⟩
  have harrange : ∀ entries : List (String × Value × Nat), (id entries).Perm entries := fun _ => .refl _
  obtain ⟨s, t, hbuild, hregistry, huse, hrebuild, hvalue⟩ :=
    hkeeper.exists_rebuild harrange wordless {} calls []
  refine ⟨s, t, hbuild, ?_, hrebuild, ?_⟩
  · have hvars := congrArg (·.1.vars) (huse.out_session calls [] {})
    dsimp only at hvars
    rw [hvars, hregistry]
    exact (Dict.get?_insert _ "x" "x" unsavable).trans (if_pos rfl)
  · rw [hvalue "x" rfl]
    rfl

end Store

end ScriptStore
