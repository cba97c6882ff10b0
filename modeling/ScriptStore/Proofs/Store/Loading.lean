import ScriptStore.Proofs.Store.Outlets
import ScriptStore.Store.Loading

/-!
# Building a store, one variable at a time

Building a store over outlets loads them one after the other, and then puts every variable where it
belongs. Seen from one variable, loading an outlet is a fold over what the outlet tells of it
(`Loading.mergeAll_spec`), so that after all are loaded the histories are `History.merged` and the
variable is `History.latest`; putting it where it belongs makes the histories `History.settled`.
-/

namespace ScriptStore.Store

open Storage
open History (told mergeEvent latest merged moved)
open ScriptStore.Types (Registry Saved)

namespace Loading

/-- What a variable looks like while outlets are loaded, and what they tell of it. -/
def view (r : Registry) (d : Disk) (l : Loading) (rest : List Outlet) (name : String) :
    Option (Value × Nat) × (Nat → History) :=
  (l.vars.get? name, histories r d (l.outlets ++ rest) name)

/-- What holds between two outlets: the first are loaded, and every variable was taken from one that
takes its name. -/
structure Holds (r : Registry) (d : Disk) (n : Nat) (l : Loading) (rest : List Outlet) : Prop where
  standing : Standing r d n (l.outlets ++ rest)
  keys : l.vars.keys.Nodup
  takes : ∀ {name : String} {e : Value × Nat} {o : Outlet}, l.vars.get? name = some e →
    l.outlets[e.2]? = some o → o.backend.medium.Takes name

section

variable {r : Registry} {d : Disk} {n : Nat} {l : Loading} {rest : List Outlet}

/-- Between two states of loading, one variable has changed. -/
structure Merges (r : Registry) (d d' : Disk) (n : Nat) (l l' : Loading) (rest : List Outlet)
    (e : Event) : Prop where
  holds : l'.Holds r d' n rest
  keeps : d.Keeps d'
  failures : l'.failures = l.failures
  profiles : l'.outlets.map Outlet.profile = l.outlets.map Outlet.profile
  view : ∀ name, l'.view r d' rest name =
    if name = e.1 then
      mergeEvent (keyedAt (l.outlets ++ rest)) l.outlets.length (l.view r d rest name) e.2
    else l.view r d rest name

/-- A deletion concerns what the outlet itself has given before. -/
theorem merge_deletion (h : l.Holds r d n rest) (current name : String) :
    ∃ l', (l.merge current (name, none)).out d = (l', d) ∧ Merges r d d n l l' rest (name, none) := by
  by_cases hown : (l.vars.get? name).map (·.2) = some l.outlets.length
  · refine ⟨{ l with vars := l.vars.erase name }, ?_, ⟨h.standing, ?_, ?_⟩, .refl d, rfl, rfl, ?_⟩
    · unfold merge
      dsimp only
      rw [if_pos hown]
      rfl
    · exact Dict.nodup_keys_erase h.keys name
    · intro name' e o he ho
      rw [Dict.get?_erase] at he
      split at he
      · cases he
      · exact h.takes he ho
    · intro name'
      rw [view, Dict.get?_erase]
      by_cases heq : name' = name
      · subst heq
        rw [if_pos rfl, if_pos rfl, mergeEvent]
        exact (if_pos hown).symm
      · rw [if_neg (Ne.symm heq), if_neg heq]
        rfl
  · refine ⟨l, ?_, h, .refl d, rfl, rfl, fun name' => ?_⟩
    · unfold merge
      dsimp only
      rw [if_neg hown]
      rfl
    · by_cases heq : name' = name
      · subst heq
        rw [if_pos rfl, mergeEvent]
        exact (if_neg hown).symm
      · rw [if_neg heq]

/-- The loading after a value was taken from the outlet that stands next. -/
def taken (l : Loading) (name : String) (v : Value) : Loading :=
  { l with vars := l.vars.insert name (v, l.outlets.length) }

theorem get?_taken (l : Loading) (name : String) (v : Value) (name' : String) :
    (l.taken name v).vars.get? name' =
      if name = name' then some (v, l.outlets.length) else l.vars.get? name' :=
  Dict.get?_insert l.vars name name' _

/-- A value from the outlet that stands next is of no concern to those before it. -/
theorem takes_taken (h : l.Holds r d n rest) (name : String) (v : Value) {outlets : List Outlet}
    (hprofiles : outlets.map Outlet.profile = l.outlets.map Outlet.profile)
    {name' : String} {e : Value × Nat} {o : Outlet}
    (he : (l.taken name v).vars.get? name' = some e) (ho : outlets[e.2]? = some o) :
    o.backend.medium.Takes name' := by
  obtain ⟨o', ho', hmedium⟩ := getElem?_of_profiles hprofiles ho
  rw [get?_taken] at he
  split at he
  · cases he
    rw [List.getElem?_eq_none (Nat.le_refl _)] at ho'
    cases ho'
  · rw [← hmedium]
    exact h.takes he ho'

/-- A value is taken alone if the variable is new, or comes from the same outlet. -/
theorem merge_new (h : l.Holds r d n rest) (current name : String) (v : Value)
    (hnew : (l.vars.get? name).bind (fun e => l.outlets[e.2]?) = none) :
    (l.merge current (name, some v)).out d = (l.taken name v, d) ∧
      Merges r d d n l (l.taken name v) rest (name, some v) := by
  refine ⟨?_, ⟨h.standing, ?_, takes_taken h name v rfl⟩, .refl d, rfl, rfl, fun name' => ?_⟩
  · unfold merge
    dsimp only
    have hbind : ((l.vars.get? name).map (·.2)).bind
        (fun i => l.outlets[i]?.map (i, ·)) = none := by
      rw [Option.bind_map]
      cases hget : l.vars.get? name with
      | none => rfl
      | some e =>
        rw [hget] at hnew
        simpa using hnew
    rw [hbind]
    rfl
  · exact Dict.nodup_keys_insert h.keys name _
  · rw [view, get?_taken]
    by_cases heq : name' = name
    · subst heq
      rw [if_pos rfl, if_pos rfl, mergeEvent, view]
      -- no outlet in front has given the variable, so none is told to delete it
      have hfilter : ((l.vars.get? name').map (·.2)).filter (· < l.outlets.length) = none := by
        cases hget : l.vars.get? name' with
        | none => rfl
        | some e =>
          rw [hget] at hnew
          have hle : l.outlets.length ≤ e.2 := List.getElem?_eq_none_iff.1 hnew
          simpa [Option.filter] using hle
      rw [hfilter]
      rfl
    · rw [if_neg (Ne.symm heq), if_neg heq]
      rfl

/-- Where the variable came from before, it is deleted. -/
theorem merge_conflict (h : l.Holds r d n rest) (hn : l.outlets.length ≤ n) (hr : r.Faithful)
    (current name : String) (v : Value) {e : Value × Nat} {older : Outlet}
    (he : l.vars.get? name = some e) (ho : l.outlets[e.2]? = some older) :
    ∃ l' d', (l.merge current (name, some v)).out d = (l', d') ∧
      Merges r d d' n l l' rest (name, some v) := by
  obtain ⟨hlt, _⟩ := List.getElem?_eq_some_iff.1 ho
  obtain ⟨outlets, d', hqueue, hprofiles, hkeeps, hstanding, hhistories⟩ := h.standing.queueAt hr ho
    (Nat.lt_of_lt_of_le hlt hn) (h.takes he ho) (show r.Writes none none from trivial)
  -- the older outlet is told to delete the variable, and the value is taken from the new one
  refine ⟨{ l.taken name v with outlets, conflicts := l.conflicts + 1 }, d', ?_,
    ⟨hstanding, ?_, takes_taken h name v hprofiles⟩, hkeeps, rfl, hprofiles, fun name' => ?_⟩
  · unfold merge
    dsimp only
    rw [he]
    dsimp only [Option.map_some, Option.bind_some]
    rw [ho]
    dsimp only [Option.map_some]
    rw [Work.out_bind, Work.out_lift, Work.out_bind, hqueue]
    rfl
  · exact Dict.nodup_keys_insert h.keys name _
  · rw [view, hhistories]
    show ((l.taken name v).vars.get? name', _) = _
    rw [get?_taken]
    by_cases heq : name' = name
    · subst heq
      have hfilter : ((l.vars.get? name').map (·.2)).filter (· < l.outlets.length) = some e.2 := by
        rw [he]
        simpa [Option.filter] using hlt
      rw [if_pos rfl, if_pos rfl, if_pos rfl, mergeEvent, view, hfilter]
      rfl
    · rw [if_neg (Ne.symm heq), if_neg heq, if_neg heq]
      rfl

/-- **An event changes what it is about**, as `mergeEvent` says. -/
theorem merge_spec (h : l.Holds r d n rest) (hn : l.outlets.length ≤ n) (hr : r.Faithful)
    (current : String) (e : Event) :
    ∃ l' d', (l.merge current e).out d = (l', d') ∧ Merges r d d' n l l' rest e := by
  obtain ⟨name, v⟩ := e
  cases v with
  | none =>
    obtain ⟨l', hmerge, hmerges⟩ := merge_deletion h current name
    exact ⟨l', d, hmerge, hmerges⟩
  | some v =>
    cases hbefore : (l.vars.get? name).bind fun e => l.outlets[e.2]? with
    | none =>
      obtain ⟨hmerge, hmerges⟩ := merge_new h current name v hbefore
      exact ⟨_, d, hmerge, hmerges⟩
    | some older =>
      obtain ⟨e, he, ho⟩ := Option.bind_eq_some_iff.1 hbefore
      exact merge_conflict h hn hr current name v he ho

/-- **The events of an outlet are taken in one after the other.** -/
theorem mergeAll_spec (h : l.Holds r d n rest) (hn : l.outlets.length ≤ n) (hr : r.Faithful)
    (current : String) (events : List Event) :
    ∃ l' d', (l.mergeAll current events).out d = (l', d') ∧ l'.Holds r d' n rest ∧ d.Keeps d' ∧
      l'.failures = l.failures ∧ l'.outlets.map Outlet.profile = l.outlets.map Outlet.profile ∧
      ∀ name, l'.view r d' rest name = (told name events).foldl
        (mergeEvent (keyedAt (l.outlets ++ rest)) l.outlets.length) (l.view r d rest name) := by
  induction events generalizing l d with
  | nil => exact ⟨l, d, rfl, h, .refl d, rfl, rfl, fun _ => rfl⟩
  | cons e events ih =>
    obtain ⟨l₁, d₁, hmerge, hmerges⟩ := merge_spec h hn hr current e
    have hlength : l₁.outlets.length = l.outlets.length := by
      simpa using congrArg List.length hmerges.profiles
    obtain ⟨l', d', hall, hholds, hkeeps, hfailures, hprofiles, hview⟩ :=
      ih hmerges.holds (hlength ▸ hn)
    have hkeyed : keyedAt (l₁.outlets ++ rest) = keyedAt (l.outlets ++ rest) :=
      keyedAt_congr (by rw [List.map_append, List.map_append, hmerges.profiles])
    refine ⟨l', d', ?_, hholds, hmerges.keeps.trans hkeeps, hfailures.trans hmerges.failures,
      hprofiles.trans hmerges.profiles, fun name => ?_⟩
    · rw [mergeAll, Work.out_bind, hmerge, hall]
    · rw [hview, hmerges.view, hkeyed, hlength, History.told_cons]
      by_cases heq : name = e.1
      · rw [if_pos heq, if_pos heq.symm, List.foldl_cons]
      · rw [if_neg heq, if_neg (Ne.symm heq)]

end

/-! ## Loading all outlets -/

/-- What holds when some of the outlets are loaded that had the histories `H`, and `rest` waits. -/
structure Reached (r : Registry) (H : String → Nat → History) (outlets : List Outlet) (d : Disk)
    (l : Loading) (rest : List Outlet) : Prop where
  standing : Standing r d l.outlets.length (l.outlets ++ rest)
  keys : l.vars.keys.Nodup
  profiles : (l.outlets ++ rest).map Outlet.profile = outlets.map Outlet.profile
  view : ∀ name, l.view r d rest name = (latest (H name) l.outlets.length,
    merged (keyedAt outlets) (H name) l.outlets.length)

section

variable {r : Registry} {H : String → Nat → History} {outlets : List Outlet} {d : Disk}
  {l : Loading} {rest : List Outlet}

theorem Reached.takes (h : Reached r H outlets d l rest) (hnames : Suited outlets H) {name : String}
    {e : Value × Nat} {o : Outlet} (he : l.vars.get? name = some e)
    (ho : (l.outlets ++ rest)[e.2]? = some o) :
    o.backend.medium.Takes name := by
  have hlatest : latest (H name) l.outlets.length = some (e.1, e.2) :=
    (congrArg Prod.fst (h.view name)).symm.trans he
  obtain ⟨_, hfinal, _⟩ := History.latest_eq_some_iff.1 hlatest
  obtain ⟨p, hp, hmedium⟩ := getElem?_of_profiles h.profiles ho
  rw [← hmedium]
  refine hnames hp (.inl fun hnil => ?_)
  rw [hnil] at hfinal
  cases hfinal

/-- The outlet that stands next has told nothing yet. -/
theorem Reached.told_next {o : Outlet} (h : Reached r H outlets d l (o :: rest)) (name : String) :
    histories r d (l.outlets ++ o :: rest) name l.outlets.length = told name (o.backend.events r d) ∧
      told name (o.backend.events r d) = H name l.outlets.length := by
  have ho : (l.outlets ++ o :: rest)[l.outlets.length]? = some o := by simp
  have hnext : histories r d (l.outlets ++ o :: rest) name l.outlets.length
      = told name (o.backend.events r d) := by
    rw [histories, ho]
    rfl
  have hview : histories r d (l.outlets ++ o :: rest) name l.outlets.length
      = merged (keyedAt outlets) (H name) l.outlets.length l.outlets.length :=
    congrArg (fun e => e.2 l.outlets.length) (h.view name)
  refine ⟨hnext, hnext.symm.trans (hview.trans ?_)⟩
  rw [History.merged, if_neg (fun hlt => Nat.lt_irrefl _ hlt.1)]

/-- An outlet that has been loaded tells what it told before. -/
theorem Reached.started {o : Outlet} (h : Reached r H outlets d l (o :: rest))
    (hnames : Suited outlets H) {b : Backend} {events : List Event} {d' : Disk}
    (hload : (o.backend.load r).out d = (⟨b, events, none⟩, d')) :
    l.Holds r d' (l.outlets.length + 1) (o.working b :: rest) ∧ d.Keeps d' ∧
      (l.outlets ++ o.working b :: rest).map Outlet.profile = outlets.map Outlet.profile ∧
      ∀ name, l.view r d' (o.working b :: rest) name = l.view r d (o :: rest) name := by
  have ho : (l.outlets ++ o :: rest)[l.outlets.length]? = some o := by simp
  obtain ⟨_, hmedium, hworks, hsound, hconfines, hsame⟩ :=
    (h.standing.loadable ho (Nat.le_refl _)).2.load_spec h.standing.sound hload
  obtain ⟨hstanding, hprofiles, hhistories⟩ := h.standing.replace ho
    (show (o.working b).profile = o.profile from congrArg (Prod.mk o.pattern) hmedium)
    hsound hconfines
    (show ∀ j, j ≠ l.outlets.length → (j < l.outlets.length + 1 ↔ j < l.outlets.length) by omega)
    (Nat.lt_succ_self _) rfl hworks
  rw [List.set_append_right _ _ (Nat.le_refl _), Nat.sub_self, List.set_cons_zero]
    at hstanding hprofiles hhistories
  refine ⟨⟨hstanding, h.keys, fun he ho => h.takes hnames he ?_⟩, hconfines.keeps,
    hprofiles.trans h.profiles, fun name => ?_⟩
  · rw [List.getElem?_append_left (List.getElem?_eq_some_iff.1 ho).1, ho]
  · rw [Loading.view, hhistories]
    show (l.vars.get? name, Function.update (histories r d (l.outlets ++ o :: rest) name)
      l.outlets.length (told name (b.events r d'))) = _
    rw [hsame, ← (h.told_next name).1, Function.update_eq_self]
    rfl

/-- An outlet that can be loaded is started, hands over its events, and stands behind the others. -/
theorem out_add {l : Loading} {o : Outlet} {warned : Bool} (hdelivery : o.delivery = .queued [] warned)
    {b : Backend} {events : List Event} {d₁ : Disk}
    (hload : (o.backend.load r).out d = (⟨b, events, none⟩, d₁)) :
    (l.add r o).out d = ({ ((l.mergeAll o.name events).out d₁).1 with
        outlets := ((l.mergeAll o.name events).out d₁).1.outlets ++ [o.working b] },
      ((l.mergeAll o.name events).out d₁).2) := by
  unfold Loading.add
  rw [Work.out_bind, hload]
  dsimp only
  rw [Work.out_bind, out_start hdelivery]
  rfl

/-- **Loading one more outlet.** -/
theorem Reached.add {o : Outlet} (h : Reached r H outlets d l (o :: rest)) (hr : r.Faithful)
    (hnames : Suited outlets H) {b : Backend} {events : List Event} {d₁ : Disk}
    (hload : (o.backend.load r).out d = (⟨b, events, none⟩, d₁)) :
    ∃ l' d', (l.add r o).out d = (l', d') ∧ Reached r H outlets d' l' rest ∧
      l'.failures = l.failures ∧ d.Keeps d' := by
  have ho : (l.outlets ++ o :: rest)[l.outlets.length]? = some o := by simp
  obtain ⟨hdelivery, hloadable⟩ := h.standing.loadable ho (Nat.le_refl _)
  obtain ⟨hevents, _⟩ := hloadable.load_spec h.standing.sound hload
  obtain ⟨hholds, hkeeps, hprofiles, hview⟩ := h.started hnames hload
  obtain ⟨l₂, d₂, hall, hholds₂, hkeeps₂, hfailures, hprofiles₂, hview₂⟩ :=
    mergeAll_spec hholds (Nat.le_succ _) hr o.name events
  have hlength : l₂.outlets.length = l.outlets.length := by
    simpa using congrArg List.length hprofiles₂
  have hassoc : (l₂.outlets ++ [o.working b]) ++ rest = l₂.outlets ++ o.working b :: rest := by simp
  refine ⟨{ l₂ with outlets := l₂.outlets ++ [o.working b] }, d₂, ?_,
    ⟨?_, hholds₂.keys, ?_, fun name => ?_⟩, hfailures, hkeeps.trans hkeeps₂⟩
  · rw [out_add hdelivery hload, hall]
  · show Standing r d₂ (l₂.outlets ++ [o.working b]).length _
    rw [hassoc, List.length_append, hlength]
    exact hholds₂.standing
  · show ((l₂.outlets ++ [o.working b]) ++ rest).map Outlet.profile = _
    rw [hassoc, ← hprofiles, List.map_append, hprofiles₂, List.map_append]
  · rw [Loading.view, hassoc]
    show l₂.view r d₂ (o.working b :: rest) name = (latest _ (l₂.outlets ++ [_]).length,
      merged _ _ (l₂.outlets ++ [_]).length)
    rw [hview₂, hview, h.view, hevents, (h.told_next name).2, keyedAt_congr hprofiles,
      History.foldl_mergeEvent_merged, List.length_append, hlength]
    rfl

/-- Merging is no matter of failures. -/
theorem failures_mergeAll (l : Loading) (current : String) (events : List Event) (d : Disk) :
    ((l.mergeAll current events).out d).1.failures = l.failures := by
  induction events generalizing l d with
  | nil => rfl
  | cons e events ih =>
    rw [mergeAll, Work.out_bind, ih]
    obtain ⟨name, v⟩ := e
    unfold merge
    dsimp only
    cases v with
    | none =>
      dsimp only
      split <;> rfl
    | some v =>
      dsimp only
      split <;> rfl

/-- An outlet is loaded, or counted as a failure. -/
theorem failures_add (l : Loading) (r : Registry) (o : Outlet) (d : Disk) :
    ((l.add r o).out d).1.failures =
      l.failures + (if ((o.backend.load r).out d).1.failure.isSome then 1 else 0) := by
  unfold Loading.add
  rw [Work.out_bind]
  cases hfailure : ((o.backend.load r).out d).1.failure with
  | some e => rfl
  | none =>
    show ((mergeAll _ _ _).out _).1.failures = _
    rw [failures_mergeAll]
    rfl

theorem failures_le_addAll (l : Loading) (r : Registry) (outlets : List Outlet) (d : Disk) :
    l.failures ≤ ((l.addAll r outlets).out d).1.failures := by
  induction outlets generalizing l d with
  | nil => exact Nat.le_refl _
  | cons o rest ih =>
    rw [addAll, Work.out_bind]
    refine Nat.le_trans ?_ (ih _ _)
    rw [failures_add]
    exact Nat.le_add_right _ _

/-- **Loading all outlets**, if none of them fails. -/
theorem Reached.addAll (h : Reached r H outlets d l rest) (hr : r.Faithful)
    (hnames : Suited outlets H) (hok : ((l.addAll r rest).out d).1.failures = l.failures) :
    ∃ l' d', (l.addAll r rest).out d = (l', d') ∧ Reached r H outlets d' l' [] ∧
      l'.failures = l.failures := by
  induction rest generalizing l d with
  | nil => exact ⟨l, d, rfl, h, rfl⟩
  | cons o rest ih =>
    rw [Loading.addAll, Work.out_bind] at hok ⊢
    rcases hload : (o.backend.load r).out d with ⟨⟨b, events, failure⟩, d₁⟩
    have hle := failures_le_addAll ((l.add r o).out d).1 r rest ((l.add r o).out d).2
    rw [hok, failures_add, hload] at hle
    cases failure with
    | some e => exact absurd hle (Nat.not_succ_le_self l.failures)
    | none =>
      obtain ⟨l₁, d₁, hadd, hreached, hfailures, _⟩ := h.add hr hnames hload
      rw [hadd] at hok ⊢
      obtain ⟨l', d', hall, hreached', hfailures'⟩ := ih hreached (hok.trans hfailures.symm)
      exact ⟨l', d', hall, hreached', hfailures'.trans hfailures⟩

/-- No outlet fails if all is found that they keep. -/
theorem Reached.failures_addAll (h : Reached r H outlets d l rest) (hr : r.Faithful)
    (hnames : Suited outlets H) (hfound : ∀ o ∈ rest, o.backend.Found d) :
    ((l.addAll r rest).out d).1.failures = l.failures := by
  induction rest generalizing l d with
  | nil => rfl
  | cons o rest ih =>
    have ho : (l.outlets ++ o :: rest)[l.outlets.length]? = some o := by simp
    obtain ⟨b, events, d₁, hload⟩ := (h.standing.loadable ho (Nat.le_refl _)).2.load_of_found
      h.standing.sound (hfound o (List.mem_cons_self ..))
    obtain ⟨l₁, d₂, hadd, hreached, hfailures, hkeeps⟩ := h.add hr hnames hload
    rw [Loading.addAll, Work.out_bind, hadd, ih hreached, hfailures]
    intro p hp
    obtain ⟨i, hi⟩ := List.getElem?_of_mem hp
    have hp' : (l.outlets ++ o :: rest)[l.outlets.length + (i + 1)]? = some p := by
      rw [List.getElem?_append_right (Nat.le_add_right _ _), Nat.add_sub_cancel_left]
      exact hi
    exact (hfound p (List.mem_cons_of_mem o hp)).of_keeps hkeeps
      (h.standing.loadable hp' (Nat.le_add_right _ _)).2

end

end Loading

end ScriptStore.Store
