import ScriptStore.Proofs.Store.Settling

/-!
# Where changes go

A call to set a variable changes one variable, or all elements of a list, or nothing (`effect`). Every
change is saved by the first outlet that accepts the name, as soon as it is made. So while a store is
in use its outlets are sent a log of changes, each with the place it goes to (`deliveries`), and what
they keep is what they had with this log carried out on it (`out_setAll`).

What calls come to can be told without the tree of variables, from the changes that were made before
(`Effects`), as long as the first segment of every name is not empty.
-/

namespace ScriptStore

open Storage
open History (told)
open ScriptStore.Types (Registry Saved)
open ScriptStore.Types.Builtin (wordless)

namespace Store

/-! ## What calls change -/

/-- The value that is kept of the one that a variable is set to. -/
def kept (r : Registry) (v : Option Value) : Option Value := (storable? r v).value

/-- The variables after a call. -/
def changed (r : Registry) (m : VariableMap) (call : Event) : VariableMap :=
  (m.set call.1 (kept r call.2)).value

/-- The changes of single variables that a call comes to. -/
def effect (r : Registry) (m : VariableMap) (call : Event) : List Event :=
  if Variables.isList call.1 then
    if call.2.isSome then [] else (m.removeList call.1).1.map (·, none)
  else [(call.1, kept r call.2)]

/-- The changes that calls come to when they are made in turn. -/
def effects (r : Registry) : VariableMap → List Event → List Event
  | _, [] => []
  | m, call :: calls => effect r m call ++ effects r (changed r m call) calls

/-- What calls come to, in words that do without the tree: a single variable is set or deleted; to
delete a list is to delete the variables below it that have a value, in the order of their segments;
and a list is not set to a value. -/
inductive Effects (r : Registry) : List Event → List Event → Prop
  | start : Effects r [] []
  | single {calls changes : List Event} {name : String} {v : Option Value} :
      Effects r calls changes → Variables.isList name = false →
      Effects r (calls ++ [(name, v)]) (changes ++ [(name, kept r v)])
  | elements {calls changes : List Event} {list : String} {names : List String} :
      Effects r calls changes → Variables.isList list = true →
      (names.Pairwise fun a b => (Variables.segments a).compareLex Variables.compareSegments
        (Variables.segments b) = .lt) →
      (∀ n, n ∈ names ↔ (told n changes).final ≠ none ∧
        Variables.Extends (Variables.listPath list) (Variables.segments n)) →
      Effects r (calls ++ [(list, none)]) (changes ++ names.map (·, none))
  | refused {calls changes : List Event} {list : String} {v : Value} :
      Effects r calls changes → Variables.isList list = true →
      Effects r (calls ++ [(list, some v)]) changes

section

variable {r : Registry} {m : VariableMap} {f : String → Option Value}

theorem isSome_kept (r : Registry) (v : Option Value) : (kept r v).isSome = v.isSome := by
  cases v <;> rfl

theorem effects_append (m : VariableMap) (calls more : List Event) :
    effects r m (calls ++ more)
      = effects r m calls ++ effects r (calls.foldl (changed r) m) more := by
  induction calls generalizing m with
  | nil => rfl
  | cons call calls ih => rw [List.cons_append, effects, ih, effects, List.append_assoc, List.foldl_cons]

/-- A value that is to be saved was kept of one that a variable was set to. -/
theorem exists_call_of_mem_effects {name : String} {v : Value} {calls : List Event}
    (h : (name, some v) ∈ effects r m calls) : ∃ call ∈ calls, kept r call.2 = some v := by
  induction calls generalizing m with
  | nil => exact absurd h List.not_mem_nil
  | cons call calls ih =>
    rcases List.mem_append.1 h with h | h
    · rw [effect] at h
      split at h
      · split at h
        · exact absurd h List.not_mem_nil
        · obtain ⟨_, _, heq⟩ := List.mem_map.1 h
          cases heq
      · exact ⟨call, .head _, (Prod.mk.inj (List.mem_singleton.1 h)).2.symm⟩
    · obtain ⟨other, hother, hv⟩ := ih h
      exact ⟨other, .tail _ hother, hv⟩

/-- Deleted elements are named in the order of their segments. -/
theorem ascending_removed (h : m.Agrees f) (path : List String) :
    (Variables.Children.deleteList path "" m.tree).1.Pairwise fun a b =>
      (Variables.segments a).compareLex Variables.compareSegments (Variables.segments b) = .lt := by
  rw [VariableMap.removed_eq]
  refine List.pairwise_map.2 ((h.tidy.ofBelow path).ascending.imp_of_mem fun {a b} ha hb hab => ?_)
  rw [(h.segments_name ((VariableMap.mem_located_below h.tidy).1 ha).2).1,
    (h.segments_name ((VariableMap.mem_located_below h.tidy).1 hb).2).1,
    Variables.compareLex_append_left]
  exact hab

/-- What a change of one variable leaves. -/
theorem final_told_append (changes : List Event) (name : String) (v : Option Value) (n : String) :
    (told n (changes ++ [(name, v)])).final = if n = name then v else (told n changes).final := by
  rw [History.told_append, History.told_cons, History.told_nil]
  by_cases hn : name = n
  · subst hn
    rw [if_pos rfl, if_pos rfl, History.final, List.getLast?_concat]
    rfl
  · rw [if_neg hn, if_neg (Ne.symm hn), List.append_nil]

/-- What deleting variables leaves. -/
theorem final_told_deletions (changes : List Event) (names : List String) (n : String) :
    (told n (changes ++ names.map (·, none))).final
      = if n ∈ names then none else (told n changes).final := by
  induction names generalizing changes with
  | nil => rw [List.map_nil, List.append_nil, if_neg List.not_mem_nil]
  | cons name names ih =>
    rw [List.map_cons, ← List.singleton_append, ← List.append_assoc, ih, final_told_append]
    by_cases hn : n = name
    · rw [hn, if_pos rfl, if_pos (List.mem_cons_self ..)]
      split <;> rfl
    · simp only [List.mem_cons, hn, false_or, if_false]

/-- **One more call**, when the variables hold what the changes before it have left. -/
theorem Effects.call {calls changes : List Event} (h : Effects r calls changes)
    (hm : m.Agrees fun n => (told n changes).final) {call : Event}
    (hname : (Variables.segments call.1).head? ≠ some "") :
    Effects r (calls ++ [call]) (changes ++ effect r m call) ∧
      (changed r m call).Agrees fun n => (told n (changes ++ effect r m call)).final := by
  obtain ⟨name, v⟩ := call
  unfold effect changed VariableMap.set
  dsimp only at hname ⊢
  by_cases hlist : Variables.isList name = true
  · rw [if_pos hlist, if_pos hlist]
    cases v with
    | some v =>
      rw [Option.isSome_some, if_pos rfl, List.append_nil]
      exact ⟨h.refused hlist, hm⟩
    | none =>
      rw [Option.isSome_none, if_neg Bool.false_ne_true]
      -- the names are collected from the tree, which agrees with the changes so far
      have hnames : ∀ n, n ∈ (m.removeList name).1 ↔ (told n changes).final ≠ none ∧
          Variables.Extends (Variables.listPath name) (Variables.segments n) := by
        intro n
        rw [VariableMap.removeList_eq m hname]
        exact hm.mem_removed _
      refine ⟨h.elements hlist ?_ hnames, ?_⟩
      · rw [VariableMap.removeList_eq m hname]
        exact ascending_removed hm _
      · show VariableMap.Agrees (m.removeList name).2 _
        convert hm.removeList hname using 1
        funext n
        rw [final_told_deletions, VariableMap.without]
        by_cases hbelow : Variables.Extends (Variables.listPath name) (Variables.segments n)
        · rw [if_pos hbelow]
          by_cases hset : (told n changes).final = none
          · rw [hset, ite_self]
          · rw [if_pos ((hnames n).2 ⟨hset, hbelow⟩)]
        · rw [if_neg hbelow, if_neg fun hn => hbelow ((hnames n).1 hn).2]
  · rw [if_neg hlist, if_neg hlist]
    refine ⟨h.single (Bool.eq_false_iff.2 hlist), ?_⟩
    simp only [final_told_append]
    exact hm.setSingle hname (kept r v)

/-- **Calls come to what `Effects` says.** -/
theorem effects_spec {calls : List Event}
    (hnames : ∀ call ∈ calls, (Variables.segments call.1).head? ≠ some "") :
    Effects r calls (effects r {} calls) ∧
      (calls.foldl (changed r) {}).Agrees fun n => (told n (effects r {} calls)).final := by
  -- from the end, for what a call comes to depends on all calls before it
  induction calls using List.reverseRecOn with
  | nil => exact ⟨.start, .empty⟩
  | append_singleton calls call ih =>
    obtain ⟨hcalls, hcall⟩ := List.forall_mem_append.1 hnames
    obtain ⟨heffects, hagrees⟩ := ih hcalls
    rw [effects_append, List.foldl_append, effects, effects, List.append_nil]
    exact heffects.call hagrees (hcall call (List.mem_singleton_self call))

end

/-! ## What is sent to outlets -/

/-- What is saved of a change; nothing of a value that cannot be saved. -/
def saved? (r : Registry) : Option Value → Option (Option Saved)
  | none => some none
  | some v => (r.serialize v).value.map some

/-- What a change sends, with the place of the outlet that it is sent to. -/
def delivery? (r : Registry) (outlets : List Outlet) (change : Event) : Option (Nat × Change) :=
  (home? outlets change.1).bind fun i => (saved? r change.2).map fun saved => (i, change.1, saved)

/-- What changes send. -/
def deliveries (r : Registry) (outlets : List Outlet) (changes : List Event) : List (Nat × Change) :=
  changes.filterMap (delivery? r outlets)

/-- Saves changes at the places they are sent to, one after the other. -/
def deliver : List (Nat × Change) → List Outlet → Work (List Outlet)
  | [], outlets => pure outlets
  | (i, change) :: log, outlets =>
    match outlets[i]? with
    | none => deliver log outlets
    | some o => do deliver log (outlets.set i (← o.write change))

/-- Saves changes that the outlets of a store are sent. -/
def delivered (s : Store) (log : List (Nat × Change)) : Work Store := do
  return { s with outlets := ← deliver log s.outlets }

section

variable {r : Registry} {d : Disk} {s : Store} {outlets : List Outlet}

theorem out_delivered (s : Store) (log : List (Nat × Change)) (d : Disk) :
    (s.delivered log).out d = ({ s with outlets := ((deliver log s.outlets).out d).1 },
      ((deliver log s.outlets).out d).2) := rfl

theorem out_deliver_append (log more : List (Nat × Change)) (outlets : List Outlet) (d : Disk) :
    (deliver (log ++ more) outlets).out d
      = (deliver more ((deliver log outlets).out d).1).out ((deliver log outlets).out d).2 := by
  induction log generalizing outlets d with
  | nil => rfl
  | cons entry log ih =>
    obtain ⟨i, change⟩ := entry
    rw [List.cons_append, deliver, deliver]
    cases outlets[i]? with
    | none => exact ih outlets d
    | some o =>
      dsimp only
      rw [Work.out_bind, Work.out_bind, ih]

theorem out_write (o : Outlet) (change : Change) (d : Disk) :
    (o.write change).out d = ({ o with backend := ((o.backend.save change).out d).1.1 },
      ((o.backend.save change).out d).2) := rfl

/-- Saving changes nothing about outlets but their backends. -/
theorem map_deliver {α : Type} {g : Outlet → α}
    (hg : ∀ (o : Outlet) (backend : Backend), g { o with backend } = g o)
    (log : List (Nat × Change)) (outlets : List Outlet) (d : Disk) :
    ((deliver log outlets).out d).1.map g = outlets.map g := by
  induction log generalizing outlets d with
  | nil => rfl
  | cons entry log ih =>
    obtain ⟨i, change⟩ := entry
    rw [deliver]
    cases ho : outlets[i]? with
    | none => exact ih outlets d
    | some o =>
      obtain ⟨hi, rfl⟩ := List.getElem?_eq_some_iff.1 ho
      dsimp only
      rw [Work.out_bind, ih, out_write, List.map_set, hg, ← List.map_set, List.set_getElem_self]

theorem home?_deliver (log : List (Nat × Change)) (outlets : List Outlet) (d : Disk) (name : String) :
    home? ((deliver log outlets).out d).1 name = home? outlets name :=
  home?_of_patterns (map_deliver (fun _ _ => rfl) log outlets d) name

theorem deliveries_deliver (log : List (Nat × Change)) (outlets : List Outlet) (d : Disk)
    (changes : List Event) :
    deliveries r ((deliver log outlets).out d).1 changes = deliveries r outlets changes := by
  unfold deliveries delivery?
  simp only [home?_deliver]

/-- The embedding program is told of exactly what is sent to it. -/
theorem getElem?_deliver_relay {i : Nat} {o : Outlet} {q : Relay} (ho : outlets[i]? = some o)
    (hq : o.backend = .relay q) (log : List (Nat × Change)) (d : Disk) :
    ((deliver log outlets).out d).1[i]? = some { o with
      backend := .relay { q with saves := q.saves ++ (log.filter (·.1 = i)).map (·.2) } } := by
  induction log generalizing outlets o q d with
  | nil =>
    rw [List.filter_nil, List.map_nil, List.append_nil, ← hq]
    exact ho
  | cons entry log ih =>
    obtain ⟨j, change⟩ := entry
    rw [deliver]
    -- a change for another outlet leaves this one as it is
    by_cases hj : j = i
    · subst hj
      have hlt := (List.getElem?_eq_some_iff.1 ho).1
      rw [ho]
      dsimp only
      rw [Work.out_bind, out_write, hq]
      rw [ih (List.getElem?_set_self hlt) rfl, List.filter_cons, if_pos (decide_eq_true rfl)]
      show some { o with backend := Backend.relay { q with saves := (q.saves ++ [change]) ++ _ } } = _
      rw [List.append_assoc, List.map_cons]
      rfl
    · have hfilter : ((j, change) :: log).filter (·.1 = i) = log.filter (·.1 = i) := by
        rw [List.filter_cons, if_neg (by simpa using hj)]
      rw [hfilter]
      cases outlets[j]? with
      | none => exact ih ho hq d
      | some p =>
        dsimp only
        rw [Work.out_bind]
        exact ih (by rw [List.getElem?_set_ne hj]; exact ho) hq _

/-! ## A store in use -/

theorem InUse.with_vars (h : s.InUse) (vars : VariableMap) : InUse { s with vars } :=
  ⟨h.pending, h.arrivals, h.closed, h.writing⟩

theorem InUse.delivered (h : s.InUse) (log : List (Nat × Change)) (d : Disk) :
    InUse ((s.delivered log).out d).1 := by
  refine ⟨h.pending, h.arrivals, h.closed, fun o ho => ?_⟩
  have hmap := map_deliver (g := Outlet.delivery) (fun _ _ => rfl) log s.outlets d
  have hmem : o.delivery ∈ s.outlets.map Outlet.delivery := hmap ▸ List.mem_map_of_mem ho
  obtain ⟨p, hp, heq⟩ := List.mem_map.1 hmem
  rw [← heq, h.writing p hp]

/-- What is sent twice in a row is sent as one. -/
theorem out_delivered_append (s : Store) (log more : List (Nat × Change)) (d : Disk) :
    (s.delivered (log ++ more)).out d
      = (((s.delivered log).out d).1.delivered more).out ((s.delivered log).out d).2 := by
  rw [out_delivered, out_deliver_append]
  rfl

/-- No change waits. -/
theorem InUse.drain_eq (h : s.InUse) : s.drain = pure s := by
  rw [drain, h.pending, h.arrivals]
  rfl

/-- With no arrivals, encoding is serializing. -/
theorem InUse.value_encode (h : s.InUse) (v : Value) :
    (s.encode v).value = ((s.registry.serialize v).value, s) := by
  obtain ⟨registry, vars, pending, outlets, closed, arrivals⟩ := s
  obtain rfl : arrivals = [] := h.arrivals
  unfold Store.encode Types.Registry.serialize
  dsimp only
  cases registry.plan? v with
  | none => rfl
  | some plan =>
    dsimp only
    by_cases hyields : plan.serializer.yields = true
    · rw [if_pos hyields]
      rfl
    · rw [if_neg hyields]
      rfl

/-- **A change is sent where it belongs.** -/
theorem InUse.out_saveChange (h : s.InUse) (change : Event) (d : Disk) :
    (s.saveChange change).out d
      = (s.delivered (deliveries s.registry s.outlets [change])).out d := by
  obtain ⟨name, v⟩ := change
  -- without a home, or if the value cannot be saved, nothing is sent
  have hnone : delivery? s.registry s.outlets (name, v) = none →
      (s.delivered (deliveries s.registry s.outlets [(name, v)])).out d = (s, d) := by
    intro hnone
    rw [deliveries, List.filterMap_cons, hnone]
    rfl
  -- anything else is queued at the home, whose outlet writes at once
  have hsome : ∀ {i : Nat} {saved : Option Saved}, home? s.outlets name = some i →
      saved? s.registry v = some saved →
      (s.delivered (deliveries s.registry s.outlets [(name, v)])).out d =
        ({ s with outlets := ((queueAt (name, saved) s.outlets i).out d).1 },
          ((queueAt (name, saved) s.outlets i).out d).2) := by
    intro i saved hhome hsaved
    obtain ⟨hi, -⟩ := List.findIdx?_eq_some_iff_getElem.1 hhome
    have ho : s.outlets[i]? = some s.outlets[i] := List.getElem?_eq_getElem hi
    have hdelivery : delivery? s.registry s.outlets (name, v) = some (i, name, saved) := by
      rw [delivery?, hhome, Option.bind_some, hsaved, Option.map_some]
    rw [deliveries, List.filterMap_cons, hdelivery, List.filterMap_nil, out_delivered, deliver, ho,
      out_queueAt ho, out_queue (h.writing _ (List.getElem_mem hi))]
    rfl
  unfold Store.saveChange
  cases hhome : home? s.outlets name with
  | none => exact (hnone (by rw [delivery?, hhome, Option.bind_none])).symm
  | some i =>
    cases v with
    | none => exact (hsome hhome rfl).symm
    | some v =>
      dsimp only
      rw [Work.out_bind, Work.out_lift, h.value_encode]
      cases hsaved : (s.registry.serialize v).value with
      | none =>
        refine (hnone ?_).symm
        rw [delivery?, hhome, Option.bind_some, saved?, hsaved]
        rfl
      | some saved =>
        refine (hsome hhome ?_).symm
        rw [saved?, hsaved, Option.map_some]

theorem deliveries_append (outlets : List Outlet) (changes more : List Event) :
    deliveries r outlets (changes ++ more)
      = deliveries r outlets changes ++ deliveries r outlets more := List.filterMap_append

theorem InUse.out_saveDeletions (h : s.InUse) (names : List String) (d : Disk) :
    (s.saveDeletions names).out d
      = (s.delivered (deliveries s.registry s.outlets (names.map (·, none)))).out d := by
  induction names generalizing s d with
  | nil => rfl
  | cons name names ih =>
    have hlog := deliveries_append (r := s.registry) s.outlets [(name, none)] (names.map (·, none))
    rw [List.singleton_append] at hlog
    rw [saveDeletions, Work.out_bind, h.out_saveChange, ih (h.delivered _ d), List.map_cons, hlog,
      out_delivered_append]
    show (Store.delivered _ (deliveries s.registry ((deliver _ s.outlets).out d).1 _)).out _ = _
    rw [deliveries_deliver]

/-- **A call sends what it comes to**, and changes the variables. -/
theorem InUse.out_set (h : s.InUse) (call : Event) (d : Disk) :
    (s.set call.1 call.2).out d =
      (Store.delivered { s with vars := changed s.registry s.vars call }
        (deliveries s.registry s.outlets (effect s.registry s.vars call))).out d := by
  obtain ⟨name, v⟩ := call
  have hset : (s.set name v).out d = (s.apply (name, kept s.registry v)).out d := by
    unfold Store.set
    rw [h.closed, if_neg Bool.false_ne_true, Work.out_bind, Work.out_lift, Work.out_bind,
      h.drain_eq, Work.out_pure]
    rfl
  rw [hset]
  unfold Store.apply changed effect VariableMap.set
  dsimp only
  by_cases hlist : Variables.isList name = true
  · rw [if_pos hlist, if_pos hlist, if_pos hlist, isSome_kept]
    cases v with
    | some v => rfl
    | none => exact (h.with_vars _).out_saveDeletions _ d
  · rw [if_neg hlist, if_neg hlist, if_neg hlist]
    exact (h.with_vars _).out_saveChange _ d

/-- Calls to set variables, one after the other. -/
def setAll (s : Store) : List Event → Work Store
  | [] => pure s
  | call :: calls => do (← s.set call.1 call.2).setAll calls

/-- **Calls send what they come to.** -/
theorem InUse.out_setAll (h : s.InUse) (calls : List Event) (d : Disk) :
    (s.setAll calls).out d =
      (Store.delivered { s with vars := calls.foldl (changed s.registry) s.vars }
        (deliveries s.registry s.outlets (effects s.registry s.vars calls))).out d := by
  induction calls generalizing s d with
  | nil => rfl
  | cons call calls ih =>
    rw [setAll, Work.out_bind, h.out_set, ih ((h.with_vars _).delivered _ d), effects,
      deliveries_append, out_delivered_append]
    show (Store.delivered _ (deliveries s.registry ((deliver _ s.outlets).out d).1 _)).out _ = _
    rw [deliveries_deliver]
    rfl

/-- A closed store is left as it is. -/
theorem out_setAll_closed (hclosed : s.closed = true) (calls : List Event) (d : Disk) :
    (s.setAll calls).out d = (s, d) := by
  induction calls with
  | nil => rfl
  | cons call calls ih =>
    have hset : (s.set call.1 call.2).out d = (s, d) := by
      unfold Store.set
      rw [hclosed, if_pos rfl]
      rfl
    rw [setAll, Work.out_bind, hset, ih]

/-- Calls, closing the store, and calls that come too late. -/
def session (s : Store) (calls late : List Event) : Work Store := do
  (← (← s.setAll calls).close).setAll late

/-- **A session sends what its calls come to**, and nothing when the store is closed. -/
theorem InUse.out_session (h : s.InUse) (calls late : List Event) (d : Disk) :
    (s.session calls late).out d =
      let log := deliveries s.registry s.outlets (effects s.registry s.vars calls)
      ({ s with
          vars := calls.foldl (changed s.registry) s.vars
          closed := true
          outlets := ((deliver log s.outlets).out d).1.map Outlet.shut },
        ((deliver log s.outlets).out d).2) := by
  rw [session, Work.out_bind, Work.out_bind, h.out_setAll, ((h.with_vars _).delivered _ d).out_close,
    out_setAll_closed rfl]
  rfl

/-! ## Outlets that are empty at first -/

/-- Outlets as they are when they have been loaded, and the disk then. -/
def opened (r : Registry) : List Outlet → Disk → List Outlet × Disk
  | [], d => ([], d)
  | o :: rest, d =>
    let (l, d) := (o.backend.load r).out d
    let (rest, d) := opened r rest d
    (o.working l.storage :: rest, d)

/-- Whether outlets hand over nothing when they are loaded in turn. -/
def Blank (r : Registry) : List Outlet → Disk → Prop
  | [], _ => True
  | o :: rest, d => ((o.backend.load r).out d).1.events = [] ∧ Blank r rest ((o.backend.load r).out d).2

theorem patterns_opened (r : Registry) (outlets : List Outlet) (d : Disk) :
    (opened r outlets d).1.map Outlet.pattern = outlets.map Outlet.pattern := by
  induction outlets generalizing d with
  | nil => rfl
  | cons o rest ih => exact congrArg (o.pattern :: ·) (ih _)

theorem writing_of_mem_opened {o : Outlet} (ho : o ∈ (opened r outlets d).1) : o.delivery = .writing := by
  induction outlets generalizing d with
  | nil => exact absurd ho List.not_mem_nil
  | cons first rest ih =>
    rcases List.mem_cons.1 ho with rfl | ho
    · rfl
    · exact ih ho

theorem getElem?_opened_relay {i : Nat} {o : Outlet} {q : Relay} (ho : outlets[i]? = some o)
    (hq : o.backend = .relay q) (r : Registry) (d : Disk) :
    (opened r outlets d).1[i]? = some { o with delivery := .writing } := by
  induction outlets generalizing i d with
  | nil => cases ho
  | cons first rest ih =>
    cases i with
    | succ i => exact ih ho _
    | zero =>
      obtain rfl : first = o := Option.some.inj ho
      obtain ⟨name, pattern, backend, delivery⟩ := first
      obtain rfl : backend = .relay q := hq
      rfl

/-- **Loading outlets that are empty.** -/
theorem Loading.out_addAll_blank {l : Loading} (hwaiting : ∀ o ∈ outlets, o.delivery = .queued [] false)
    (hblank : Blank r outlets d) (hok : ((l.addAll r outlets).out d).1.failures = l.failures) :
    (l.addAll r outlets).out d
      = ({ l with outlets := l.outlets ++ (opened r outlets d).1 }, (opened r outlets d).2) := by
  induction outlets generalizing l d with
  | nil =>
    rw [opened, List.append_nil]
    rfl
  | cons o rest ih =>
    obtain ⟨ho, hwaiting⟩ := List.forall_mem_cons.1 hwaiting
    obtain ⟨hevents, hblank⟩ := hblank
    rw [Loading.addAll, Work.out_bind] at hok ⊢
    have hle := failures_le_addAll ((l.add r o).out d).1 r rest ((l.add r o).out d).2
    rw [hok, failures_add] at hle
    rw [opened]
    rcases hload : (o.backend.load r).out d with ⟨⟨b, events, failure⟩, d₁⟩
    rw [hload] at hle hevents hblank
    obtain rfl : events = [] := hevents
    cases failure with
    | some e => exact absurd hle (by simp)
    | none =>
      have hadd : (l.add r o).out d = ({ l with outlets := l.outlets ++ [o.working b] }, d₁) := by
        rw [Loading.out_add ho hload]
        rfl
      rw [hadd] at hok ⊢
      rw [ih hwaiting hblank hok]
      dsimp only
      rw [List.append_assoc, List.singleton_append]

/-- **A store over outlets that are empty** has no variables, and the outlets as they were loaded. -/
theorem built_of_blank {arrange : List (String × Value × Nat) → List (String × Value × Nat)} {d₁ : Disk}
    (harrange : ∀ entries, (arrange entries).Perm entries)
    (hwaiting : ∀ o ∈ outlets, o.delivery = .queued [] false) (hblank : Blank r outlets d)
    (hbuild : (buildIn arrange r outlets 0).out d = ((s, .ok ()), d₁)) :
    s = { registry := r, outlets := (opened r outlets d).1 } ∧ d₁ = (opened r outlets d).2 := by
  rcases hload : (Loading.addAll { failures := 0 } r outlets).out d with ⟨l, d'⟩
  rcases hplace : (placeAll { registry := r, outlets := l.outlets } (arrange l.vars.entries)).out d'
    with ⟨⟨n, t⟩, d''⟩
  rw [out_buildIn arrange r outlets 0 d hload hplace] at hbuild
  split at hbuild
  · cases hbuild
  · next hok =>
    split at hbuild
    · cases hbuild
    · cases hbuild
      have hfailures : l.failures = 0 := by omega
      have hall := Loading.out_addAll_blank hwaiting hblank (by rw [hload]; exact hfailures)
      rw [hload] at hall
      cases hall
      -- there is nothing to put anywhere
      have hnone : arrange [] = [] := List.Perm.eq_nil (harrange [])
      rw [show (Dict.entries {} : List (String × Value × Nat)) = [] from rfl, hnone] at hplace
      cases hplace
      exact ⟨rfl, rfl⟩

/-! ## Every outlet gets its own -/

/-- A change as it is saved. -/
def written (r : Registry) (change : Event) : Change :=
  (change.1, change.2.bind fun v => (r.serialize v).value)

theorem deliveries_of_saves {changes : List Event} (outlets : List Outlet)
    (h : ∀ name v, (name, some v) ∈ changes → saves r v = true) :
    deliveries r outlets changes
      = changes.filterMap fun c => (home? outlets c.1).map (·, written r c) := by
  refine List.filterMap_congr fun c hc => ?_
  obtain ⟨name, v⟩ := c
  have hsaved : saved? r v = some (written r (name, v)).2 := by
    cases v with
    | none => rfl
    | some v =>
      obtain ⟨saved, hsaved⟩ := Option.isSome_iff_exists.1 (h name v hc)
      rw [saved?, written, hsaved, Option.bind_some, hsaved]
      rfl
  rw [delivery?, hsaved]
  cases home? outlets name <;> rfl

/-- Of the changes that are sent, those that are sent to a place. -/
theorem filter_sent (outlets : List Outlet) (changes : List Event) (i : Nat) :
    ((changes.filterMap fun c => (home? outlets c.1).map (·, written r c)).filter (·.1 = i)).map (·.2)
      = (changes.filter fun c => home? outlets c.1 = some i).map (written r) := by
  induction changes with
  | nil => rfl
  | cons c changes ih =>
    rw [List.filterMap_cons, List.filter_cons]
    cases hhome : home? outlets c.1 with
    | none => simpa using ih
    | some j =>
      by_cases hj : j = i
      · simp [hj, ih]
      · simp [hj, ih]

end

/-- An outlet for names that begin with a letter, in the hands of the embedding program. -/
def initialOutlet (letter : Char) : Outlet where
  name := letter.toString
  pattern := some ⟨"^" ++ letter.toString, .follow (.place .textStart) (.one (.single letter))⟩
  backend := .relay { owner := letter.toString }

/-- Calls about names that belong to the one outlet or the other, or to none. -/
def someCalls : List Event :=
  [("a", some (.integer 1)), ("b::10", some (.integer 2)), ("b::9", some (.integer 3)),
    ("b", some (.integer 4)), ("c", some (.integer 5)), ("b::*", some (.integer 6)), ("b::*", none)]

end Store

end ScriptStore
