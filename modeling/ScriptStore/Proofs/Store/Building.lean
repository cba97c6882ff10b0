import ScriptStore.Proofs.Store.Loading
import ScriptStore.Proofs.Types.Resaving
import ScriptStore.Proofs.Variables.Extensional

/-!
# A store that was built

When all outlets are loaded, the variables are put where they belong, one after the other and in any
order: each of them concerns its own histories only, so that in the end every variable has the
histories that `History.settled` says, and the map has the values that `History.latest` says
(`Built`). Closing the store leaves all this as it is, and the outlets can be loaded again
(`Built.reopened`).
-/

namespace ScriptStore

open Storage
open History (told latest merged moved placed settled without)
open ScriptStore.Types (Registry Saved)

/-- The outlet when it has been closed. -/
def Storage.Outlet.shut (o : Outlet) : Outlet :=
  { o with backend := o.backend.disconnect.1, delivery := .closed }

/-- The same outlet before it is loaded for the first time. -/
def Storage.Outlet.afresh (o : Outlet) : Outlet :=
  { name := o.name, pattern := o.pattern, backend := o.backend.afresh }

namespace Store

/-- Whether a registry can save a value. -/
def saves (r : Registry) (v : Value) : Bool := (r.serialize v).value.isSome

section

variable {r : Registry} {d : Disk} {s : Store}

/-- What decides about a variable was loaded, and so it can be saved elsewhere. -/
theorem Standing.saves_of_latest {n m : Nat} {outlets : List Outlet} (h : Standing r d n outlets)
    (hr : r.OfBuiltin) {name : String} {v : Value} {source : Nat}
    (hlatest : latest (histories r d outlets name) m = some (v, source)) : saves r v = true := by
  obtain ⟨-, hfinal, -⟩ := History.latest_eq_some_iff.1 hlatest
  have hmem : some v ∈ histories r d outlets name source := by
    rw [History.final, Option.join_eq_some_iff] at hfinal
    exact List.mem_of_getLast? hfinal
  cases ho : outlets[source]? with
  | none => rw [histories, ho] at hmem; cases hmem
  | some o =>
    rw [histories_eq ho] at hmem
    obtain ⟨saved, hload⟩ := Backend.load_of_told (h.loadable_or_works ho) hmem
    obtain ⟨saved', hsaved⟩ := hr.serialize_of_load hload
    rw [saves, hsaved]
    rfl

/-! ## Putting variables where they belong -/

/-- What placing does to the outlets. -/
structure Places (r : Registry) (d d' : Disk) (outlets outlets' : List Outlet)
    (change : String → (Nat → History) → Nat → History) : Prop where
  profiles : outlets'.map Outlet.profile = outlets.map Outlet.profile
  standing : Standing r d' outlets'.length outlets'
  histories : ∀ name, histories r d' outlets' name = change name (histories r d outlets name)

/-- A variable is saved at its home, and deleted where it was. -/
theorem Standing.move (h : Standing r d s.outlets.length s.outlets) (hr : r.Faithful)
    {name : String} {v : Value} {saved : Saved} {source target : Nat} {o p : Outlet}
    (hsource : s.outlets[source]? = some o) (htarget : s.outlets[target]? = some p)
    (hsourceTakes : o.backend.medium.Takes name) (htargetTakes : p.backend.medium.Takes name)
    (hsaved : (r.serialize v).value = some saved) :
    ∃ outlets₁ d₁ outlets d', (Store.queueAt (name, some saved) s.outlets target).out d
        = (outlets₁, d₁) ∧
      (Store.queueAt (name, none) outlets₁ source).out d₁ = (outlets, d') ∧
      Places r d d' s.outlets outlets fun name' V =>
        if name' = name then
          without (keyedAt s.outlets)
            (Function.update V target ((V target).after (keyedAt s.outlets target) (some v))) source
        else V := by
  have hstanding : Standing r d s.outlets.length (s.outlets ++ []) := by rwa [List.append_nil]
  have hlt := (List.getElem?_eq_some_iff.1 htarget).1
  have hlt' := (List.getElem?_eq_some_iff.1 hsource).1
  obtain ⟨outlets₁, d₁, hsave, hprofiles₁, -, hstanding₁, hhistories₁⟩ :=
    hstanding.queueAt hr htarget hlt htargetTakes
      (show r.Writes (some v) (some saved) from hsaved)
  -- the outlet where the variable was is still the same outlet
  have hlength₁ : outlets₁.length = s.outlets.length := by
    simpa using congrArg List.length hprofiles₁
  obtain ⟨o', ho'⟩ : ∃ o', outlets₁[source]? = some o' :=
    ⟨_, List.getElem?_eq_getElem (hlength₁ ▸ hlt')⟩
  have hmedium : o.backend.medium = o'.backend.medium := by
    obtain ⟨q, hq, hmedium⟩ := getElem?_of_profiles hprofiles₁ ho'
    rw [hsource] at hq
    cases hq
    exact hmedium
  obtain ⟨outlets₂, d₂, herase, hprofiles₂, -, hstanding₂, hhistories₂⟩ :=
    hstanding₁.queueAt hr ho' hlt' (hmedium ▸ hsourceTakes)
      (show r.Writes none none from trivial)
  rw [List.append_nil] at hstanding₂
  simp only [List.append_nil] at hhistories₁ hhistories₂
  have hlength₂ : outlets₂.length = s.outlets.length := by
    simpa using congrArg List.length (hprofiles₂.trans hprofiles₁)
  refine ⟨outlets₁, d₁, outlets₂, d₂, hsave, herase, hprofiles₂.trans hprofiles₁,
    hlength₂ ▸ hstanding₂, fun name' => ?_⟩
  rw [hhistories₂, hhistories₁, hhistories₁, keyedAt_congr hprofiles₁]
  by_cases heq : name' = name
  · rw [if_pos heq, if_pos heq, if_pos rfl, heq]
    rfl
  · rw [if_neg heq, if_neg heq, if_neg heq]

/-- The outlets of a store take the name of a variable where it is and where it belongs. -/
def TakenAt (outlets : List Outlet) (name : String) (source : Nat) : Prop :=
  ∀ (i : Nat) (o : Outlet), outlets[i]? = some o → i = source ∨ home? outlets name = some i →
    o.backend.medium.Takes name

/-- **Placing a variable moves it**, as `moved` says, and is of no concern to others. -/
theorem Standing.place (h : Standing r d s.outlets.length s.outlets) (hr : r.Faithful)
    (hregistry : s.registry = r) {name : String} {v : Value} {source : Nat}
    (hsource : source < s.outlets.length) (htaken : TakenAt s.outlets name source) :
    ∃ outlets d', (s.place name v source).out d = (((home? s.outlets name).isNone,
        { s with outlets, vars := (s.vars.set name (some v)).value }), d') ∧
      Places r d d' s.outlets outlets fun name' V =>
        if name' = name then
          moved (keyedAt s.outlets) V v source (home? s.outlets name) (saves r v)
        else V := by
  -- the outlets stay as they are without a home elsewhere, or if the value cannot be saved
  have hstay : moved (keyedAt s.outlets) (histories r d s.outlets name) v source
      (home? s.outlets name) (saves r v) = histories r d s.outlets name →
      Places r d d s.outlets s.outlets fun name' V =>
        if name' = name then
          moved (keyedAt s.outlets) V v source (home? s.outlets name) (saves r v)
        else V := by
    intro hmoved
    refine ⟨rfl, h, fun name' => ?_⟩
    split
    · next heq => rw [heq, hmoved]
    · rfl
  unfold Store.place
  dsimp only
  cases hhome : home? s.outlets name with
  | none =>
    rw [hhome] at hstay
    exact ⟨s.outlets, d, rfl, hstay rfl⟩
  | some target =>
    rw [hhome] at hstay
    dsimp only
    by_cases hne : target = source
    · rw [if_pos hne]
      refine ⟨s.outlets, d, rfl, hstay ?_⟩
      rw [moved, if_neg fun hboth => hboth.1 hne]
    · rw [if_neg hne, Work.out_bind, Work.out_lift, hregistry]
      cases hsaved : (r.serialize v).value with
      | none =>
        refine ⟨s.outlets, d, rfl, hstay ?_⟩
        rw [moved, if_neg fun hboth => ?_]
        rw [saves, hsaved] at hboth
        cases hboth.2
      | some saved =>
        obtain ⟨hlt, -⟩ := List.findIdx?_eq_some_iff_getElem.1 hhome
        have htarget : s.outlets[target]? = some s.outlets[target] :=
          List.getElem?_eq_getElem hlt
        have hwhere : s.outlets[source]? = some s.outlets[source] :=
          List.getElem?_eq_getElem hsource
        obtain ⟨outlets₁, d₁, outlets, d', hsave, herase, hplaces⟩ := h.move hr hwhere htarget
          (htaken source _ hwhere (.inl rfl)) (htaken target _ htarget (.inr hhome)) hsaved
        have hmove : target ≠ source ∧ saves r v = true := ⟨hne, by rw [saves, hsaved]; rfl⟩
        refine ⟨outlets, d', ?_, ?_⟩
        · dsimp only
          rw [Work.out_bind, hsave]
          dsimp only
          rw [Work.out_bind, herase]
          rfl
        · simp only [moved, if_pos hmove]
          exact hplaces

theorem TakenAt.congr {outlets outlets' : List Outlet}
    (hprofiles : outlets'.map Outlet.profile = outlets.map Outlet.profile) {name : String}
    {source : Nat} (h : TakenAt outlets name source) : TakenAt outlets' name source := by
  intro i o' ho' hplace
  obtain ⟨o, ho, hmedium⟩ := getElem?_of_profiles hprofiles ho'
  rw [← hmedium]
  rw [home?_congr hprofiles] at hplace
  exact h i o ho hplace

/-- **Placing variables moves each of them**, in whatever order they come. -/
theorem Standing.placeAll {entries : List (String × Value × Nat)}
    (h : Standing r d s.outlets.length s.outlets) (hr : r.Faithful) (hregistry : s.registry = r)
    (hkeys : (entries.map (·.1)).Nodup)
    (hsource : ∀ e ∈ entries, e.2.2 < s.outlets.length)
    (htaken : ∀ e ∈ entries, TakenAt s.outlets e.1 e.2.2) :
    ∃ n outlets d', (s.placeAll entries).out d = ((n, { s with
        outlets, vars := s.vars.setAll (entries.map fun e => (e.1, e.2.1)) }), d') ∧
      Places r d d' s.outlets outlets fun name V =>
        placed (keyedAt s.outlets) V (home? s.outlets name) (saves r)
          (Dict.lookup name entries) := by
  induction entries generalizing s d with
  | nil => exact ⟨0, s.outlets, d, rfl, rfl, h, fun _ => rfl⟩
  | cons e rest ih =>
    obtain ⟨name, v, source⟩ := e
    obtain ⟨hfresh, hkeys⟩ := List.nodup_cons.1 hkeys
    obtain ⟨hsource₁, hsource⟩ := List.forall_mem_cons.1 hsource
    obtain ⟨htaken₁, htaken⟩ := List.forall_mem_cons.1 htaken
    obtain ⟨outlets₁, d₁, hplace, hplaces₁⟩ := h.place hr hregistry hsource₁ htaken₁
    have hlength : outlets₁.length = s.outlets.length := by
      simpa using congrArg List.length hplaces₁.profiles
    obtain ⟨n, outlets, d', hall, hplaces⟩ :=
      ih (s := { s with outlets := outlets₁, vars := (s.vars.set name (some v)).value })
        hplaces₁.standing hregistry hkeys (fun e he => hlength ▸ hsource e he)
        fun e he => (htaken e he).congr hplaces₁.profiles
    refine ⟨if (home? s.outlets name).isNone then n + 1 else n, outlets, d', ?_,
      hplaces.profiles.trans hplaces₁.profiles, hplaces.standing, fun name' => ?_⟩
    · rw [Store.placeAll, Work.out_bind, hplace]
      dsimp only
      rw [Work.out_bind, hall]
      rfl
    · rw [hplaces.histories, hplaces₁.histories, keyedAt_congr hplaces₁.profiles,
        home?_congr hplaces₁.profiles, Dict.lookup]
      by_cases heq : name' = name
      · -- no other entry is about this variable
        subst heq
        have hnone : Dict.lookup name' rest = none := Dict.lookup_eq_none hfresh
        rw [if_pos rfl, if_pos rfl, hnone]
        rfl
      · rw [if_neg heq, if_neg (Ne.symm heq)]

/-! ## Building -/

/-- What holds of a store that was built over outlets with the histories `H`. -/
structure Built (r : Registry) (H : String → Nat → History) (outlets : List Outlet) (d : Disk)
    (s : Store) : Prop where
  /-- All outlets are loaded. -/
  standing : Standing r d s.outlets.length s.outlets
  /-- They are the outlets that the store was built over. -/
  profiles : s.outlets.map Outlet.profile = outlets.map Outlet.profile
  /-- Every variable is where it belongs. -/
  histories : ∀ name, histories r d s.outlets name =
    settled (keyedAt outlets) (H name) outlets.length (home? outlets name) (saves r)
  /-- Single variables have the values that count. -/
  values : VariableMap.Reads s.vars fun name =>
    if Variables.isList name then none else (latest (H name) outlets.length).map (·.1)
  /-- There is no list without elements. -/
  full : Variables.Children.Full s.vars.tree
  registry : s.registry = r
  pending : s.pending = []
  arrivals : s.arrivals = []
  closed : s.closed = false

section

variable {H : String → Nat → History} {outlets : List Outlet} {l : Loading}
  {arrange : List (String × Value × Nat) → List (String × Value × Nat)}

/-- What was loaded of a variable, in whatever order its entries are brought. -/
theorem Loading.Reached.lookup_arrange (h : l.Reached r H outlets d [])
    (harrange : ∀ entries, (arrange entries).Perm entries) (name : String) :
    Dict.lookup name (arrange l.vars.entries) = latest (H name) l.outlets.length :=
  (Dict.lookup_perm (harrange _).symm h.keys name).trans (congrArg Prod.fst (h.view name))

/-- A variable that was loaded has a name that its outlet takes, and its home too. -/
theorem Loading.Reached.takenAt (h : l.Reached r H outlets d []) (hnames : Suited outlets H)
    {name : String} {v : Value} {source : Nat} (hentry : l.vars.get? name = some (v, source)) :
    source < l.outlets.length ∧ TakenAt l.outlets name source := by
  have hprofiles : l.outlets.map Outlet.profile = outlets.map Outlet.profile := by
    simpa using h.profiles
  have hlatest : latest (H name) l.outlets.length = some (v, source) :=
    (congrArg Prod.fst (h.view name)).symm.trans hentry
  obtain ⟨hlt, hfinal, -⟩ := History.latest_eq_some_iff.1 hlatest
  refine ⟨hlt, fun i o ho hplace => ?_⟩
  rcases hplace with rfl | hhome
  · exact h.takes hnames hentry (by rw [List.append_nil]; exact ho)
  · obtain ⟨p, hp, hmedium⟩ := getElem?_of_profiles hprofiles ho
    rw [← hmedium]
    rw [home?_congr hprofiles] at hhome
    refine hnames hp (.inr ⟨hhome, source, fun hnil => ?_⟩)
    rw [hnil] at hfinal
    cases hfinal

/-- **What was loaded is put where it belongs.** -/
theorem Loading.Reached.placeAll (h : l.Reached r H outlets d []) (hr : r.Faithful)
    (hnames : Suited outlets H) (harrange : ∀ entries, (arrange entries).Perm entries) :
    ∃ n s d', (placeAll { registry := r, outlets := l.outlets } (arrange l.vars.entries)).out d
      = ((n, s), d') ∧ Built r H outlets d' s := by
  have hprofiles : l.outlets.map Outlet.profile = outlets.map Outlet.profile := by
    simpa using h.profiles
  have hlength : l.outlets.length = outlets.length := by
    simpa using congrArg List.length hprofiles
  have hstanding : Standing r d l.outlets.length l.outlets := by simpa using h.standing
  -- every variable is placed once, whatever the order
  have hkeys : ((arrange l.vars.entries).map (·.1)).Nodup :=
    ((harrange _).map _).nodup_iff.2 h.keys
  have hentry : ∀ e ∈ arrange l.vars.entries,
      e.2.2 < l.outlets.length ∧ TakenAt l.outlets e.1 e.2.2 := by
    intro e he
    have hget := (Dict.mem_entries_iff h.keys).1 ((harrange _).mem_iff.1 he)
    exact h.takenAt hnames hget
  obtain ⟨n, outlets', d', hplace, hplaces⟩ :=
    Standing.placeAll (s := { registry := r, outlets := l.outlets }) hstanding hr rfl hkeys
      (fun e he => (hentry e he).1) fun e he => (hentry e he).2
  refine ⟨n, _, d', hplace, hplaces.standing, hplaces.profiles.trans hprofiles, fun name => ?_, ?_,
    VariableMap.full_setAll .nil _, rfl, rfl, rfl, rfl⟩
  · have hview : histories r d l.outlets name
        = merged (keyedAt outlets) (H name) l.outlets.length := by
      have hview := congrArg Prod.snd (h.view name)
      rwa [Loading.view, List.append_nil] at hview
    rw [hplaces.histories]
    dsimp only
    rw [hview, h.lookup_arrange harrange, keyedAt_congr hprofiles, home?_congr hprofiles, hlength]
    rfl
  · have hreads := VariableMap.Reads.empty.setAll
      (l := (arrange l.vars.entries).map fun e => (e.1, e.2.1))
      (by rw [List.map_map]; exact hkeys)
    convert hreads using 2 with name
    have hvalue := Dict.lookup_map (fun e : Value × Nat => e.1) name (arrange l.vars.entries)
    rw [hvalue, h.lookup_arrange harrange, Option.or_none, hlength]

end

/-- What building comes to: loading, placing, and looking whether anything has failed. -/
theorem out_buildIn (arrange : List (String × Value × Nat) → List (String × Value × Nat))
    (r : Registry) (outlets : List Outlet) (failures : Nat) (d : Disk) {l : Loading} {d₁ d₂ : Disk}
    {n : Nat} {s : Store} (hload : (Loading.addAll { failures } r outlets).out d = (l, d₁))
    (hplace : (placeAll { registry := r, outlets := l.outlets } (arrange l.vars.entries)).out d₁
      = ((n, s), d₂)) :
    (buildIn arrange r outlets failures).out d =
      if 0 < l.failures + (announce s.outlets).value then
        (((s.close.out d₂).1, .error (.loadFailed (l.failures + (announce s.outlets).value))),
          (s.close.out d₂).2)
      else if s.outlets.isEmpty then (((s.close.out d₂).1, .error .noDatabases), (s.close.out d₂).2)
      else ((s, .ok ()), d₂) := by
  unfold buildIn
  rw [Work.out_bind, hload]
  dsimp only
  split
  all_goals
    simp only [Work.out_bind, Work.out_lift, hplace]
    split
    all_goals
      change Work.out (if 0 < l.failures + (announce s.outlets).value then _ else _) d₂ = _
      by_cases hfail : 0 < l.failures + (announce s.outlets).value
      · rw [if_pos hfail, if_pos hfail]
        rfl
      · rw [if_neg hfail, if_neg hfail]
        by_cases hempty : s.outlets.isEmpty = true
        · rw [if_pos hempty, if_pos hempty]
          rfl
        · rw [if_neg hempty, if_neg hempty]
          rfl

/-- Backends that work have nothing against the others being loaded. -/
theorem value_announce {outlets : List Outlet} (h : ∀ o ∈ outlets, o.backend.Works r d) :
    (announce outlets).value = 0 := by
  induction outlets with
  | nil => rfl
  | cons o rest ih =>
    obtain ⟨ho, hrest⟩ := List.forall_mem_cons.1 h
    have hloaded : o.backend.allLoaded = .ok () := by
      cases hb : o.backend with
      | relay s => rw [hb] at ho; exact ho.elim
      | _ => rfl
    rw [announce, hloaded]
    exact ih hrest

theorem Standing.works_of_mem {outlets : List Outlet} (h : Standing r d outlets.length outlets) :
    ∀ o ∈ outlets, o.delivery = .writing ∧ o.backend.Works r d := by
  intro o ho
  obtain ⟨i, hi⟩ := List.getElem?_of_mem ho
  exact h.works hi (List.getElem?_eq_some_iff.1 hi).1

section

variable {outlets : List Outlet}
  {arrange : List (String × Value × Nat) → List (String × Value × Nat)}

/-- Before anything is loaded. -/
theorem Standing.reached (h : Standing r d 0 outlets) :
    Loading.Reached r (fun name => histories r d outlets name) outlets d { failures := 0 }
      outlets where
  standing := h
  keys := List.nodup_nil
  profiles := rfl
  view _ := rfl

/-- **A store that could be built is built as it should be.** -/
theorem built_of_build (h : Standing r d 0 outlets) (hr : r.Faithful)
    (hnames : Suited outlets fun name => histories r d outlets name)
    (harrange : ∀ entries, (arrange entries).Perm entries) {d' : Disk}
    (hbuild : (buildIn arrange r outlets 0).out d = ((s, .ok ()), d')) :
    outlets ≠ [] ∧ Built r (fun name => histories r d outlets name) outlets d' s := by
  rcases hload : (Loading.addAll { failures := 0 } r outlets).out d with ⟨l, d₁⟩
  rcases hplace : (placeAll { registry := r, outlets := l.outlets } (arrange l.vars.entries)).out d₁
    with ⟨⟨n, s'⟩, d₂⟩
  rw [out_buildIn arrange r outlets 0 d hload hplace] at hbuild
  split at hbuild
  · cases hbuild
  · next hok =>
    split at hbuild
    · cases hbuild
    · next hnonempty =>
      cases hbuild
      have hfailures : l.failures = 0 := by omega
      obtain ⟨l', d₁', hload', hreached, -⟩ :=
        h.reached.addAll hr hnames (by rw [hload]; exact hfailures)
      rw [hload] at hload'
      cases hload'
      obtain ⟨n', s', d₂', hplace', hbuilt⟩ := hreached.placeAll hr hnames harrange
      rw [hplace] at hplace'
      cases hplace'
      refine ⟨fun hnil => hnonempty ?_, hbuilt⟩
      have hlength := congrArg List.length hbuilt.profiles
      rw [hnil] at hlength
      exact List.isEmpty_iff_length_eq_zero.2 (by simpa using hlength)

/-- **A store can be built over outlets whose content is found.** -/
theorem exists_build (h : Standing r d 0 outlets) (hr : r.Faithful)
    (hnames : Suited outlets fun name => histories r d outlets name)
    (harrange : ∀ entries, (arrange entries).Perm entries) (hne : outlets ≠ [])
    (hfound : ∀ o ∈ outlets, o.backend.Found d) :
    ∃ s d', (buildIn arrange r outlets 0).out d = ((s, .ok ()), d') ∧
      Built r (fun name => histories r d outlets name) outlets d' s := by
  obtain ⟨l, d₁, hload, hreached, hfailures⟩ := h.reached.addAll hr hnames
    (h.reached.failures_addAll hr hnames hfound)
  obtain ⟨n, s, d', hplace, hbuilt⟩ := hreached.placeAll hr hnames harrange
  refine ⟨s, d', ?_, hbuilt⟩
  have hannounce := value_announce fun o ho => (hbuilt.standing.works_of_mem o ho).2
  have hnonempty : ¬ s.outlets.isEmpty = true := by
    intro hempty
    have hlength := congrArg List.length hbuilt.profiles
    rw [List.isEmpty_iff.1 hempty] at hlength
    exact hne (List.length_eq_zero_iff.1 (by simpa using hlength.symm))
  rw [out_buildIn arrange r outlets 0 d hload hplace, hannounce, hfailures,
    if_neg (Nat.lt_irrefl 0), if_neg hnonempty]

end

/-! ## Closing, and building once more -/

/-- Closing an outlet for which no change waits disconnects its backend, and does no more. -/
theorem out_close_outlet {o : Outlet} (hidle : o.pending = 0) (d : Disk) :
    o.close.out d = (o.shut, d) := by
  obtain ⟨name, pattern, backend, delivery⟩ := o
  unfold Outlet.close Outlet.shut
  cases delivery with
  | queued changes warned =>
    cases List.length_eq_zero_iff.1 (show changes.length = 0 from hidle)
    dsimp only
    rw [Outlet.saveRest, Work.out_bind, Work.out_pure]
    dsimp only
    rcases backend.disconnect with ⟨b, _ | _⟩ <;> rfl
  | _ =>
    rw [Work.out_bind, Work.out_pure]
    dsimp only
    rcases backend.disconnect with ⟨b, _ | _⟩ <;> rfl

theorem out_closeOutlets {outlets : List Outlet} (h : ∀ o ∈ outlets, o.delivery = .writing) (d : Disk) :
    (closeOutlets outlets).out d = (outlets.map Outlet.shut, d) := by
  induction outlets with
  | nil => rfl
  | cons o rest ih =>
    obtain ⟨hdelivery, hrest⟩ := List.forall_mem_cons.1 h
    have hidle : o.pending = 0 := by rw [Outlet.pending, hdelivery]
    rw [closeOutlets, Work.out_bind, out_close_outlet hidle]
    dsimp only
    rw [Work.out_bind, ih hrest]
    rfl

/-- Nothing waits, and all outlets save what they are sent. -/
structure InUse (s : Store) : Prop where
  pending : s.pending = []
  arrivals : s.arrivals = []
  closed : s.closed = false
  writing : ∀ o ∈ s.outlets, o.delivery = .writing

/-- A store for which no change waits is closed by closing its outlets. -/
theorem out_close_of_idle (hpending : s.pending = []) (harrivals : s.arrivals = [])
    (hclosed : s.closed = false) (d : Disk) :
    s.close.out d = ({ s with closed := true, outlets := ((closeOutlets s.outlets).out d).1 },
      ((closeOutlets s.outlets).out d).2) := by
  have hdrain : drain { s with closed := true } = pure { s with closed := true } := by
    rw [drain]
    dsimp only
    rw [hpending, harrivals]
    rfl
  unfold close
  rw [hclosed, if_neg Bool.false_ne_true, hdrain]
  rfl

/-- Closing a store in use disconnects its outlets, and does no more. -/
theorem InUse.out_close (h : s.InUse) (d : Disk) :
    s.close.out d = ({ s with closed := true, outlets := s.outlets.map Outlet.shut }, d) := by
  rw [out_close_of_idle h.pending h.arrivals h.closed, out_closeOutlets h.writing]

section

variable {H : String → Nat → History} {outlets : List Outlet}

theorem Built.inUse (h : Built r H outlets d s) : s.InUse :=
  ⟨h.pending, h.arrivals, h.closed, fun o ho => (h.standing.works_of_mem o ho).1⟩

theorem Built.out_close (h : Built r H outlets d s) :
    s.close.out d = ({ s with closed := true, outlets := s.outlets.map Outlet.shut }, d) :=
  h.inUse.out_close d

/-- The outlets of a closed store when nothing has been loaded from them yet. -/
theorem map_afresh_shut (outlets : List Outlet) :
    (outlets.map Outlet.shut).map Outlet.afresh = outlets.map Outlet.afresh := by
  rw [List.map_map]
  refine List.map_congr_left fun o _ => ?_
  show ({ o with backend := o.backend.disconnect.1.afresh, delivery := _ } : Outlet) = _
  rw [Backend.afresh_disconnect]
  rfl

/-- **The outlets of a store that was built can be loaded again**, and tell what they told when it
was built. -/
theorem Built.reopened (h : Built r H outlets d s) (hnames : Suited outlets H) :
    Standing r d 0 (s.outlets.map Outlet.afresh) ∧
      (s.outlets.map Outlet.afresh).map Outlet.profile = outlets.map Outlet.profile ∧
      (∀ name, Store.histories r d (s.outlets.map Outlet.afresh) name =
        settled (keyedAt outlets) (H name) outlets.length (home? outlets name) (saves r)) ∧
      (Suited (s.outlets.map Outlet.afresh)
        fun name => Store.histories r d (s.outlets.map Outlet.afresh) name) ∧
      ∀ o ∈ s.outlets.map Outlet.afresh, o.backend.Found d := by
  have hworks : ∀ {i : Nat} {o : Outlet}, s.outlets[i]? = some o → o.backend.Works r d :=
    fun hi => (h.standing.works_of_mem _ (List.mem_of_getElem? hi)).2
  have hagain : ∀ {i : Nat} {p : Outlet}, (s.outlets.map Outlet.afresh)[i]? = some p →
      ∃ o, s.outlets[i]? = some o ∧ o.afresh = p := by
    intro i p hp
    rw [List.getElem?_map] at hp
    exact Option.map_eq_some_iff.1 hp
  have hprofiles : (s.outlets.map Outlet.afresh).map Outlet.profile
      = outlets.map Outlet.profile := by
    rw [← h.profiles, List.map_map]
    refine List.map_congr_left fun o ho => ?_
    exact congrArg (Prod.mk o.pattern) (h.standing.works_of_mem o ho).2.afresh_spec.2.2.1
  have hhistories : ∀ name, Store.histories r d (s.outlets.map Outlet.afresh) name =
      settled (keyedAt outlets) (H name) outlets.length (home? outlets name) (saves r) := by
    intro name
    rw [← h.histories]
    funext i
    rw [Store.histories, Store.histories, List.getElem?_map]
    cases hi : s.outlets[i]? with
    | none => rfl
    | some o =>
      have hevents : o.afresh.backend.events r d = o.backend.events r d :=
        (hworks hi).afresh_spec.2.2.2
      dsimp only [Option.map_some, Option.getD_some]
      rw [hevents]
  refine ⟨⟨h.standing.sound, fun _ hlt => absurd hlt (Nat.not_lt_zero _), fun hp _ => ?_,
    fun hij hp hq => ?_⟩, hprofiles, hhistories, fun {name i p} hp htold => ?_, fun p hp => ?_⟩
  · obtain ⟨o, ho, rfl⟩ := hagain hp
    exact ⟨rfl, (hworks ho).afresh_spec.1⟩
  · obtain ⟨o, ho, rfl⟩ := hagain hp
    obtain ⟨o', ho', rfl⟩ := hagain hq
    have hapart := h.standing.apart hij ho ho'
    rw [← (hworks ho).afresh_spec.2.2.1, ← (hworks ho').afresh_spec.2.2.1] at hapart
    exact hapart
  · -- only where something was told of a variable, and at its home, is anything told now
    obtain ⟨o, ho, hmedium⟩ := getElem?_of_profiles hprofiles hp
    rw [← hmedium]
    rw [home?_congr hprofiles] at htold
    simp only [hhistories] at htold
    rcases htold with hne | ⟨hhome, j, hne⟩
    · exact hnames ho (History.ne_nil_of_settled hne)
    · refine hnames ho (.inr ⟨hhome, ?_⟩)
      rcases History.ne_nil_of_settled hne with hne | ⟨_, hsome⟩
      · exact ⟨j, hne⟩
      · exact hsome
  · obtain ⟨o, ho, rfl⟩ := List.mem_map.1 hp
    exact (h.standing.works_of_mem o ho).2.afresh_spec.2.1

end

end

end Store

end ScriptStore
