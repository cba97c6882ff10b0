import ScriptStore.Proofs.Storage.Backend
import ScriptStore.Store

/-!
# Outlets side by side

While a store is built, the first of its outlets are loaded and take changes, and the others wait to
be loaded (`Standing`). What outlets tell of a variable is one history for every place
(`histories`). A change that is handed to the outlet at a place goes into the history at that place,
and no other outlet notices.
-/

namespace ScriptStore

open Storage
open History (told)
open ScriptStore.Types (Registry Saved)

/-- What stays of an outlet whatever is saved: its pattern, and the medium behind it. -/
def Storage.Outlet.profile (o : Outlet) : Option Pattern × Medium := (o.pattern, o.backend.medium)

/-- The outlet when its backend has been loaded. -/
def Storage.Outlet.working (o : Outlet) (b : Backend) : Outlet :=
  { o with backend := b, delivery := .writing }

namespace Store

/-- What outlets tell of a variable, by their places. -/
def histories (r : Registry) (d : Disk) (outlets : List Outlet) (name : String) (i : Nat) :
    History :=
  (outlets[i]?.map fun o => told name (o.backend.events r d)).getD []

/-- Whether the outlet at a place keeps the last value only. -/
def keyedAt (outlets : List Outlet) (i : Nat) : Bool :=
  (outlets[i]?.map fun o => o.backend.medium.keyed).getD true

/-- Every outlet takes the names of the variables that it tells of, and of those at home in it that
any outlet tells of. -/
def Suited (outlets : List Outlet) (H : String → Nat → History) : Prop :=
  ∀ {name : String} {i : Nat} {o : Outlet}, outlets[i]? = some o →
    (H name i ≠ [] ∨ home? outlets name = some i ∧ ∃ j, H name j ≠ []) →
    o.backend.medium.Takes name

/-- The first `n` outlets are loaded, the others are not, and no two share anything. -/
structure Standing (r : Registry) (d : Disk) (n : Nat) (outlets : List Outlet) : Prop where
  sound : d.Sound
  works : ∀ {i : Nat} {o : Outlet}, outlets[i]? = some o → i < n →
    o.delivery = .writing ∧ o.backend.Works r d
  loadable : ∀ {i : Nat} {o : Outlet}, outlets[i]? = some o → n ≤ i →
    o.delivery = .queued [] false ∧ o.backend.Loadable r d
  apart : ∀ {i j : Nat} {o o' : Outlet}, i ≠ j → outlets[i]? = some o → outlets[j]? = some o' →
    o.backend.medium.Apart o'.backend.medium

section

variable {r : Registry} {d d' : Disk} {n : Nat} {outlets : List Outlet}

theorem Standing.loadable_or_works (h : Standing r d n outlets) {i : Nat} {o : Outlet}
    (ho : outlets[i]? = some o) : o.backend.Loadable r d ∨ o.backend.Works r d := by
  by_cases hi : i < n
  · exact .inr (h.works ho hi).2
  · exact .inl (h.loadable ho (Nat.le_of_not_lt hi)).2

/-- Before anything is loaded. -/
theorem Standing.of_loadable (hsound : d.Sound)
    (hload : ∀ o ∈ outlets, o.delivery = .queued [] false ∧ o.backend.Loadable r d)
    (hapart : outlets.Pairwise fun o p => o.backend.medium.Apart p.backend.medium) :
    Standing r d 0 outlets where
  sound := hsound
  works _ hi := absurd hi (Nat.not_lt_zero _)
  loadable ho _ := hload _ (List.mem_of_getElem? ho)
  apart := by
    intro i j o p hij ho hp
    obtain ⟨hi, rfl⟩ := List.getElem?_eq_some_iff.1 ho
    obtain ⟨hj, rfl⟩ := List.getElem?_eq_some_iff.1 hp
    rcases Nat.lt_or_gt_of_ne hij with hlt | hlt
    · exact List.pairwise_iff_getElem.1 hapart i j hi hj hlt
    · exact (List.pairwise_iff_getElem.1 hapart j i hj hi hlt).symm

theorem histories_eq {i : Nat} {o : Outlet} (ho : outlets[i]? = some o) (r : Registry) (d : Disk)
    (name : String) : histories r d outlets name i = told name (o.backend.events r d) := by
  rw [histories, ho]
  rfl

theorem exists_event {name : String} {i : Nat} (h : histories r d outlets name i ≠ []) :
    ∃ o ∈ outlets, ∃ e ∈ o.backend.events r d, e.1 = name := by
  cases ho : outlets[i]? with
  | none => rw [histories, ho] at h; exact absurd rfl h
  | some o =>
    rw [histories_eq ho] at h
    obtain ⟨e, he⟩ := List.exists_mem_of_ne_nil _ (mt List.map_eq_nil_iff.2 h)
    obtain ⟨hevent, hname⟩ := List.mem_filter.1 he
    exact ⟨o, List.mem_of_getElem? ho, e, hevent, by simpa using hname⟩

theorem Suited.of_events (h : ∀ o ∈ outlets, ∀ e ∈ o.backend.events r d, ∀ p ∈ outlets,
    p.backend.medium.Takes e.1) : Suited outlets fun name => histories r d outlets name := by
  intro name i p hp htold
  have hevent : ∃ j, histories r d outlets name j ≠ [] := by
    rcases htold with htold | ⟨-, htold⟩
    · exact ⟨i, htold⟩
    · exact htold
  obtain ⟨j, hj⟩ := hevent
  obtain ⟨o, ho, e, he, rfl⟩ := exists_event hj
  exact h o ho e he p (List.mem_of_getElem? hp)

theorem Standing.fits (h : Standing r d n outlets) (name : String) (i : Nat) :
    History.Fits (keyedAt outlets i) (histories r d outlets name i) := by
  unfold keyedAt histories
  cases ho : outlets[i]? with
  | none => exact fun _ => ⟨none, rfl⟩
  | some o => exact Backend.fits_told (h.loadable_or_works ho) name

theorem getElem?_of_profiles {outlets' : List Outlet}
    (h : outlets'.map Outlet.profile = outlets.map Outlet.profile) {i : Nat} {o' : Outlet}
    (ho : outlets'[i]? = some o') :
    ∃ o, outlets[i]? = some o ∧ o.backend.medium = o'.backend.medium := by
  have hi := congrArg (fun l => l[i]?) h
  simp only [List.getElem?_map, ho, Option.map_some] at hi
  obtain ⟨o, ho, hprofile⟩ := Option.map_eq_some_iff.1 hi.symm
  exact ⟨o, ho, congrArg Prod.snd hprofile⟩

theorem keyedAt_congr {outlets' : List Outlet}
    (h : outlets'.map Outlet.profile = outlets.map Outlet.profile) :
    keyedAt outlets' = keyedAt outlets := by
  funext i
  have hi := congrArg (fun l => (l[i]?).map fun e => e.2.keyed) h
  simpa [keyedAt, Outlet.profile, Function.comp_def] using congrArg (Option.getD · true) hi

/-- Where a variable belongs is a matter of the patterns. -/
theorem home?_of_patterns {outlets' : List Outlet}
    (h : outlets'.map Outlet.pattern = outlets.map Outlet.pattern) (name : String) :
    home? outlets' name = home? outlets name := by
  have hidx : ∀ outlets : List Outlet, home? outlets name
      = (outlets.map Outlet.pattern).findIdx? fun p => p.all (·.accepts name) := by
    intro outlets
    rw [home?, List.findIdx?_map]
    rfl
  rw [hidx, hidx, h]

theorem home?_congr {outlets' : List Outlet}
    (h : outlets'.map Outlet.profile = outlets.map Outlet.profile) (name : String) :
    home? outlets' name = home? outlets name := by
  refine home?_of_patterns ?_ name
  have hpatterns := congrArg (List.map Prod.fst) h
  rwa [List.map_map, List.map_map] at hpatterns

/-- An outlet may be replaced by one on the same medium, if the disk is touched only there. -/
theorem Standing.replace (h : Standing r d n outlets) {i : Nat} {o o' : Outlet}
    (ho : outlets[i]? = some o) (hprofile : o'.profile = o.profile) (hsound : d'.Sound)
    (hd' : o.backend.medium.Confines d d') {n' : Nat} (hn : ∀ j, j ≠ i → (j < n' ↔ j < n))
    (hi : i < n') (hdelivery : o'.delivery = .writing) (hworks : o'.backend.Works r d') :
    Standing r d' n' (outlets.set i o') ∧
      (outlets.set i o').map Outlet.profile = outlets.map Outlet.profile ∧
      ∀ name, histories r d' (outlets.set i o') name =
        Function.update (histories r d outlets name) i (told name (o'.backend.events r d')) := by
  obtain ⟨hlt, _⟩ := List.getElem?_eq_some_iff.1 ho
  have hself : (outlets.set i o')[i]? = some o' := List.getElem?_set_self hlt
  have hother : ∀ {j}, j ≠ i → (outlets.set i o')[j]? = outlets[j]? := fun hj =>
    List.getElem?_set_ne (Ne.symm hj)
  have hprofiles : (outlets.set i o').map Outlet.profile = outlets.map Outlet.profile := by
    refine List.ext_getElem? fun j => ?_
    rw [List.getElem?_map, List.getElem?_map]
    by_cases hji : j = i
    · rw [hji, hself, ho, Option.map_some, Option.map_some, hprofile]
    · rw [hother hji]
  refine ⟨⟨hsound, fun {j p} hj hjn => ?_, fun {j p} hj hjn => ?_,
    fun {j k p q} hjk hj hk => ?_⟩, hprofiles, fun name => ?_⟩
  · by_cases hji : j = i
    · subst hji
      rw [hself] at hj
      cases hj
      exact ⟨hdelivery, hworks⟩
    · rw [hother hji] at hj
      obtain ⟨hp, hp'⟩ := h.works hj ((hn j hji).1 hjn)
      exact ⟨hp, hp'.of_confines hd' (h.apart hji hj ho)⟩
  · have hji : j ≠ i := fun heq => absurd hi (Nat.not_lt.2 (heq ▸ hjn))
    rw [hother hji] at hj
    have hle : n ≤ j := Nat.le_of_not_lt fun hlt => Nat.not_lt.2 hjn ((hn j hji).2 hlt)
    obtain ⟨hp, hp'⟩ := h.loadable hj hle
    exact ⟨hp, hp'.of_confines hd' (h.apart hji hj ho)⟩
  · -- the media are those from before
    obtain ⟨p', hp', hpm⟩ := getElem?_of_profiles hprofiles hj
    obtain ⟨q', hq', hqm⟩ := getElem?_of_profiles hprofiles hk
    rw [← hpm, ← hqm]
    exact h.apart hjk hp' hq'
  · funext j
    by_cases hji : j = i
    · rw [hji, Function.update_self, histories, hself]
      rfl
    · rw [Function.update_of_ne hji, histories, hother hji, histories]
      cases hj : outlets[j]? with
      | none => rfl
      | some p =>
        dsimp only [Option.map_some, Option.getD_some]
        rw [Backend.events_of_confines hd' (h.apart hji hj ho)]

theorem out_queueAt {i : Nat} {o : Outlet} (ho : outlets[i]? = some o) (change : Change) :
    (queueAt change outlets i).out d
      = (outlets.set i ((o.queue change).out d).1, ((o.queue change).out d).2) := by
  induction outlets generalizing i with
  | nil => cases ho
  | cons first rest ih =>
    cases i with
    | zero =>
      cases ho
      rfl
    | succ i =>
      have hrest := ih ho
      rw [queueAt, Work.out_bind, hrest]
      rfl

theorem out_queue {o : Outlet} (h : o.delivery = .writing) (change : Change) :
    (o.queue change).out d = ({ o with backend := ((o.backend.save change).out d).1.1 },
      ((o.backend.save change).out d).2) := by
  obtain ⟨_, _, _, delivery⟩ := o
  cases h
  rfl

theorem out_start {o : Outlet} {warned : Bool} (h : o.delivery = .queued [] warned) (b : Backend) :
    (Outlet.start { o with backend := b }).out d = (o.working b, d) := by
  obtain ⟨_, _, _, delivery⟩ := o
  cases h
  rfl

/-- **A change goes into one history.** -/
theorem Standing.queueAt {front rest : List Outlet} (h : Standing r d n (front ++ rest))
    (hr : r.Faithful) {i : Nat} {o : Outlet} (ho : front[i]? = some o) (hi : i < n) {name : String}
    (hname : o.backend.medium.Takes name) {v : Option Value} {saved : Option Saved}
    (hsaved : r.Writes v saved) :
    ∃ front' d', (Store.queueAt (name, saved) front i).out d = (front', d') ∧
      front'.map Outlet.profile = front.map Outlet.profile ∧ d.Keeps d' ∧
      Standing r d' n (front' ++ rest) ∧
      ∀ name', histories r d' (front' ++ rest) name' =
        if name' = name then Function.update (histories r d (front ++ rest) name) i
          ((histories r d (front ++ rest) name i).after (keyedAt (front ++ rest) i) v)
        else histories r d (front ++ rest) name' := by
  obtain ⟨hlt, _⟩ := List.getElem?_eq_some_iff.1 ho
  have ho' : (front ++ rest)[i]? = some o := by rw [List.getElem?_append_left hlt, ho]
  obtain ⟨hdelivery, hworks⟩ := h.works ho' hi
  obtain ⟨b', d', hsave, hmedium, hworks', hsound, hconfines, htold⟩ :=
    hworks.save_spec h.sound hr hsaved hname
  have hprofile : ({ o with backend := b' } : Outlet).profile = o.profile :=
    congrArg (Prod.mk o.pattern) hmedium
  obtain ⟨hstanding, hprofiles, hhistories⟩ := h.replace ho' hprofile hsound hconfines
    (fun _ _ => Iff.rfl) hi hdelivery hworks'
  rw [List.set_append_left i _ hlt] at hstanding hprofiles hhistories
  rw [List.map_append, List.map_append] at hprofiles
  refine ⟨_, d', ?_, List.append_cancel_right hprofiles, hconfines.keeps, hstanding,
    fun name' => ?_⟩
  · rw [out_queueAt ho, out_queue hdelivery, hsave]
  · have hkeyed : keyedAt (front ++ rest) i = o.backend.medium.keyed := by rw [keyedAt, ho']; rfl
    have hbefore := histories_eq ho' r d
    rw [hhistories, htold, hkeyed, hbefore]
    by_cases heq : name' = name
    · rw [if_pos heq, if_pos heq, heq]
    · rw [if_neg heq, if_neg heq, ← hbefore, Function.update_eq_self]

end

end Store

end ScriptStore
