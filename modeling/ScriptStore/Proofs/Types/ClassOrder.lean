import Mathlib
import ScriptStore.Types.ClassOrder

/-!
# The order of class infos

An info waits for others (`WaitsFor`), and is ready once all of them are placed. Placing goes on as
long as an info is ready, and takes the earliest registered one. What is left at the end is stuck:
every info that is left waits for another one that is left, and because there are finitely many, the
waiting comes back on itself. What was placed is not stuck, for it waits for infos placed before it
only. So there is an order if and only if nobody waits in a circle, the order is the only one that
follows the rule, and the infos that an error names are those that wait for a circle
(`sort_places_earliest_ready`).
-/

namespace ScriptStore.Types.ClassOrder

open Relation (TransGen ReflTransGen)

variable {h : Hierarchy} {infos before left order : List ClassInfo} {a b info : ClassInfo}

/-! ## Waiting -/

/-- Of two different infos, `a` has to come after `b`: because it names `b` as earlier, because `b`
names it as later, or because it is the info of a supertype. -/
def WaitsFor (h : Hierarchy) (infos : List ClassInfo) (a b : ClassInfo) : Prop :=
  a ∈ infos ∧ b ∈ infos ∧ a.code ≠ b.code ∧
    (b.code ∈ a.after ∨ a.code ∈ b.before ∨ h.assignable a.kind b.kind = true)

theorem waitsFor_iff :
    WaitsFor h infos a b ↔ a ∈ infos ∧ b ∈ infos ∧ a.waitsFor h b = true := by
  simp only [WaitsFor, ClassInfo.waitsFor, Bool.and_eq_true, Bool.or_eq_true, bne_iff_ne,
    List.contains_eq_mem, decide_eq_true_eq, or_assoc]

/-- `info` can be placed when those `before` it have been. -/
structure Ready (h : Hierarchy) (infos before : List ClassInfo) (info : ClassInfo) : Prop where
  mem : info ∈ infos
  unplaced : info ∉ before
  served : ∀ b, WaitsFor h infos info b → b ∈ before

/-- Of the infos that are ready, `info` is the earliest registered. -/
def Next (h : Hierarchy) (infos before : List ClassInfo) (info : ClassInfo) : Prop :=
  ∃ earlier later, infos = earlier ++ info :: later ∧ Ready h infos before info ∧
    ∀ other ∈ earlier, ¬ Ready h infos before other

/-- At every place stands the earliest registered info that is ready by then. -/
def Greedy (h : Hierarchy) (infos order : List ClassInfo) : Prop :=
  ∀ before info later, order = before ++ info :: later → Next h infos before info

/-- Waiting leads from `a` to infos that wait for each other in a circle. -/
def Stuck (h : Hierarchy) (infos : List ClassInfo) (a : ClassInfo) : Prop :=
  ∃ b, ReflTransGen (WaitsFor h infos) a b ∧ TransGen (WaitsFor h infos) b b

/-! ## Circles -/

/-- Who is stuck waits for somebody who is. -/
theorem Stuck.next (ha : Stuck h infos a) : ∃ b, WaitsFor h infos a b ∧ Stuck h infos b := by
  obtain ⟨c, hpath, hcircle⟩ := ha
  rcases hpath.cases_head with rfl | ⟨b, hab, hpath⟩
  · obtain ⟨b, hab, hback⟩ := TransGen.head'_iff.1 hcircle
    exact ⟨b, hab, a, hback, hcircle⟩
  · exact ⟨b, hab, c, hpath, hcircle⟩

/-- Finitely many infos that all wait for one of them wait in a circle somewhere. -/
theorem stuck_of_waiting (hleft : ∀ a ∈ left, ∃ b ∈ left, WaitsFor h infos a b) (ha : a ∈ left) :
    Stuck h infos a := by
  by_contra hfree
  -- without a circle ahead, being waited for is a strict order on what can be reached from `a`
  have : IsStrictOrder ClassInfo fun y x =>
      ReflTransGen (WaitsFor h infos) a x ∧ TransGen (WaitsFor h infos) x y :=
    { irrefl := fun x hx => hfree ⟨x, hx⟩
      trans := fun _ _ _ hzy hyx => ⟨hyx.1, hyx.2.trans hzy.2⟩ }
  have hwell := (List.finite_toSet left).wellFoundedOn (r := fun y x =>
      ReflTransGen (WaitsFor h infos) a x ∧ TransGen (WaitsFor h infos) x y)
  have hnone : ∀ x ∈ left, ¬ ReflTransGen (WaitsFor h infos) a x := by
    intro x hx
    refine hwell.induction (P := fun x => ¬ ReflTransGen (WaitsFor h infos) a x) hx ?_
    intro x hx ih hpath
    obtain ⟨y, hy, hxy⟩ := hleft x hx
    exact ih y hy ⟨hpath, .single hxy⟩ (hpath.tail hxy)
  exact hnone a ha .refl

/-! ## Orders that follow the rule -/

theorem Greedy.of_append {later : List ClassInfo} (ho : Greedy h infos (before ++ later)) :
    Greedy h infos before := by
  intro prior info rest hsplit
  exact ho prior info (rest ++ later) (by rw [hsplit, List.append_assoc, List.cons_append])

theorem Greedy.snoc (ho : Greedy h infos before) (hnext : Next h infos before info) :
    Greedy h infos (before ++ [info]) := by
  intro prior a later hsplit
  rcases List.append_eq_append_iff.1 hsplit with ⟨gap, rfl, hgap⟩ | ⟨gap, rfl, hgap⟩
  · rcases List.singleton_eq_append_iff.1 hgap with ⟨rfl, hlast⟩ | ⟨-, hlast⟩
    · rw [List.append_nil]
      exact (List.cons.inj hlast).1 ▸ hnext
    · exact absurd hlast (List.cons_ne_nil _ _)
  · cases gap with
    | nil =>
      rw [List.append_nil] at hnext
      exact (List.cons.inj hgap).1 ▸ hnext
    | cons x gap =>
      obtain rfl := (List.cons.inj hgap).1
      exact ho prior a gap rfl

theorem Greedy.mem (ho : Greedy h infos order) (ha : a ∈ order) : a ∈ infos := by
  obtain ⟨before, later, rfl⟩ := List.append_of_mem ha
  obtain ⟨_, _, _, hready, _⟩ := ho before a later rfl
  exact hready.mem

theorem Greedy.nodup (ho : Greedy h infos order) : order.Nodup := by
  induction order using List.reverseRecOn with
  | nil => exact List.nodup_nil
  | append_singleton before info ih =>
    obtain ⟨_, _, _, hready, _⟩ := ho before info [] rfl
    rw [← List.concat_eq_append, List.nodup_concat]
    exact ⟨hready.unplaced, ih ho.of_append⟩

/-- Nobody in such an order is stuck: whoever is would wait for an earlier one that is. -/
theorem Greedy.not_stuck (ho : Greedy h infos order) : ∀ a ∈ order, ¬ Stuck h infos a := by
  induction order using List.reverseRecOn with
  | nil => exact fun a ha => absurd ha List.not_mem_nil
  | append_singleton before info ih =>
    have hbefore := ih ho.of_append
    obtain ⟨_, _, _, hready, _⟩ := ho before info [] rfl
    intro a ha hstuck
    rcases List.mem_append.1 ha with ha | ha
    · exact hbefore a ha hstuck
    · obtain rfl := List.mem_singleton.1 ha
      obtain ⟨b, hab, hb⟩ := hstuck.next
      exact hbefore b (hready.served b hab) hb

/-- The earliest registered info that is ready is one and the same. -/
theorem Next.unique (ha : Next h infos before a) (hb : Next h infos before b) : a = b := by
  obtain ⟨e, l, hsplit, hready, hearlier⟩ := ha
  obtain ⟨e', l', hsplit', hready', hearlier'⟩ := hb
  rcases List.append_eq_append_iff.1 (hsplit.symm.trans hsplit') with
    ⟨gap, he', hgap⟩ | ⟨gap, he, hgap⟩
  · cases gap with
    | nil => exact (List.cons.inj hgap).1
    | cons x gap =>
      obtain rfl := (List.cons.inj hgap).1
      exact absurd hready (hearlier' a (by simp [he']))
  · cases gap with
    | nil => exact (List.cons.inj hgap).1.symm
    | cons x gap =>
      obtain rfl := (List.cons.inj hgap).1
      exact absurd hready' (hearlier b (by simp [he]))

/-- Two orders of equal length that follow the rule from one point on are equal from there on. -/
theorem eq_of_greedy (before : List ClassInfo) {rest rest' : List ClassInfo}
    (hlength : rest.length = rest'.length) (ho : Greedy h infos (before ++ rest))
    (ho' : Greedy h infos (before ++ rest')) : rest = rest' := by
  induction rest generalizing before rest' with
  | nil => exact (List.length_eq_zero_iff.1 hlength.symm).symm
  | cons info rest ih =>
    cases rest' with
    | nil => exact absurd hlength (Nat.succ_ne_zero _)
    | cons info' rest' =>
      obtain rfl := (ho before info rest rfl).unique (ho' before info' rest' rfl)
      rw [List.append_cons] at ho ho'
      rw [ih _ (Nat.succ.inj hlength) ho ho']

/-! ## What `place` does -/

/-- The infos that are not placed yet, by their codes, in the order of their registration. -/
def remaining (infos before : List ClassInfo) : List ClassInfo :=
  infos.filter fun info => info.code ∉ before.map (·.code)

/-- Different infos have different codes. -/
theorem mem_remaining_iff (hcodes : (infos.map (·.code)).Nodup) (hbefore : before ⊆ infos) :
    a ∈ remaining infos before ↔ a ∈ infos ∧ a ∉ before := by
  rw [remaining, List.mem_filter, decide_eq_true_eq, List.mem_map]
  refine and_congr_right fun ha => not_congr ⟨?_, fun hmem => ⟨a, hmem, rfl⟩⟩
  rintro ⟨b, hb, hcode⟩
  exact List.inj_on_of_nodup_map hcodes (hbefore hb) ha hcode ▸ hb

theorem remaining_snoc :
    (remaining infos before).filter (fun other => other.code != info.code) =
      remaining infos (before ++ [info]) := by
  rw [remaining, remaining, List.filter_filter]
  refine List.filter_congr fun other _ => Bool.eq_iff_iff.2 ?_
  simp [and_comm]

/-- An info waits for nobody who is left if and only if all it waits for is placed. -/
theorem ready_iff (hcodes : (infos.map (·.code)).Nodup) (hbefore : before ⊆ infos)
    (hinfo : info ∈ remaining infos before) :
    (awaited h (remaining infos before) info).isEmpty = true ↔ Ready h infos before info := by
  have hmem := (mem_remaining_iff hcodes hbefore).1 hinfo
  rw [awaited, List.isEmpty_iff, List.filter_eq_nil_iff]
  constructor
  · intro hnone
    refine ⟨hmem.1, hmem.2, fun b hb => ?_⟩
    rw [waitsFor_iff] at hb
    by_contra hunplaced
    exact hnone b ((mem_remaining_iff hcodes hbefore).2 ⟨hb.2.1, hunplaced⟩) hb.2.2
  · intro hready b hb hwaits
    have hb := (mem_remaining_iff hcodes hbefore).1 hb
    exact hb.2 (hready.served b (waitsFor_iff.2 ⟨hmem.1, hb.1, hwaits⟩))

/-- What a search among the remaining infos finds is the next one. -/
theorem next_of_find? (hcodes : (infos.map (·.code)).Nodup) (hbefore : before ⊆ infos)
    (hfound : (remaining infos before).find?
      (fun info => (awaited h (remaining infos before) info).isEmpty) = some info) :
    Next h infos before info := by
  have hinfo := List.mem_of_find?_eq_some hfound
  obtain ⟨hempty, first, rest, hsplit, hfirst⟩ := List.find?_eq_some_iff_append.1 hfound
  -- the search runs through a part of the infos: what it skips is placed, or not ready
  obtain ⟨e, more, rfl, he, hmore⟩ := List.filter_eq_append_iff.1 hsplit
  obtain ⟨gap, later, rfl, hgap, -, -⟩ := List.filter_eq_cons_iff.1 hmore
  refine ⟨e ++ gap, later, (List.append_assoc ..).symm,
    (ready_iff hcodes hbefore hinfo).1 hempty, ?_⟩
  intro other hother hready
  have hremains := (mem_remaining_iff hcodes hbefore).2 ⟨hready.mem, hready.unplaced⟩
  have hunplaced := (List.mem_filter.1 hremains).2
  rcases List.mem_append.1 hother with hother | hother
  · have hskipped := hfirst other (he ▸ List.mem_filter.2 ⟨hother, hunplaced⟩)
    rw [(ready_iff hcodes hbefore hremains).2 hready] at hskipped
    exact absurd hskipped (by decide)
  · exact hgap other hother hunplaced

/-- Every step places the next info; with fuel for all that remain, nobody who is left is ready. -/
theorem place_remaining (hcodes : (infos.map (·.code)).Nodup) (fuel : Nat)
    (hbefore : Greedy h infos before) :
    Greedy h infos (before ++ (place h fuel (remaining infos before)).1) ∧
      (place h fuel (remaining infos before)).2 =
        remaining infos (before ++ (place h fuel (remaining infos before)).1) ∧
      ((remaining infos before).length ≤ fuel →
        ∀ a ∈ (place h fuel (remaining infos before)).2,
          ¬ Ready h infos (before ++ (place h fuel (remaining infos before)).1) a) := by
  induction fuel generalizing before with
  | zero =>
    simp only [place, List.append_nil]
    refine ⟨hbefore, trivial, fun hfuel a ha => ?_⟩
    rw [List.length_eq_zero_iff.1 (Nat.le_zero.1 hfuel)] at ha
    exact absurd ha List.not_mem_nil
  | succ fuel ih =>
    have hsub : before ⊆ infos := fun a ha => hbefore.mem ha
    rw [place]
    split
    next hnone =>
      rw [List.append_nil]
      refine ⟨hbefore, rfl, fun _ a ha hready => ?_⟩
      exact List.find?_eq_none.1 hnone a ha ((ready_iff hcodes hsub ha).2 hready)
    next info hfound =>
      have hnext := next_of_find? hcodes hsub hfound
      have hinfo := List.mem_of_find?_eq_some hfound
      obtain ⟨hgreedy, hleft, hready⟩ := ih (hbefore.snoc hnext)
      rw [remaining_snoc]
      dsimp only
      rw [List.append_cons]
      refine ⟨hgreedy, hleft, fun hfuel => hready ?_⟩
      -- the placed info is one of those that remained
      have hfewer : (remaining infos (before ++ [info])).length
          < (remaining infos before).length := by
        rw [← remaining_snoc, List.length_filter_lt_length_iff_exists]
        exact ⟨info, hinfo, by simp⟩
      omega

/-- Placing follows the rule to the end and leaves exactly the infos that are stuck. -/
theorem place_all (hcodes : (infos.map (·.code)).Nodup) :
    Greedy h infos (place h infos.length infos).1 ∧
      (place h infos.length infos).2 = remaining infos (place h infos.length infos).1 ∧
      ∀ a ∈ infos, a ∈ (place h infos.length infos).2 ↔ Stuck h infos a := by
  have hnone : remaining infos [] = infos := by simp [remaining]
  have hstart : Greedy h infos [] := by
    intro before info later hsplit
    exact absurd hsplit (by simp)
  obtain ⟨hgreedy, hleft, hwait⟩ := place_remaining hcodes infos.length hstart
  rw [hnone, List.nil_append] at hgreedy hleft hwait
  have hsub : (place h infos.length infos).1 ⊆ infos := fun a ha => hgreedy.mem ha
  have hmem : ∀ a, a ∈ (place h infos.length infos).2 ↔
      a ∈ infos ∧ a ∉ (place h infos.length infos).1 := by
    intro a
    rw [hleft]
    exact mem_remaining_iff hcodes hsub
  refine ⟨hgreedy, hleft, fun a ha => ⟨fun haleft => ?_, fun hstuck => ?_⟩⟩
  · refine stuck_of_waiting (fun x hx => ?_) haleft
    -- an info that is left but waits for placed ones only would be ready
    by_contra hserved
    have hx' := (hmem x).1 hx
    refine hwait le_rfl x hx ⟨hx'.1, hx'.2, fun b hb => ?_⟩
    by_contra hunplaced
    exact hserved ⟨b, (hmem b).2 ⟨hb.2.1, hunplaced⟩, hb⟩
  · exact (hmem a).2 ⟨ha, fun hplaced => hgreedy.not_stuck a hplaced hstuck⟩

/-! ## What an error tells -/

/-- An entry of an error: the code of an info, and sorted the codes of those it waits for that are
named too. -/
structure Tells (h : Hierarchy) (infos named : List ClassInfo) (info : ClassInfo)
    (entry : String × List String) : Prop where
  code : entry.1 = info.code
  sorted : entry.2.Pairwise (· < ·)
  mem_iff : ∀ name, name ∈ entry.2 ↔ ∃ b ∈ named, WaitsFor h infos info b ∧ b.code = name

/-- Sorting different names puts them in strictly ascending order. -/
theorem pairwise_lt_mergeSort {names : List String} (hnames : names.Nodup) :
    (names.mergeSort (· ≤ ·)).Pairwise (· < ·) := by
  have hsorted : (names.mergeSort (· ≤ ·)).SortedLE := List.sortedLE_mergeSort
  have hdistinct := (List.mergeSort_perm names (· ≤ ·)).nodup_iff.2 hnames
  exact (hsorted.sortedLT_of_nodup hdistinct).pairwise

theorem tells_awaited (hcodes : (infos.map (·.code)).Nodup) (hleft : left.Sublist infos)
    (hinfo : info ∈ left) :
    Tells h infos left info
      (info.code, ((awaited h left info).map (·.code)).mergeSort (· ≤ ·)) where
  code := rfl
  sorted :=
    pairwise_lt_mergeSort (hcodes.sublist ((List.filter_sublist.trans hleft).map _))
  mem_iff := by
    intro name
    rw [List.mem_mergeSort, List.mem_map]
    constructor
    · rintro ⟨b, hb, rfl⟩
      rw [awaited, List.mem_filter] at hb
      exact ⟨b, hb.1, waitsFor_iff.2 ⟨hleft.subset hinfo, hleft.subset hb.1, hb.2⟩, rfl⟩
    · rintro ⟨b, hb, hwaits, rfl⟩
      exact ⟨b, List.mem_filter.2 ⟨hb, (waitsFor_iff.1 hwaits).2.2⟩, rfl⟩

/-! ## The two outcomes -/

theorem sort_eq_ok_iff :
    sort h infos = .ok order ↔
      (place h infos.length infos).2 = [] ∧ (place h infos.length infos).1 = order := by
  rw [sort]
  rcases place h infos.length infos with ⟨placed, _ | ⟨info, left⟩⟩ <;> simp

theorem sort_eq_error {e : Error} (he : sort h infos = .error e) :
    e = .circularOrder ((place h infos.length infos).2.map fun info => (info.code,
      ((awaited h (place h infos.length infos).2 info).map (·.code)).mergeSort (· ≤ ·))) := by
  rw [sort] at he
  generalize place h infos.length infos = result at he ⊢
  rcases result with ⟨placed, _ | ⟨info, left⟩⟩
  · exact absurd he (by simp)
  · exact (Except.error.inj he).symm

/-- Nobody is left if and only if nobody waits in a circle. -/
theorem left_eq_nil_iff (hcodes : (infos.map (·.code)).Nodup) :
    (place h infos.length infos).2 = [] ↔ ∀ a, ¬ TransGen (WaitsFor h infos) a a := by
  obtain ⟨-, hleft, hstuck⟩ := place_all (h := h) hcodes
  rw [List.eq_nil_iff_forall_not_mem]
  constructor
  · intro hnone a hcircle
    have ha : Stuck h infos a := ⟨a, .refl, hcircle⟩
    obtain ⟨b, hwaits, -⟩ := ha.next
    exact hnone a ((hstuck a hwaits.1).2 ha)
  · intro hfree a ha
    have hmem : a ∈ infos := List.mem_of_mem_filter (hleft ▸ ha)
    obtain ⟨b, -, hcircle⟩ := (hstuck a hmem).1 ha
    exact hfree b hcircle

/-- An order of all infos that follows the rule is what sorting gives, and the only one. -/
theorem sort_eq_ok_iff_greedy (hcodes : (infos.map (·.code)).Nodup) :
    sort h infos = .ok order ↔ order.Perm infos ∧ Greedy h infos order := by
  obtain ⟨hgreedy, hleft, hstuck⟩ := place_all (h := h) hcodes
  have hplaced : (place h infos.length infos).2 = [] →
      (place h infos.length infos).1.Perm infos := by
    intro hnone
    refine (List.perm_ext_iff_of_nodup hgreedy.nodup hcodes.of_map).2 fun a => ?_
    refine ⟨hgreedy.mem, fun ha => ?_⟩
    by_contra hunplaced
    have haleft := (mem_remaining_iff hcodes fun _ => hgreedy.mem).2 ⟨ha, hunplaced⟩
    rw [← hleft, hnone] at haleft
    exact List.not_mem_nil haleft
  rw [sort_eq_ok_iff]
  constructor
  · rintro ⟨hnone, rfl⟩
    exact ⟨hplaced hnone, hgreedy⟩
  · rintro ⟨hperm, horder⟩
    -- all infos stand in the order, so none of them is stuck and none is left
    have hnone : (place h infos.length infos).2 = [] := by
      refine List.eq_nil_iff_forall_not_mem.2 fun a ha => ?_
      have hmem : a ∈ infos := List.mem_of_mem_filter (hleft ▸ ha)
      exact horder.not_stuck a (hperm.mem_iff.2 hmem) ((hstuck a hmem).1 ha)
    have hlength := ((hplaced hnone).trans hperm.symm).length_eq
    exact ⟨hnone, eq_of_greedy [] hlength hgreedy horder⟩

/-- Two infos that wait for each other, one before them that waits for the first of the two, and one
that is ready. -/
def entangled : List ClassInfo :=
  [{ kind := .integer, code := "a", name := "a", after := ["b", "ghost"] },
    { kind := .double, code := "b", name := "b", after := ["c"] },
    { kind := .string, code := "c", name := "c", after := ["b"] },
    { kind := .number, code := "d", name := "d" }]

theorem sort_entangled :
    sort {} entangled = .error (.circularOrder [("a", ["b"]), ("b", ["c"]), ("c", ["b"])]) := by
  cbv

end ScriptStore.Types.ClassOrder
