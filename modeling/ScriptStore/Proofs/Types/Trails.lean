import ScriptStore.Proofs.Types.Hierarchy
import ScriptStore.Proofs.Types.Lookup

/-!
# Converters in a row

A trail is a row of converters, each from the target of the one before it, through kinds of which no
two are related. Which chains come about first, and of which two parts each is made, depends on the
order in which the converters are registered. The graph does not, but for the order and the numbers of
its edges: it has one edge from every stop to every later one, and that edge does what the converters
between the two stops do (`Graph.build_trail`).

Every edge leads from a stop to a later one (`Trail.Link`), because edges only fit each other at a
stop, so that what is chained is two stretches of the trail of which the second begins where the
first ends. The opposite order of two such stretches does not fit, so every two of them that meet are
chained (`Trail.exists_link`).
-/

namespace ScriptStore.Types

open Converter

/-- Where no two edges have the same ends, chaining adds none that has. -/
theorem Converter.Grows.nodup_ends {h : Hierarchy} {edges now : List Converter}
    (hnow : Grows h edges now) (hedges : (edges.map fun e => (e.source, e.target)).Nodup) :
    (now.map fun e => (e.source, e.target)).Nodup := by
  induction hnow with
  | refl => exact hedges
  | @add now a b sequence _ _ _ hab ih =>
    rw [List.map_append, List.map_singleton]
    refine List.nodup_append.2 ⟨ih, List.nodup_singleton _, ?_⟩
    rintro ends hmem _ hnew rfl
    -- an older edge between these ends would have made the chain needless
    obtain ⟨e, he, hends⟩ := List.mem_map.1 hmem
    obtain ⟨hsource, htarget⟩ := Prod.mk.inj (hends.trans (List.mem_singleton.1 hnew))
    refine unlike_of_chainable hab he sequence ⟨?_, ?_⟩
    · exact hsource ▸ h.related_self e.source
    · exact htarget ▸ h.related_self e.target

/-- Converters in a row that may all be chained, through kinds of which no two are related. -/
structure Trail (h : Hierarchy) where
  length : Nat
  /-- The kinds, of which there is one more than there are converters. -/
  stop : Nat → Kind
  /-- The converter from each stop to the next. -/
  leg : Nat → Converter
  apart : ∀ {i j}, i < j → j ≤ length → h.related (stop i) (stop j) = false
  source : ∀ {i}, i < length → (leg i).source = stop i
  target : ∀ {i}, i < length → (leg i).target = stop (i + 1)
  right : ∀ {i}, i < length → (leg i).restrictions.noRightChaining = false
  left : ∀ {i}, i < length → (leg i).restrictions.noLeftChaining = false

namespace Trail

variable {h : Hierarchy} {t : Trail h} {edges now registered : List Converter}
  {a b e : Converter} {i j k m : Nat}

/-- The converters from the first stop to the last. -/
def legs (t : Trail h) : List Converter := (List.range t.length).map t.leg

/-- Takes a value from one stop to another, through all the converters between them; it is lost as
soon as one of them fails. -/
def travel (t : Trail h) (i j : Nat) (v : Value) : Option Value :=
  (List.range' i (j - i)).foldlM (fun v k => (t.leg k).convert v) v

/-! ## Stretches of a trail -/

theorem eq_of_related (hi : i ≤ t.length) (hj : j ≤ t.length)
    (hrelated : h.related (t.stop i) (t.stop j) = true) : i = j := by
  rcases Nat.lt_trichotomy i j with hlt | heq | hgt
  · rw [t.apart hlt hj] at hrelated
    cases hrelated
  · exact heq
  · rw [h.related_comm, t.apart hgt hi] at hrelated
    cases hrelated

theorem stop_inj (hi : i ≤ t.length) (hj : j ≤ t.length) (heq : t.stop i = t.stop j) : i = j :=
  eq_of_related hi hj (heq ▸ h.related_self (t.stop i))

theorem travel_succ (t : Trail h) (i : Nat) (v : Value) :
    t.travel i (i + 1) v = (t.leg i).convert v := by
  rw [travel, Nat.add_sub_cancel_left]
  exact bind_pure ((t.leg i).convert v)

theorem travel_travel (t : Trail h) (hij : i ≤ j) (hjk : j ≤ k) (v : Value) :
    (t.travel i j v).bind (t.travel j k) = t.travel i k v := by
  have hsplit : List.range' i (k - i) = List.range' i (j - i) ++ List.range' j (k - j) := by
    have hsize : k - i = (j - i) + (k - j) := by omega
    rw [hsize, ← List.range'_append_1, Nat.add_sub_cancel' hij]
  rw [travel, travel, hsplit, List.foldlM_append]
  rfl

/-- `e` leads from stop `i` to stop `j`, and does what the converters between them do. -/
structure Link (t : Trail h) (i j : Nat) (e : Converter) : Prop where
  lt : i < j
  le : j ≤ t.length
  source : e.source = t.stop i
  target : e.target = t.stop j
  right : e.restrictions.noRightChaining = false
  left : e.restrictions.noLeftChaining = false
  convert : ∀ v, e.convert v = t.travel i j v

namespace Link

theorem leg (hi : i < t.length) (n : Nat) : t.Link i (i + 1) { t.leg i with sequence := n } where
  lt := Nat.lt_succ_self i
  le := hi
  source := t.source hi
  target := t.target hi
  right := t.right hi
  left := t.left hi
  convert := fun v => (t.travel_succ i v).symm

/-- What fits behind a link starts where that one ends. -/
theorem eq_of_fits (ha : t.Link i j a) (hb : t.Link k m b)
    (hfits : h.assignable b.source a.target = true) : k = j := by
  rw [hb.source, ha.target] at hfits
  exact eq_of_related (hb.lt.le.trans hb.le) ha.le (Hierarchy.related_of_assignable hfits)

theorem andThen (ha : t.Link i j a) (hb : t.Link j k b) (sequence : Nat) :
    t.Link i k (a.andThen b sequence) where
  lt := ha.lt.trans hb.lt
  le := hb.le
  source := ha.source
  target := hb.target
  right := Bool.or_eq_false_iff.2 ⟨ha.right, hb.right⟩
  left := Bool.or_eq_false_iff.2 ⟨ha.left, hb.left⟩
  convert := by
    intro v
    change (a.convert v).bind b.convert = _
    rw [ha.convert v, funext hb.convert]
    exact t.travel_travel ha.lt.le hb.lt.le v

theorem composable (ha : t.Link i j a) (hb : t.Link j k b) : Composable h a b where
  right := ha.right
  left := hb.left
  fits := by
    rw [hb.source, ha.target]
    exact h.assignable_self (t.stop j)
  ends_ne := by
    rw [ha.source, hb.target]
    intro heq
    have hik := stop_inj (ha.lt.le.trans ha.le) hb.le heq
    have := ha.lt.trans hb.lt
    omega

/-- Only one order of two links fits. -/
theorem not_composable (ha : t.Link i j a) (hb : t.Link j k b) : ¬ Composable h b a := by
  intro hba
  have hik := hb.eq_of_fits ha hba.fits
  have := ha.lt.trans hb.lt
  omega

end Link

/-! ## All edges are links, and all links are there -/

/-- All edges lead from some stop to a later one. -/
def Linked (t : Trail h) (edges : List Converter) : Prop := ∀ e ∈ edges, ∃ i j, t.Link i j e

theorem linked_of_grows (hnow : Grows h edges now) (hedges : t.Linked edges) : t.Linked now := by
  refine hnow.forall hedges ?_
  rintro now a b - hab ⟨i, j, ha⟩ ⟨k, m, hb⟩ sequence
  -- the second link starts where the first ends
  obtain rfl := ha.eq_of_fits hb (chainable_iff.1 hab).1.fits
  exact ⟨i, m, ha.andThen hb sequence⟩

/-- An edge between relatives of two stops is the link between these two. -/
theorem exists_link_of_covers (hedges : t.Linked edges) (hi : i ≤ t.length) (hj : j ≤ t.length)
    (hcovers : covers h edges (t.stop i) (t.stop j) = true) : ∃ e ∈ edges, t.Link i j e := by
  obtain ⟨e, he, hsource, htarget⟩ := covers_iff.1 hcovers
  obtain ⟨k, m, hlink⟩ := hedges e he
  rw [hlink.source] at hsource
  rw [hlink.target] at htarget
  obtain rfl := eq_of_related (hlink.lt.le.trans hlink.le) hi hsource
  obtain rfl := eq_of_related hlink.le hj htarget
  exact ⟨e, he, hlink⟩

/-- Chaining goes on until there is a link from every stop to every later one. -/
theorem exists_link (hedges : t.Linked edges)
    (hlegs : ∀ i < t.length, ∃ e ∈ edges, t.Link i (i + 1) e) (hij : i < j) (hj : j ≤ t.length) :
    ∃ e ∈ close h edges, t.Link i j e := by
  have hlinked : t.Linked (close h edges) := linked_of_grows (grows_close h edges) hedges
  have hleg : ∀ i < t.length, ∃ e ∈ close h edges, t.Link i (i + 1) e := by
    intro i hi
    obtain ⟨e, he, hlink⟩ := hlegs i hi
    exact ⟨e, (grows_close h edges).isPrefix.subset he, hlink⟩
  -- by induction on the later stop: a link that ends there meets the next converter of the trail
  induction j, hij using Nat.le_induction with
  | base => exact hleg i hj
  | succ j _ ih =>
    obtain ⟨a, ha, halink⟩ := ih (Nat.le_of_succ_le hj)
    obtain ⟨b, hb, hblink⟩ := hleg j hj
    rcases settled_close ha hb (halink.composable hblink) with hcovered | ⟨hba, -⟩
    · rw [Covered, halink.source, hblink.target] at hcovered
      exact exists_link_of_covers hlinked (halink.lt.le.trans halink.le) hj hcovered
    · exact absurd hba (halink.not_composable hblink)

/-! ## The registered converters -/

theorem linked_start (hregistered : registered.Perm t.legs) : t.Linked (Graph.start h registered) := by
  intro e he
  obtain ⟨⟨r, n⟩, hr, rfl⟩ := List.mem_map.1 ((Graph.start_perm h registered).mem_iff.1 he)
  have hleg : r ∈ t.legs := hregistered.mem_iff.1 (List.fst_mem_of_mem_zipIdx hr)
  obtain ⟨i, hi, rfl⟩ := List.mem_map.1 hleg
  exact ⟨i, i + 1, .leg (List.mem_range.1 hi) n⟩

theorem exists_leg_start (hregistered : registered.Perm t.legs) (hi : i < t.length) :
    ∃ e ∈ Graph.start h registered, t.Link i (i + 1) e := by
  have hleg : t.leg i ∈ registered :=
    hregistered.mem_iff.2 (List.mem_map_of_mem (List.mem_range.2 hi))
  obtain ⟨n, hn⟩ := Graph.exists_mem_start (h := h) hleg
  exact ⟨_, hn, .leg hi n⟩

/-- No two converters of a trail start at the same stop. -/
theorem nodup_ends_start (hregistered : registered.Perm t.legs) :
    ((Graph.start h registered).map fun e => (e.source, e.target)).Nodup := by
  have hperm := (Graph.map_start_perm (fun e => (e.source, e.target)) (fun _ _ => rfl) h
    registered).trans (hregistered.map _)
  refine hperm.nodup_iff.2 ?_
  rw [legs, List.map_map]
  refine List.Nodup.map_on ?_ List.nodup_range
  intro i hi j hj heq
  rw [List.mem_range] at hi hj
  have hsource : (t.leg i).source = (t.leg j).source := congrArg Prod.fst heq
  rw [t.source hi, t.source hj] at hsource
  exact stop_inj hi.le hj.le hsource

end Trail

namespace Graph

variable {h : Hierarchy} {registered : List Converter}

/-- **The graph of a trail does not depend on the order of registration.** It has exactly one edge from
every stop to every later stop and no others, and each edge takes a value through the converters of
the trail between its ends, one after the other. -/
theorem build_trail (t : Trail h) (hregistered : registered.Perm t.legs) :
    (∀ i j, i < j → j ≤ t.length →
      ((build h registered).edges.map fun e => (e.source, e.target)).count (t.stop i, t.stop j) = 1) ∧
    ∀ e ∈ (build h registered).edges, ∃ i j, i < j ∧ j ≤ t.length ∧
      e.source = t.stop i ∧ e.target = t.stop j ∧
      ∀ v, e.convert v = (List.range' i (j - i)).foldlM (fun v k => (t.leg k).convert v) v := by
  have hstart := Trail.linked_start hregistered
  have hgrows := grows_build h registered
  constructor
  · intro i j hij hj
    have hlegs := fun i (hi : i < t.length) => Trail.exists_leg_start hregistered hi
    obtain ⟨e, he, hlink⟩ := Trail.exists_link hstart hlegs hij hj
    have hnodup := hgrows.nodup_ends (Trail.nodup_ends_start hregistered)
    refine List.count_eq_one_of_mem hnodup (List.mem_map.2 ⟨e, he, ?_⟩)
    rw [hlink.source, hlink.target]
  · intro e he
    obtain ⟨i, j, hlink⟩ := Trail.linked_of_grows hgrows hstart e he
    exact ⟨i, j, hlink.lt, hlink.le, hlink.source, hlink.target, hlink.convert⟩

/-- From integers to their texts, from texts to truth values, and on to a host kind. The second converter
fails on anything but texts, and is not for commands. -/
def relay : Trail ⟨[(.string, .host "name")]⟩ where
  length := 3
  stop i := [.integer, .string, .boolean, .host "answer"].getD i .object
  leg i :=
    [single .integer .string {} fun v => some (.string v.describe),
      single .string .boolean ⟨false, false, true⟩ fun v =>
        if v.kind = .string then some (.boolean true) else none,
      single .boolean (.host "answer") {} some].getD i (single .object .object {} some)
  apart := by
    have hall : ∀ j ≤ 3, ∀ i < j, Hierarchy.related ⟨[(.string, .host "name")]⟩
      ([Kind.integer, .string, .boolean, .host "answer"].getD i .object)
      ([Kind.integer, .string, .boolean, .host "answer"].getD j .object) = false := by decide
    intro i j hij hj
    exact hall j hj i hij
  source := by decide
  target := by decide
  right := by decide
  left := by decide

theorem build_trail_backwards :
    let registered := [relay.leg 2, relay.leg 1, relay.leg 0]
    let edges := (build ⟨[(.string, .host "name")]⟩ registered).edges
    registered.Perm relay.legs ∧
    ((edges.map fun e => (e.source, e.target)).count (Kind.integer, Kind.host "answer") = 1) ∧
    ∀ e ∈ edges, ∃ i j, i < j ∧ j ≤ 3 ∧ e.source = relay.stop i ∧ e.target = relay.stop j ∧
      ∀ v, e.convert v = (List.range' i (j - i)).foldlM (fun v k => (relay.leg k).convert v) v := by
  intro registered edges
  have hperm : registered.Perm relay.legs := List.reverse_perm [relay.leg 0, relay.leg 1, relay.leg 2]
  have hrow := build_trail relay hperm
  exact ⟨hperm, hrow.1 0 3 (by decide) (Nat.le_refl 3), hrow.2⟩

end Graph

end ScriptStore.Types
