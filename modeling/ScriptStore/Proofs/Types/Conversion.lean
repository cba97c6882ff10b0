import Mathlib.Data.List.Forall2
import ScriptStore.Proofs.Types.Built
import ScriptStore.Proofs.Types.Chaining
import ScriptStore.Proofs.Types.Hierarchy
import ScriptStore.Types.Numbered
import ScriptStore.Types.Parsing

/-!
# Conversions keep to the kinds of converters

A converter is honest if it makes values of its target out of values of its source. What it does with
other values is left open, because it is never given any. If all registered converters are honest,
so are the chains made of them, and each link of a chain is given a value of its source by the link
before it (`Converter.Runs`).

A lookup puts checks only at those ends of an edge that are too wide. Where it leaves a check out, the
check would succeed. So converting a value comes to this: an edge is chosen by the kinds alone, it is
run if the value is an instance of its source, and the result is kept if it is an instance of the
target (`Graph.convert_eq`). Parsing runs the edges as they are, but only on values that it has found
to be instances of their sources.

That nothing else is ever given to a converter is said by exchanging it for another one, which does
the same with the values of its source and anything with others (`Converter.Alike`). The graph is
then the same edge by edge, and so is every conversion.
-/

namespace ScriptStore.Types

namespace Converter

variable {h : Hierarchy} {edges now registered others : List Converter} {a b c e a' b' c' : Converter}

/-! ## Honest converters and what they run -/

/-- Values of the source become values of the target, if they become anything. -/
def Honest (h : Hierarchy) (c : Converter) : Prop :=
  ∀ v w, h.isInstance c.source v = true → c.convert v = some w → h.isInstance c.target w = true

/-- When converters are run one after the other, each is given a value of its source. -/
def Fed (h : Hierarchy) : List Converter → Value → Prop
  | [], _ => True
  | r :: rs, v => h.isInstance r.source v = true ∧ ∀ w, r.convert v = some w → Fed h rs w

theorem fed_append {rs ss : List Converter} {v : Value} (hrs : Fed h rs v)
    (hss : ∀ w, rs.foldlM (fun v r => r.convert v) v = some w → Fed h ss w) : Fed h (rs ++ ss) v := by
  induction rs generalizing v with
  | nil => exact hss v rfl
  | cons r rs ih =>
    refine ⟨hrs.1, fun w hw => ih (hrs.2 w hw) fun x hx => hss x ?_⟩
    rw [List.foldlM_cons, hw]
    exact hx

/-- A converter does what `rs` do one after the other, and feeds them with what they are made for. -/
structure Runs (h : Hierarchy) (rs : List Converter) (e : Converter) : Prop where
  convert : ∀ v, e.convert v = rs.foldlM (fun v r => r.convert v) v
  fed : ∀ v, h.isInstance e.source v = true → Fed h rs v

/-- What an edge of a graph has to be: honest, and made of registered converters. -/
structure Sound (h : Hierarchy) (registered : List Converter) (e : Converter) : Prop where
  honest : e.Honest h
  runs : ∃ rs, rs ⊆ registered ∧ e.Runs h rs

theorem Sound.of_registered (hc : c ∈ registered) (hhonest : c.Honest h) (sequence : Nat) :
    Sound h registered { c with sequence } where
  honest := hhonest
  runs := ⟨[c], List.cons_subset.2 ⟨hc, List.nil_subset _⟩,
    fun v => (bind_pure (c.convert v)).symm, fun _ hv => ⟨hv, fun _ _ => trivial⟩⟩

section

variable (hh : h.Declared)

include hh

theorem isInstance_mono {sup sub : Kind} {v : Value} (hsub : h.assignable sup sub = true)
    (hv : h.isInstance sub v = true) : h.isInstance sup v = true :=
  hh.assignable_trans hsub hv

/-- What the first link of a chain gives is made for the second. -/
theorem Honest.feeds (ha : a.Honest h) (hab : Composable h a b) {v w : Value}
    (hv : h.isInstance a.source v = true) (hw : a.convert v = some w) :
    h.isInstance b.source w = true :=
  isInstance_mono hh hab.fits (ha v w hv hw)

theorem Honest.andThen (ha : a.Honest h) (hb : b.Honest h) (hab : Composable h a b) (sequence : Nat) :
    (a.andThen b sequence).Honest h := by
  intro v x hv hx
  obtain ⟨w, hw, hx⟩ := Option.bind_eq_some_iff.1 hx
  exact hb w x (ha.feeds hh hab hv hw) hx

theorem Sound.andThen (ha : Sound h registered a) (hb : Sound h registered b)
    (hab : Composable h a b) (sequence : Nat) : Sound h registered (a.andThen b sequence) := by
  obtain ⟨rs, hrs, harun⟩ := ha.runs
  obtain ⟨ss, hss, hbrun⟩ := hb.runs
  refine ⟨ha.honest.andThen hh hb.honest hab sequence, rs ++ ss, List.append_subset.2 ⟨hrs, hss⟩,
    fun v => ?_, fun v hv => ?_⟩
  · rw [List.foldlM_append, ← harun.convert v]
    change (a.convert v).bind b.convert = _
    congr
    exact funext hbrun.convert
  · refine fed_append (harun.fed v hv) fun w hw => hbrun.fed w ?_
    exact ha.honest.feeds hh hab hv ((harun.convert v).trans hw)

end

/-! ## Exchanging converters -/

/-- `b` differs from `a` in nothing but what it does with values that are not of its source. -/
structure Agrees (h : Hierarchy) (a b : Converter) : Prop where
  eq : b = { a with convert := b.convert }
  convert : ∀ v, h.isInstance a.source v = true → b.convert v = a.convert v

/-- The same of honest converters. -/
structure Alike (h : Hierarchy) (a b : Converter) : Prop extends Agrees h a b where
  honest : a.Honest h

namespace Alike

theorem of_agrees (hagrees : List.Forall₂ (Agrees h) registered others)
    (hhonest : ∀ c ∈ registered, c.Honest h) : List.Forall₂ (Alike h) registered others := by
  induction hagrees with
  | nil => exact .nil
  | cons hc _ ih =>
    obtain ⟨hfirst, hrest⟩ := List.forall_mem_cons.1 hhonest
    exact .cons ⟨hc, hfirst⟩ (ih hrest)

theorem source (hab : Alike h a b) : b.source = a.source := congrArg (·.source) hab.eq

theorem target (hab : Alike h a b) : b.target = a.target := congrArg (·.target) hab.eq

theorem restrictions (hab : Alike h a b) : b.restrictions = a.restrictions :=
  congrArg (·.restrictions) hab.eq

theorem sequence (hab : Alike h a b) : b.sequence = a.sequence := congrArg (·.sequence) hab.eq

theorem honest_right (hab : Alike h a b) : b.Honest h := by
  intro v w hv hw
  rw [hab.source] at hv
  rw [hab.convert v hv] at hw
  rw [hab.target]
  exact hab.honest v w hv hw

theorem numbered (hab : Alike h a b) (sequence : Nat) :
    Alike h { a with sequence } { b with sequence } where
  eq := by rw [hab.eq]
  convert := hab.convert
  honest := hab.honest

theorem narrows_eq (ha : Alike h a a') (hb : Alike h b b') :
    a'.narrows h b' = a.narrows h b := by
  simp only [narrows, ha.source, ha.target, hb.source, hb.target]

theorem insert (hc : Alike h c c') (hedges : List.Forall₂ (Alike h) edges now) :
    List.Forall₂ (Alike h) (insert h c edges) (Converter.insert h c' now) := by
  induction hedges with
  | nil => exact .cons hc .nil
  | @cons e e' rest rest' he hrest ih =>
    rw [Converter.insert, Converter.insert, hc.narrows_eq he]
    split
    · exact .cons hc (.cons he hrest)
    · exact .cons he ih

theorem getElem? (hedges : List.Forall₂ (Alike h) edges now) (i : Nat) :
    Option.Rel (Alike h) edges[i]? now[i]? := by
  induction hedges generalizing i with
  | nil => exact .none
  | cons he _ ih =>
    cases i with
    | zero => exact .some he
    | succ i => exact ih i

/-- A search that looks at nothing but the ends finds corresponding converters. -/
theorem find? {p q : Converter → Bool} (hpq : ∀ {a b}, Alike h a b → q b = p a)
    (hedges : List.Forall₂ (Alike h) edges now) :
    Option.Rel (Alike h) (edges.find? p) (now.find? q) := by
  induction hedges with
  | nil => exact .none
  | cons he _ ih =>
    rw [List.find?_cons, List.find?_cons, hpq he]
    split
    · exact .some he
    · exact ih

theorem covers_eq (hedges : List.Forall₂ (Alike h) edges now) (source target : Kind) :
    covers h now source target = covers h edges source target := by
  induction hedges with
  | nil => rfl
  | cons he _ ih =>
    rw [covers, List.any_cons, he.source, he.target]
    exact congrArg (_ || ·) ih

theorem chainable_eq (hedges : List.Forall₂ (Alike h) edges now) (ha : Alike h a a')
    (hb : Alike h b b') : chainable h now a' b' = chainable h edges a b := by
  simp only [chainable, covers_eq hedges, ha.restrictions, hb.restrictions, ha.source, hb.source,
    ha.target, hb.target]

theorem nextSequence_eq (hedges : List.Forall₂ (Alike h) edges now) :
    nextSequence now = nextSequence edges := by
  have hfrom : ∀ n, now.foldl (fun n e => max n (e.sequence + 1)) n
      = edges.foldl (fun n e => max n (e.sequence + 1)) n := by
    induction hedges with
    | nil => exact fun n => rfl
    | cons he _ ih =>
      intro n
      rw [List.foldl_cons, List.foldl_cons, he.sequence, ih]
  exact hfrom 0

variable (hh : h.Declared)

include hh

theorem andThen (ha : Alike h a a') (hb : Alike h b b') (hab : Composable h a b) (sequence : Nat) :
    Alike h (a.andThen b sequence) (a'.andThen b' sequence) where
  eq := by rw [Converter.andThen, Converter.andThen, ha.eq, hb.eq]
  convert := by
    intro v hv
    change (a'.convert v).bind b'.convert = (a.convert v).bind b.convert
    rw [ha.convert v hv]
    cases hw : a.convert v with
    | none => rfl
    | some w => exact hb.convert w (ha.honest.feeds hh hab hv hw)
  honest := ha.honest.andThen hh hb.honest hab sequence

theorem missing? (hedges : List.Forall₂ (Alike h) edges now) (sequence i j : Nat) :
    Option.Rel (Alike h) (missing? h edges sequence i j) (Converter.missing? h now sequence i j) := by
  unfold Converter.missing?
  have hi := getElem? hedges i
  have hj := getElem? hedges j
  generalize edges[i]? = x, now[i]? = x' at hi ⊢
  generalize edges[j]? = y, now[j]? = y' at hj ⊢
  cases hi with
  | none => exact .none
  | @some a a' ha =>
    cases hj with
    | none => exact .none
    | @some b b' hb =>
      dsimp only
      rw [chainable_eq hedges ha hb, chainable_eq hedges hb ha]
      split
      · next hab => exact .some (ha.andThen hh hb (chainable_iff.1 hab).1 sequence)
      · split
        · next hba => exact .some (hb.andThen hh ha (chainable_iff.1 hba).1 sequence)
        · exact .none

theorem complete (hedges : List.Forall₂ (Alike h) edges now) (i j : Nat) :
    List.Forall₂ (Alike h) (complete h edges i j) (Converter.complete h now i j) := by
  have hmissing := missing? hh hedges (nextSequence edges) i j
  unfold Converter.complete
  rw [nextSequence_eq hedges]
  generalize Converter.missing? h edges (nextSequence edges) i j = x at hmissing ⊢
  generalize Converter.missing? h now (nextSequence edges) i j = y at hmissing ⊢
  cases hmissing with
  | none => exact hedges
  | some hc => exact List.rel_append hedges (.cons hc .nil)

theorem completeRow (hedges : List.Forall₂ (Alike h) edges now) (i fuel j : Nat) :
    List.Forall₂ (Alike h) (completeRow h i fuel j edges) (Converter.completeRow h i fuel j now) := by
  induction fuel generalizing j edges now with
  | zero => exact hedges
  | succ fuel ih =>
    rw [Converter.completeRow, Converter.completeRow, hedges.length_eq]
    split
    · exact ih (complete hh hedges i j) (j + 1)
    · exact hedges

theorem completeRows (hedges : List.Forall₂ (Alike h) edges now) (limit fuel i : Nat) :
    List.Forall₂ (Alike h) (completeRows h limit fuel i edges)
      (Converter.completeRows h limit fuel i now) := by
  induction fuel generalizing i edges now with
  | zero => exact hedges
  | succ fuel ih =>
    rw [Converter.completeRows, Converter.completeRows, hedges.length_eq]
    split
    · exact ih (completeRow hh hedges i limit 0) (i + 1)
    · exact hedges

theorem close (hedges : List.Forall₂ (Alike h) edges now) :
    List.Forall₂ (Alike h) (close h edges) (Converter.close h now) := by
  unfold Converter.close
  rw [hedges.length_eq]
  exact completeRows hh hedges _ _ 0

/-- **Where registered converters are exchanged, the graph is the same edge by edge.** -/
theorem build (hregistered : List.Forall₂ (Alike h) registered others) :
    List.Forall₂ (Alike h) (Graph.build h registered).edges (Graph.build h others).edges := by
  have hinserted : ∀ {n : Nat} {edges now : List Converter}, List.Forall₂ (Alike h) edges now →
      List.Forall₂ (Alike h)
        (((registered.zipIdx n).map fun e => { e.1 with sequence := e.2 }).foldl
          (fun edges c => Converter.insert h c edges) edges)
        (((others.zipIdx n).map fun e => { e.1 with sequence := e.2 }).foldl
          (fun edges c => Converter.insert h c edges) now) := by
    induction hregistered with
    | nil => exact id
    | cons hc _ ih =>
      intro n edges now hedges
      rw [List.zipIdx_cons, List.zipIdx_cons, List.map_cons, List.map_cons, List.foldl_cons,
        List.foldl_cons]
      exact ih ((hc.numbered n).insert hedges)
  exact close hh (hinserted .nil)

end Alike

end Converter

/-! ## Conversions -/

namespace Graph

open Converter

variable {g g' : Graph} {h : Hierarchy} {registered : List Converter} {v w : Value} {target : Kind}

/-- All edges of a graph are honest and made of registered converters, if those are honest. -/
theorem sound_of_mem_build (hh : h.Declared) (hhonest : ∀ c ∈ registered, c.Honest h) {e : Converter}
    (he : e ∈ (build h registered).edges) : e.Sound h registered := by
  refine (grows_close h _).forall ?_ ?_ e he
  · intro e he
    rcases mem_foldl_insert.1 he with he | he
    · obtain ⟨⟨c, i⟩, hc, rfl⟩ := List.mem_map.1 he
      have hmem : c ∈ registered := List.fst_mem_of_mem_zipIdx hc
      exact .of_registered hmem (hhonest c hmem) i
    · exact absurd he List.not_mem_nil
  · intro now a b _ hab ha hb sequence
    exact ha.andThen hh hb (chainable_iff.1 hab).1 sequence

/-- Whether an edge is too wide at one end only. -/
def isWideAtOneEnd (g : Graph) (source target : Kind) (e : Converter) : Bool :=
  let h := g.hierarchy
  h.assignable e.source source && h.assignable e.target target ||
    h.assignable source e.source && h.assignable target e.target

/-- Whether an edge is too wide at both ends, if it is at one. -/
def isWide (g : Graph) (source target : Kind) (e : Converter) : Bool :=
  g.hierarchy.assignable source e.source && g.hierarchy.assignable e.target target

/-- The edge that is looked up, without its checks. -/
def chosen? (g : Graph) (source target : Kind) : Option Converter :=
  (g.fitting? source target).or
    ((g.edges.find? (g.isWideAtOneEnd source target)).or (g.edges.find? (g.isWide source target)))

theorem mem_of_chosen? {source : Kind} {e : Converter} (he : g.chosen? source target = some e) :
    e ∈ g.edges := by
  rw [chosen?, Option.or_eq_some_iff, Option.or_eq_some_iff] at he
  rcases he with he | ⟨-, he | ⟨-, he⟩⟩ <;> exact List.mem_of_find?_eq_some he

theorem findSome?_wideAtOneEnd? (g : Graph) (source target : Kind) (edges : List Converter) :
    edges.findSome? (g.wideAtOneEnd? source target)
      = (edges.find? (g.isWideAtOneEnd source target)).bind (g.wideAtOneEnd? source target) := by
  induction edges with
  | nil => rfl
  | cons e rest ih =>
    have hsome : (g.wideAtOneEnd? source target e).isSome = g.isWideAtOneEnd source target e := by
      unfold wideAtOneEnd? isWideAtOneEnd
      dsimp only
      split
      · next hboth => rw [hboth]; rfl
      · next hboth =>
          rw [Bool.eq_false_iff.2 hboth, Bool.false_or]
          split
          · next hboth' => rw [hboth']; rfl
          · next hboth' => rw [Bool.eq_false_iff.2 hboth']; rfl
    rw [List.findSome?_cons, List.find?_cons, ← hsome]
    cases hwide : g.wideAtOneEnd? source target e with
    | none => exact ih
    | some f => exact hwide.symm

/-- What an edge gives for a value of its source, if that is an instance of what is wanted. -/
def guarded (g : Graph) (target : Kind) (v : Value) (e : Converter) : Option Value :=
  if g.hierarchy.isInstance e.source v then (e.convert v).filter (g.hierarchy.isInstance target)
  else none

theorem checked_eq (g : Graph) (e : Converter) (input output : Option Kind) (v : Value) :
    g.checked e input output v =
      if input.all (g.hierarchy.isInstance · v) then
        (e.convert v).filter fun w => output.all (g.hierarchy.isInstance · w)
      else none := by
  unfold checked
  cases input with
  | none => cases e.convert v <;> cases output <;> rfl
  | some k =>
    cases hk : g.hierarchy.isInstance k v with
    | false => simp [hk]
    | true => cases e.convert v <;> cases output <;> simp [hk, Option.filter_some]

variable {e : Converter}

/-- An edge that takes the value needs no check at its source. -/
theorem checked_none_left (hv : g.hierarchy.isInstance e.source v = true) :
    g.checked e none (some target) v = g.guarded target v e := by
  rw [checked_eq, guarded, if_pos hv]
  rfl

section

variable (hh : g.hierarchy.Declared)

include hh

/-- An honest edge gives nothing but instances of whatever its target is a subtype of. -/
theorem filter_convert (he : e.Honest g.hierarchy) (hv : g.hierarchy.isInstance e.source v = true)
    (htarget : g.hierarchy.assignable target e.target = true) :
    (e.convert v).filter (g.hierarchy.isInstance target) = e.convert v := by
  cases hw : e.convert v with
  | none => rfl
  | some w =>
    have hpasses : g.hierarchy.isInstance target w = true :=
      isInstance_mono hh htarget (he v w hv hw)
    rw [Option.filter_some, if_pos hpasses]

/-- An honest edge to a subtype of what is wanted needs no check at its target. -/
theorem checked_none_right (he : e.Honest g.hierarchy)
    (htarget : g.hierarchy.assignable target e.target = true) :
    g.checked e (some e.source) none v = g.guarded target v e := by
  rw [checked_eq, guarded, Option.all_some]
  split
  · next hv =>
      rw [filter_convert hh he hv htarget]
      cases e.convert v <;> rfl
  · rfl

/-- An edge that is too wide at one end is checked there. -/
theorem exists_wideAtOneEnd? (he : e.Honest g.hierarchy)
    (hwide : g.isWideAtOneEnd v.kind target e = true) :
    ∃ f, g.wideAtOneEnd? v.kind target e = some f ∧ f v = g.guarded target v e := by
  rw [isWideAtOneEnd, Bool.or_eq_true, Bool.and_eq_true, Bool.and_eq_true] at hwide
  unfold wideAtOneEnd?
  dsimp only
  split
  · next hsource =>
      rw [Bool.and_eq_true] at hsource
      exact ⟨_, rfl, checked_none_left hsource.1⟩
  · next hsource =>
      obtain ⟨hbelow, htarget⟩ := hwide.resolve_left fun hboth => hsource (Bool.and_eq_true _ _ ▸ hboth)
      rw [hbelow, htarget]
      exact ⟨_, rfl, checked_none_right hh he htarget⟩

/-- **A conversion runs an edge on nothing but values of its source, and gives nothing but instances
of its target.** The checks that are left out would succeed. -/
theorem convert_eq (hedges : ∀ e ∈ g.edges, e.Honest g.hierarchy)
    (hv : g.hierarchy.isInstance target v = false) :
    g.convert v target = (g.chosen? v.kind target).bind (g.guarded target v) := by
  rw [convert, hv, if_neg Bool.false_ne_true, converter?, chosen?]
  cases hfits : g.fitting? v.kind target with
  | some e =>
    have he := List.mem_of_find?_eq_some hfits
    have hends := List.find?_some hfits
    rw [fits, Bool.and_eq_true] at hends
    have hsource : g.hierarchy.isInstance e.source v = true := hends.1
    change e.convert v = g.guarded target v e
    rw [guarded, if_pos hsource, filter_convert hh (hedges e he) hsource hends.2]
  | none =>
    rw [Option.none_or, findSome?_wideAtOneEnd?]
    cases hone : g.edges.find? (g.isWideAtOneEnd v.kind target) with
    | some e =>
      obtain ⟨f, hf, hfv⟩ := exists_wideAtOneEnd? hh (hedges e (List.mem_of_find?_eq_some hone))
        (List.find?_some hone)
      rw [Option.some_or, Option.bind_some, Option.bind_some, hf, ← hfv]
      rfl
    | none =>
      rw [Option.none_or, Option.bind_none]
      change ((g.edges.find? (g.isWide v.kind target)).map _).bind _ = _
      cases g.edges.find? (g.isWide v.kind target) with
      | none => rfl
      | some e => exact checked_eq g e (some e.source) (some target) v

/-- A value is of the kind already, or an edge is run on it that takes it. -/
theorem convert_cases (hedges : ∀ e ∈ g.edges, e.Honest g.hierarchy)
    (hw : g.convert v target = some w) :
    g.hierarchy.isInstance target w = true ∧ (w = v ∨ ∃ e ∈ g.edges,
      g.hierarchy.isInstance e.source v = true ∧ e.convert v = some w) := by
  cases hv : g.hierarchy.isInstance target v with
  | true =>
    rw [convert, hv, if_pos rfl] at hw
    cases hw
    exact ⟨hv, .inl rfl⟩
  | false =>
    rw [convert_eq hh hedges hv] at hw
    obtain ⟨e, he, hw⟩ := Option.bind_eq_some_iff.1 hw
    rw [guarded] at hw
    split at hw
    · next hsource =>
        obtain ⟨hconvert, htarget⟩ := Option.filter_eq_some_iff.1 hw
        exact ⟨htarget, .inr ⟨e, mem_of_chosen? he, hsource, hconvert⟩⟩
    · cases hw

end

section

variable {edges now : List Converter}

/-- The choice of an edge looks at nothing but ends. -/
theorem chosen?_alike (hedges : List.Forall₂ (Alike h) edges now) (source target : Kind) :
    Option.Rel (Alike h) (chosen? ⟨h, edges⟩ source target) (chosen? ⟨h, now⟩ source target) := by
  have hor : ∀ {x y x' y' : Option Converter}, Option.Rel (Alike h) x x' →
      Option.Rel (Alike h) y y' → Option.Rel (Alike h) (x.or y) (x'.or y') := by
    intro x y x' y' hx hy
    cases hx with
    | none => exact hy
    | some hab => exact .some hab
  refine hor (Alike.find? ?_ hedges) (hor (Alike.find? ?_ hedges) (Alike.find? ?_ hedges))
  all_goals
    intro a b hab
    simp only [fits, isWideAtOneEnd, isWide, hab.source, hab.target]

/-- **Exchanging converters changes no conversion.** -/
theorem convert_alike (hh : h.Declared) (hedges : List.Forall₂ (Alike h) edges now) (v : Value)
    (target : Kind) : convert ⟨h, now⟩ v target = convert ⟨h, edges⟩ v target := by
  cases hv : h.isInstance target v with
  | true => rw [convert, convert, hv, if_pos rfl, if_pos rfl]
  | false =>
    have hleft : ∀ e ∈ edges, e.Honest h := by
      induction hedges with
      | nil => exact fun e he => absurd he List.not_mem_nil
      | cons he _ ih => exact List.forall_mem_cons.2 ⟨he.honest, ih⟩
    have hright : ∀ e ∈ now, e.Honest h := by
      induction hedges with
      | nil => exact fun e he => absurd he List.not_mem_nil
      | cons he _ ih => exact List.forall_mem_cons.2 ⟨he.honest_right, ih (List.forall_mem_cons.1 hleft).2⟩
    rw [@convert_eq ⟨h, now⟩ v target hh hright hv, @convert_eq ⟨h, edges⟩ v target hh hleft hv]
    have hchosen := chosen?_alike hedges v.kind target
    generalize chosen? ⟨h, edges⟩ v.kind target = x at hchosen ⊢
    generalize chosen? ⟨h, now⟩ v.kind target = y at hchosen ⊢
    cases hchosen with
    | none => rfl
    | @some a b hab =>
      rw [Option.bind_some, Option.bind_some, guarded, guarded, hab.source]
      split
      · next hsource => rw [hab.convert v hsource]
      · rfl

end

end Graph

/-! ## Parsing -/

namespace Registry

variable {r : Registry} {input : String} {target : Kind} {context : Context} {v w : Value}

theorem isInstance_of_tryInfos {infos : List ClassInfo} {attempt : ParseLog}
    (hv : (r.tryInfos input target context infos attempt).1 = some v) :
    r.hierarchy.isInstance target v = true := by
  induction infos generalizing attempt with
  | nil => cases hv
  | cons info rest ih =>
    rw [tryInfos] at hv
    split at hv
    · exact ih hv
    · split at hv
      · dsimp only at hv
        split at hv
        · split at hv
          · next hinstance =>
              cases hv
              exact hinstance
          · exact ih hv
        · exact ih hv
      · exact ih hv

theorem conclude_fst (outcome : Option Value × ParseLog) (log : ParseLog) :
    (conclude outcome log).1 = outcome.1 := by
  obtain ⟨v, attempt⟩ := outcome
  cases v <;> rfl

/-- What is parsed without converters was found to be an instance. -/
theorem isInstance_of_parseSimple {log : ParseLog}
    (hv : (r.parseSimple input target context log).1 = some v) :
    r.hierarchy.isInstance target v = true := by
  rw [parseSimple, conclude_fst] at hv
  exact isInstance_of_tryInfos hv

theorem isInstance_of_tryConverters (hh : r.hierarchy.Declared) {edges : List Converter}
    (hedges : ∀ e ∈ edges, e.Honest r.hierarchy) {attempt : ParseLog}
    (hw : (r.tryConverters input target context edges attempt).1 = some w) :
    r.hierarchy.isInstance target w = true := by
  induction edges generalizing attempt with
  | nil => cases hw
  | cons e rest ih =>
    obtain ⟨he, hrest⟩ := List.forall_mem_cons.1 hedges
    rw [tryConverters] at hw
    split at hw
    · exact ih hrest hw
    · next hleads =>
        rw [Bool.or_eq_true, not_or, Bool.not_eq_true', Bool.not_eq_false] at hleads
        cases hparse : r.parseSimple input e.source context attempt.clear with
        | mk parsed attempt' =>
          rw [hparse] at hw
          dsimp only at hw
          split at hw
          · next x hx =>
              cases hw
              obtain ⟨v, hv, hconvert⟩ := Option.bind_eq_some_iff.1 hx
              -- the edge is run on what was found to be an instance of its source
              have hsource : r.hierarchy.isInstance e.source v = true :=
                isInstance_of_parseSimple ((congrArg Prod.fst hparse).trans hv)
              exact Converter.isInstance_mono hh hleads.2 (he v w hsource hconvert)
          · exact ih hrest hw

theorem isInstance_of_parse (hh : r.hierarchy.Declared)
    (hedges : ∀ e ∈ r.graph.edges, e.Honest r.hierarchy) {log : ParseLog}
    (hw : (r.parse input target context log).1 = some w) :
    r.hierarchy.isInstance target w = true := by
  unfold parse at hw
  cases hsimple : r.parseSimple input target context {} with
  | mk parsed attempt =>
    rw [hsimple] at hw
    cases parsed with
    | some v =>
      cases hw
      exact isInstance_of_parseSimple (congrArg Prod.fst hsimple)
    | none =>
      dsimp only at hw
      rw [conclude_fst] at hw
      exact isInstance_of_tryConverters hh hedges hw

section

variable (g : Graph)

/-- Parsers are asked without a look at the graph. -/
theorem tryInfos_withGraph (infos : List ClassInfo) (attempt : ParseLog) :
    tryInfos { r with graph := g } input target context infos attempt
      = r.tryInfos input target context infos attempt := by
  induction infos generalizing attempt with
  | nil => rfl
  | cons info rest ih =>
    rw [tryInfos, tryInfos]
    simp only [ih]
    rfl

theorem parseSimple_withGraph (log : ParseLog) :
    parseSimple { r with graph := g } input target context log
      = r.parseSimple input target context log := by
  rw [parseSimple, tryInfos_withGraph]
  rfl

/-- Trying converters that were exchanged comes to the same, warnings and errors included. -/
theorem tryConverters_alike {edges now : List Converter}
    (hedges : List.Forall₂ (Converter.Alike r.hierarchy) edges now) (attempt : ParseLog) :
    tryConverters { r with graph := g } input target context now attempt
      = r.tryConverters input target context edges attempt := by
  induction hedges generalizing attempt with
  | nil => rfl
  | @cons e e' rest rest' he _ ih =>
    rw [tryConverters, tryConverters, he.restrictions, he.source, he.target, parseSimple_withGraph]
    split
    · exact ih attempt
    · cases hparse : r.parseSimple input e.source context attempt.clear with
      | mk parsed attempt' =>
        have hsame : parsed.bind e'.convert = parsed.bind e.convert := by
          cases parsed with
          | none => rfl
          | some v =>
            exact he.convert v (isInstance_of_parseSimple (congrArg Prod.fst hparse))
        dsimp only
        rw [hsame]
        split
        · rfl
        · exact ih attempt'

/-- **Exchanging converters changes nothing about parsing.** -/
theorem parse_alike
    (hedges : List.Forall₂ (Converter.Alike r.hierarchy) r.graph.edges g.edges) (log : ParseLog) :
    parse { r with graph := g } input target context log = r.parse input target context log := by
  unfold parse
  rw [parseSimple_withGraph]
  dsimp only
  split
  · rfl
  · rw [tryConverters_alike g hedges]

end

/-! ## Registries -/

section

variable {d : Draft} (hd : d.Made) (hr : r.BuiltFrom d)
  (hhonest : ∀ c ∈ d.converters, c.Honest d.hierarchy)

include hd hr hhonest

theorem sound_of_builtFrom {e : Converter} (he : e ∈ r.graph.edges) :
    e.Sound r.hierarchy d.converters := by
  obtain ⟨hhierarchy, hgraph⟩ := hr.spec
  rw [hgraph] at he
  rw [hhierarchy]
  exact Graph.sound_of_mem_build hd.declared hhonest he

/-- What is converted is a value of the target: the value itself, or what registered converters make
of it in turn. -/
theorem convert_of_builtFrom {v w : Value} {target : Kind} (hw : r.graph.convert v target = some w) :
    r.hierarchy.isInstance target w = true ∧
      (w = v ∨ ∃ cs, cs ⊆ d.converters ∧ Converter.Fed r.hierarchy cs v ∧
        cs.foldlM (fun v c => c.convert v) v = some w) := by
  have hsound : ∀ e ∈ r.graph.edges, e.Sound r.hierarchy d.converters := fun e =>
    sound_of_builtFrom hd hr hhonest
  have hh := hd.declared
  obtain ⟨hhierarchy, hgraph⟩ := hr.spec
  have hsame : r.graph.hierarchy = r.hierarchy := by rw [hgraph, hhierarchy]; rfl
  rw [← hhierarchy, ← hsame] at hh
  rw [← hsame] at hsound ⊢
  obtain ⟨hinstance, hways⟩ := Graph.convert_cases hh (fun e he => (hsound e he).honest) hw
  refine ⟨hinstance, hways.imp_right ?_⟩
  rintro ⟨e, he, hsource, hw⟩
  obtain ⟨cs, hcs, hruns⟩ := (hsound e he).runs
  exact ⟨cs, hcs, hruns.fed v hsource, (hruns.convert v).symm.trans hw⟩

/-- Converters that agree with the registered ones are chained as those are. -/
theorem alike_of_builtFrom {others : List Converter}
    (hothers : List.Forall₂ (Converter.Agrees r.hierarchy) d.converters others) :
    List.Forall₂ (Converter.Alike r.hierarchy) r.graph.edges
      (Graph.build d.hierarchy others).edges := by
  obtain ⟨hhierarchy, hgraph⟩ := hr.spec
  rw [hhierarchy] at hothers ⊢
  rw [hgraph]
  exact Converter.Alike.build hd.declared (Converter.Alike.of_agrees hothers hhonest)

theorem convert_exchanged {others : List Converter}
    (hothers : List.Forall₂ (Converter.Agrees r.hierarchy) d.converters others) :
    (Graph.build d.hierarchy others).convert = r.graph.convert := by
  have halike := alike_of_builtFrom hd hr hhonest hothers
  obtain ⟨hhierarchy, hgraph⟩ := hr.spec
  rw [hgraph, hhierarchy] at halike
  funext v target
  rw [hgraph]
  exact Graph.convert_alike hd.declared halike v target

end

/-- **Whatever is converted or parsed is of the kind that was asked for**, if the registered
converters make values of their targets out of values of their sources. Nothing is asked of parsers.
A value that is converted stays what it is, or goes through registered converters each of which is
given a value of its source. What the converters do with other values has no part in anything: others
may take their places that agree with them on the values of their sources, and every conversion and
every parse comes to the same, also where it fails. -/
theorem conversions_keep_to_kinds {d : Draft} (hd : d.Made) (hr : r.BuiltFrom d)
    (hhonest : ∀ c ∈ d.converters, c.Honest d.hierarchy) :
    (∀ v target w, r.graph.convert v target = some w → r.hierarchy.isInstance target w = true ∧
      (w = v ∨ ∃ cs, cs ⊆ d.converters ∧ Converter.Fed r.hierarchy cs v ∧
        cs.foldlM (fun v c => c.convert v) v = some w)) ∧
    (∀ v targets w, r.graph.convertToAny v targets = some w →
      ∃ target ∈ targets, r.graph.convert v target = some w ∧
        r.hierarchy.isInstance target w = true) ∧
    (∀ v target w, r.graph.convertStrictly v target = .ok w →
      r.hierarchy.isInstance target w = true) ∧
    (∀ input target context log w, (r.parse input target context log).1 = some w →
      r.hierarchy.isInstance target w = true) ∧
    ∀ others, List.Forall₂ (Converter.Agrees r.hierarchy) d.converters others →
      let g := Graph.build d.hierarchy others
      g.convert = r.graph.convert ∧ g.convertToAny = r.graph.convertToAny ∧
      g.convertStrictly = r.graph.convertStrictly ∧
      ∀ input target context log,
        parse { r with graph := g } input target context log = r.parse input target context log := by
  have hconvert : ∀ {v target w}, r.graph.convert v target = some w →
      r.hierarchy.isInstance target w = true := fun hw => (convert_of_builtFrom hd hr hhonest hw).1
  refine ⟨fun v target w hw => convert_of_builtFrom hd hr hhonest hw, fun v targets w hw => ?_,
    fun v target w hw => ?_, fun input target context log w hw => ?_, fun others hothers => ?_⟩
  · obtain ⟨target, htarget, hw⟩ := List.exists_of_findSome?_eq_some hw
    exact ⟨target, htarget, hw, hconvert hw⟩
  · unfold Graph.convertStrictly at hw
    split at hw
    · next hx =>
        cases hw
        exact hconvert hx
    · cases hw
  · have hh : r.hierarchy.Declared := hr.spec.1 ▸ hd.declared
    exact isInstance_of_parse hh (fun e he => (sound_of_builtFrom hd hr hhonest he).honest) hw
  · have hconverts := convert_exchanged hd hr hhonest hothers
    refine ⟨hconverts, ?_, ?_, fun input target context log =>
      parse_alike _ (alike_of_builtFrom hd hr hhonest hothers) log⟩
    · funext v targets
      rw [Graph.convertToAny, hconverts]
      rfl
    · funext v target
      rw [Graph.convertStrictly, hconverts]
      rfl

end Registry

/-- A converter between numbered kinds is honest if what it makes is of its target. -/
theorem Numbered.honest_converter {h : Hierarchy} {source target made : Kind}
    (hmade : ∀ n, (Value.ofNumber made n).kind = made) (htarget : h.assignable target made = true)
    (restrictions : Restrictions) (least : Option Int64) (shift : Int64) :
    (converter source target made restrictions least shift).Honest h := by
  intro v w _ hw
  obtain ⟨n, -, hw⟩ := Option.bind_eq_some_iff.1 hw
  split at hw
  · cases hw
  · cases hw
    rw [Hierarchy.isInstance, hmade]
    exact htarget

namespace Pets

/-! Kittens are cats. They are made from numbers, and cats have an age; so numbers have one too. -/

def kitten : Kind := .host "kitten"

def cat : Kind := .host "cat"

def age : Kind := .host "age"

def kittenInfo : ClassInfo where
  kind := kitten
  code := "kitten"
  name := "kitten"
  parser := some (Numbered.parser "kitten" { front := "kitten " })

def draft : Draft where
  settings := {}
  hierarchy := ⟨[(kitten, cat)]⟩
  infos := [kittenInfo]
  converters := [Numbered.converter .integer kitten kitten {} none 0,
    Numbered.converter cat age age {} (some 0) 1]

def registry : Registry := ⟨{}, draft.hierarchy, draft.infos, .build draft.hierarchy draft.converters⟩

theorem made_draft : draft.Made := by
  have hcode : isCode "kitten" = true := by decide
  have hinfo : ClassInfo.ofAttributes kitten "kitten"
      [.parser (Numbered.parser "kitten" { front := "kitten " })] = .ok kittenInfo := by
    rw [ClassInfo.ofAttributes, hcode]
    rfl
  have hdeclared : Draft.Made { settings := {}, hierarchy := draft.hierarchy } :=
    @Draft.Made.declareSubtype _ _ kitten cat (.start {}) rfl
  have hregistered : Draft.Made { settings := {}, hierarchy := draft.hierarchy, infos := draft.infos } :=
    .register hdeclared hinfo rfl
  exact (hregistered.addConverter _).addConverter _

theorem builtFrom_draft : registry.BuiltFrom draft := ⟨registry, rfl, rfl⟩

theorem honest_converters : ∀ c ∈ draft.converters, c.Honest draft.hierarchy :=
  List.forall_mem_cons.2 ⟨Numbered.honest_converter (fun _ => rfl) rfl _ _ _,
    List.forall_mem_singleton.2 (Numbered.honest_converter (fun _ => rfl) rfl _ _ _)⟩

/-- A number is converted by a chain with a subtype in the middle, and a text is parsed as a kitten
for a converter that takes cats. -/
theorem conversions_keep_to_kinds_pets :
    registry.graph.convert (.integer 3) age = some (.host "age" 4) ∧
    (∃ cs, cs ⊆ draft.converters ∧ Converter.Fed registry.hierarchy cs (.integer 3) ∧
      cs.foldlM (fun v c => c.convert v) (.integer 3) = some (.host "age" 4)) ∧
    (registry.parse "kitten 3" age .config {}).1 = some (.host "age" 4) ∧
    registry.hierarchy.isInstance age (.host "age" 4) = true := by
  obtain ⟨hconversions, -, -, hparses, -⟩ :=
    Registry.conversions_keep_to_kinds made_draft builtFrom_draft honest_converters
  have hconvert : registry.graph.convert (.integer 3) age = some (.host "age" 4) := rfl
  have hparse : (registry.parse "kitten 3" age .config {}).1 = some (.host "age" 4) := by cbv
  obtain ⟨-, hsame | hruns⟩ := hconversions _ _ _ hconvert
  · cases hsame
  · exact ⟨hconvert, hruns, hparse, hparses _ _ _ _ _ hparse⟩

end Pets

end ScriptStore.Types
