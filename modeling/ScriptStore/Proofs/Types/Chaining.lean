import Mathlib.Data.List.Chain
import Mathlib.Data.List.Destutter
import Mathlib.Data.List.Perm.Subperm
import Mathlib.Data.List.ProdSigma
import ScriptStore.Types.Converter

/-!
# What chaining adds to the converters

All the closing of a list of converters ever does is to append the chain of two converters that are
there already, where the second may follow the first and leads somewhere new (`Grows`). Two things
follow. No more converters are added than there are pairs of a source and a target, so that the
bound on the loops is never what ends them. And a chain does what the registered converters it was
made of do one after the other, under all their restrictions
(`Graph.composite_of_mem_build`).
-/

namespace ScriptStore.Types

namespace Converter

variable {h : Hierarchy} {edges now later : List Converter} {a b c e : Converter}

/-! ## Pairs that can be chained -/

/-- `b` may follow `a`, and the two do not lead back to where they start. -/
structure Composable (h : Hierarchy) (a b : Converter) : Prop where
  right : a.restrictions.noRightChaining = false
  left : b.restrictions.noLeftChaining = false
  fits : h.assignable b.source a.target = true
  ends_ne : a.source ≠ b.target

theorem chainable_iff :
    chainable h edges a b = true ↔
      Composable h a b ∧ covers h edges a.source b.target = false := by
  constructor
  · intro hab
    simp only [chainable, Bool.and_eq_true, Bool.not_eq_true', bne_iff_ne] at hab
    obtain ⟨⟨⟨⟨hright, hleft⟩, hfits⟩, hne⟩, hcovers⟩ := hab
    exact ⟨⟨hright, hleft, hfits, hne⟩, hcovers⟩
  · rintro ⟨⟨hright, hleft, hfits, hne⟩, hcovers⟩
    simp [chainable, hright, hleft, hfits, hne, hcovers]

theorem covers_iff {source target : Kind} :
    covers h edges source target = true ↔
      ∃ e ∈ edges, h.related e.source source = true ∧ h.related e.target target = true := by
  simp only [covers, List.any_eq_true, Bool.and_eq_true]

/-- A converter covers its own ends. -/
theorem covers_of_mem (he : e ∈ edges) : covers h edges e.source e.target = true :=
  covers_iff.2 ⟨e, he, h.related_self e.source, h.related_self e.target⟩

theorem covers_mono {source target : Kind} (hsub : edges ⊆ now)
    (hcovers : covers h edges source target = true) : covers h now source target = true := by
  obtain ⟨e, he, hends⟩ := covers_iff.1 hcovers
  exact covers_iff.2 ⟨e, hsub he, hends⟩

/-- A converter from a kind to itself is never the first of a chain: what would follow it covers the
chain already. -/
theorem source_ne_target_of_chainable (hb : b ∈ edges) (hab : chainable h edges a b = true) :
    a.source ≠ a.target := by
  intro hloop
  obtain ⟨hcomposable, hfree⟩ := chainable_iff.1 hab
  have hsource : h.related b.source a.source = true :=
    Hierarchy.related_of_assignable (hloop ▸ hcomposable.fits)
  have hcovers : covers h edges a.source b.target = true :=
    covers_iff.2 ⟨b, hb, hsource, h.related_self b.target⟩
  rw [hcovers] at hfree
  cases hfree

/-! ## Growing by chains -/

/-- `now` is `edges` with chains appended, each of two converters that stood there at that time. -/
inductive Grows (h : Hierarchy) (edges : List Converter) : List Converter → Prop
  | refl : Grows h edges edges
  | add {now : List Converter} {a b : Converter} (sequence : Nat) :
      Grows h edges now → a ∈ now → b ∈ now → chainable h now a b = true →
        Grows h edges (now ++ [a.andThen b sequence])

theorem Grows.trans (hnow : Grows h edges now) (hlater : Grows h now later) :
    Grows h edges later := by
  induction hlater with
  | refl => exact hnow
  | add sequence _ ha hb hab ih => exact .add sequence ih ha hb hab

/-- What holds of all converters, and of a chain if it holds of its parts, still holds after chaining. -/
theorem Grows.forall {P : Converter → Prop} (hnow : Grows h edges now) (hedges : ∀ e ∈ edges, P e)
    (hchain : ∀ {now a b}, b ∈ now → chainable h now a b = true → P a → P b →
      ∀ sequence, P (a.andThen b sequence)) : ∀ e ∈ now, P e := by
  induction hnow with
  | refl => exact hedges
  | add sequence _ ha hb hab ih =>
    intro e he
    rcases List.mem_append.1 he with he | he
    · exact ih e he
    · rw [List.mem_singleton.1 he]
      exact hchain hb hab (ih _ ha) (ih _ hb) sequence

/-- One pair adds nothing, or the chain of its two converters in one of the two orders. -/
theorem grows_complete (h : Hierarchy) (edges : List Converter) (i j : Nat) :
    Grows h edges (complete h edges i j) := by
  unfold complete missing?
  split
  next c hc =>
    split at hc
    next a b hi hj =>
      have ha : a ∈ edges := List.mem_of_getElem? hi
      have hb : b ∈ edges := List.mem_of_getElem? hj
      split at hc
      · next hab =>
          cases hc
          exact .add _ .refl ha hb hab
      · split at hc
        · next hba =>
            cases hc
            exact .add _ .refl hb ha hba
        · cases hc
    · cases hc
  next => exact .refl

theorem grows_completeRow (h : Hierarchy) (i fuel j : Nat) (edges : List Converter) :
    Grows h edges (completeRow h i fuel j edges) := by
  induction fuel generalizing j edges with
  | zero => exact .refl
  | succ fuel ih =>
    rw [completeRow]
    split
    · exact (grows_complete h edges i j).trans (ih (j + 1) (complete h edges i j))
    · exact .refl

theorem grows_completeRows (h : Hierarchy) (limit fuel i : Nat) (edges : List Converter) :
    Grows h edges (completeRows h limit fuel i edges) := by
  induction fuel generalizing i edges with
  | zero => exact .refl
  | succ fuel ih =>
    rw [completeRows]
    split
    · exact (grows_completeRow h i limit 0 edges).trans (ih (i + 1) _)
    · exact .refl

theorem grows_close (h : Hierarchy) (edges : List Converter) : Grows h edges (close h edges) :=
  grows_completeRows h _ _ 0 edges

theorem Grows.isPrefix (hnow : Grows h edges now) : edges <+: now := by
  induction hnow with
  | refl => exact List.prefix_refl edges
  | add sequence _ _ _ _ ih => exact ih.trans (List.prefix_append _ _)

/-- What is added leads from old sources to old targets, no two additions between the same. -/
theorem Grows.added (hnow : Grows h edges now) :
    (∀ e ∈ now, e.source ∈ edges.map (·.source) ∧ e.target ∈ edges.map (·.target)) ∧
      ∃ added, now = edges ++ added ∧ (added.map fun e => (e.source, e.target)).Nodup := by
  induction hnow with
  | refl =>
    refine ⟨fun e he => ⟨List.mem_map_of_mem he, List.mem_map_of_mem he⟩, [], ?_, List.nodup_nil⟩
    rw [List.append_nil]
  | @add now a b sequence _ ha hb hab ih =>
    obtain ⟨hends, added, rfl, hnodup⟩ := ih
    refine ⟨?_, added ++ [a.andThen b sequence], by rw [List.append_assoc], ?_⟩
    · intro e he
      rcases List.mem_append.1 he with he | he
      · exact hends e he
      · rw [List.mem_singleton.1 he]
        exact ⟨(hends a ha).1, (hends b hb).2⟩
    · rw [List.map_append, List.map_singleton, List.nodup_append]
      refine ⟨hnodup, List.nodup_singleton _, ?_⟩
      rintro ends hmem _ hnew rfl
      rw [List.mem_singleton] at hnew
      obtain ⟨e, he, hee⟩ := List.mem_map.1 hmem
      have heq : e.source = a.source ∧ e.target = b.target := Prod.mk.inj (hee.trans hnew)
      -- The older converter between these ends would have covered the pair.
      have hcovers := covers_of_mem (h := h) (List.mem_append_right edges he)
      rw [heq.1, heq.2, (chainable_iff.1 hab).2] at hcovers
      cases hcovers

theorem Grows.length_le (hnow : Grows h edges now) :
    now.length ≤ edges.length + edges.length * edges.length := by
  obtain ⟨hends, added, rfl, hnodup⟩ := hnow.added
  have hsub : (added.map fun e => (e.source, e.target)) ⊆
      edges.map (·.source) ×ˢ edges.map (·.target) := by
    intro ends hmem
    obtain ⟨e, he, rfl⟩ := List.mem_map.1 hmem
    exact List.mem_product.2 (hends e (List.mem_append_right edges he))
  have hle := (hnodup.subperm hsub).length_le
  rw [List.length_product, List.length_map, List.length_map, List.length_map] at hle
  rw [List.length_append]
  exact Nat.add_le_add_left hle edges.length

/-! ## The kinds that a value passes through -/

theorem extendChain_append (chain more rest : List Kind) :
    extendChain chain (more ++ rest) = extendChain (extendChain chain more) rest :=
  List.foldl_append

theorem extendChain_cons (chain : List Kind) (k : Kind) (more : List Kind) :
    extendChain chain (k :: more) = extendChain (extendChain chain [k]) more := rfl

theorem extendChain_singleton (chain : List Kind) (k : Kind) :
    extendChain chain [k] = if chain.getLast? = some k then chain else chain ++ [k] := by
  simp [extendChain]

theorem getLast?_extendChain_singleton (chain : List Kind) (k : Kind) :
    (extendChain chain [k]).getLast? = some k := by
  rw [extendChain_singleton]
  split
  · assumption
  · exact List.getLast?_concat

theorem getLast?_extendChain (chain : List Kind) {more : List Kind} (hmore : more ≠ []) :
    (extendChain chain more).getLast? = more.getLast? := by
  obtain ⟨pre, k, rfl⟩ := (List.eq_nil_or_concat' more).resolve_left hmore
  rw [extendChain_append, getLast?_extendChain_singleton, List.getLast?_concat]

/-- Continuing by a chain is continuing by the kinds that it was made of. -/
theorem extendChain_extendChain (chain : List Kind) {more : List Kind} (hmore : more ≠ [])
    (rest : List Kind) :
    extendChain chain (extendChain more rest) = extendChain (extendChain chain more) rest := by
  induction rest generalizing more with
  | nil => rfl
  | cons k rest ih =>
    have hstep : extendChain chain (extendChain more [k]) =
        extendChain (extendChain chain more) [k] := by
      rw [extendChain_singleton more]
      split
      · next hlast =>
          rw [extendChain_singleton, getLast?_extendChain chain hmore, if_pos hlast]
      · rw [extendChain_append]
    have hne : extendChain more [k] ≠ [] := by
      intro hnil
      have hlast := getLast?_extendChain_singleton more k
      rw [hnil] at hlast
      cases hlast
    rw [extendChain_cons more, ih hne, hstep, ← extendChain_cons]

theorem destutter'_eq_extendChain (before : List Kind) (k : Kind) (more : List Kind) :
    before ++ more.destutter' (· ≠ ·) k = extendChain (before ++ [k]) more := by
  induction more generalizing before k with
  | nil => rfl
  | cons next more ih =>
    rw [extendChain_cons, extendChain_singleton, List.getLast?_concat]
    by_cases hnext : k = next
    · subst hnext
      rw [if_pos rfl, List.destutter'_cons_neg _ (not_not_intro rfl), ih]
    · rw [if_neg fun heq => hnext (Option.some.inj heq), List.destutter'_cons_pos _ hnext, ← ih,
        List.append_assoc, List.singleton_append]

/-- A chain leaves out repeated kinds that stand next to each other, and nothing else. -/
theorem destutter_cons (k : Kind) (more : List Kind) :
    (k :: more).destutter (· ≠ ·) = extendChain [k] more :=
  destutter'_eq_extendChain [] k more

theorem extendChain_destutter (chain more : List Kind) :
    extendChain chain (more.destutter (· ≠ ·)) = extendChain chain more := by
  cases more with
  | nil => rfl
  | cons k more =>
    rw [destutter_cons, extendChain_extendChain chain (List.cons_ne_nil k []), ← extendChain_cons]

theorem destutter_append {chain : List Kind} (hchain : chain ≠ []) (more : List Kind) :
    (chain ++ more).destutter (· ≠ ·) = extendChain (chain.destutter (· ≠ ·)) more := by
  cases chain with
  | nil => exact absurd rfl hchain
  | cons k chain =>
    rw [List.cons_append, destutter_cons, destutter_cons, extendChain_append]

/-! ## Chains of registered converters -/

end Converter

/-- All restrictions of a list. -/
def Restrictions.ofAll (rs : List Restrictions) : Restrictions :=
  rs.foldr Restrictions.union {}

namespace Restrictions

theorem union_assoc (a b c : Restrictions) : (a.union b).union c = a.union (b.union c) := by
  simp only [union, Bool.or_assoc]

@[simp] theorem empty_union (r : Restrictions) : union {} r = r := by
  simp [union]

@[simp] theorem union_empty (r : Restrictions) : r.union {} = r := by
  simp [union]

theorem ofAll_append (rs ss : List Restrictions) :
    ofAll (rs ++ ss) = (ofAll rs).union (ofAll ss) := by
  induction rs with
  | nil => exact (empty_union (ofAll ss)).symm
  | cons r rs ih =>
    change r.union (ofAll (rs ++ ss)) = (r.union (ofAll rs)).union (ofAll ss)
    rw [ih, union_assoc]

/-- A flag that is not set for all together is set for none. -/
theorem flag_of_ofAll (flag : Restrictions → Bool)
    (hflag : ∀ a b, flag (a.union b) = (flag a || flag b)) {rs : List Restrictions}
    (h : flag (ofAll rs) = false) : ∀ r ∈ rs, flag r = false := by
  induction rs with
  | nil => exact fun r hr => absurd hr List.not_mem_nil
  | cons r rs ih =>
    have hboth := Bool.or_eq_false_iff.1 ((hflag r (ofAll rs)).symm.trans h)
    exact List.forall_mem_cons.2 ⟨hboth.1, ih hboth.2⟩

end Restrictions

namespace Converter

/-- The ends of converters, one after the other. -/
def ends (rs : List Converter) : List Kind := rs.flatMap fun r => [r.source, r.target]

/-- `e` does what the converters `rs` do one after the other, under all their restrictions. Each of
them takes what the one before it gives, and none stands where it may not. -/
structure Composite (h : Hierarchy) (rs : List Converter) (e : Converter) : Prop where
  source : rs.head?.map (·.source) = some e.source
  target : rs.getLast?.map (·.target) = some e.target
  fits : rs.IsChain fun r next => h.assignable next.source r.target = true
  right : ∀ r ∈ rs.dropLast, r.restrictions.noRightChaining = false
  left : ∀ r ∈ rs.tail, r.restrictions.noLeftChaining = false
  restrictions : e.restrictions = .ofAll (rs.map (·.restrictions))
  alone : rs.length = 1 → e.chain = ends rs
  chain : 1 < rs.length → e.chain = (ends rs).destutter (· ≠ ·)
  convert : ∀ v, e.convert v = rs.foldlM (fun v r => r.convert v) v

namespace Composite

variable {rs ss : List Converter}

theorem ne_nil (he : Composite h rs e) : rs ≠ [] := by
  rintro rfl
  cases he.source

theorem ends_ne_nil (he : Composite h rs e) : ends rs ≠ [] := by
  cases rs with
  | nil => exact absurd rfl he.ne_nil
  | cons r rs => exact List.cons_ne_nil _ _

theorem length_cases (he : Composite h rs e) : (∃ r, rs = [r]) ∨ 1 < rs.length := by
  have hpos : 0 < rs.length := List.length_pos_iff.2 he.ne_nil
  rcases Nat.lt_or_eq_of_le (Nat.succ_le_of_lt hpos) with hlt | heq
  · exact .inr hlt
  · exact .inl (List.length_eq_one_iff.1 heq.symm)

/-- A registered converter, whatever number it gets, stands for itself. -/
theorem of_single {r : Converter} (hchain : r.chain = [r.source, r.target]) (sequence : Nat) :
    Composite h [r] { r with sequence } where
  source := rfl
  target := rfl
  fits := List.isChain_singleton r
  right := fun _ hr => absurd hr List.not_mem_nil
  left := fun _ hr => absurd hr List.not_mem_nil
  restrictions := (Restrictions.union_empty r.restrictions).symm
  alone := fun _ => hchain
  chain := fun hlt => absurd hlt (Nat.lt_irrefl 1)
  convert := fun v => (bind_pure (r.convert v)).symm

/-- Between different ends, the kinds passed through are the ends with repetitions merged. -/
theorem chain_eq (he : Composite h rs e) (hne : e.source ≠ e.target) :
    e.chain = (ends rs).destutter (· ≠ ·) := by
  rcases he.length_cases with ⟨r, rfl⟩ | hlt
  · have hsource : r.source = e.source := Option.some.inj he.source
    have htarget : r.target = e.target := Option.some.inj he.target
    rw [he.alone rfl]
    change [r.source, r.target] = [r.source, r.target].destutter (· ≠ ·)
    rw [List.destutter_pair, if_pos (by rwa [hsource, htarget])]
  · exact he.chain hlt

theorem extendChain_chain (he : Composite h rs e) (chain : List Kind) :
    extendChain chain e.chain = extendChain chain (ends rs) := by
  rcases he.length_cases with ⟨r, rfl⟩ | hlt
  · rw [he.alone rfl]
  · rw [he.chain hlt, extendChain_destutter]

/-- The chain of two such converters does what both lists do, one after the other. -/
theorem andThen (ha : Composite h rs a) (hb : Composite h ss b) (hab : Composable h a b)
    (hne : a.source ≠ a.target) (sequence : Nat) :
    Composite h (rs ++ ss) (a.andThen b sequence) where
  source := by
    rw [List.head?_append_of_ne_nil _ ha.ne_nil]
    exact ha.source
  target := by
    rw [List.getLast?_append_of_ne_nil _ hb.ne_nil]
    exact hb.target
  fits := by
    refine List.isChain_append.2 ⟨ha.fits, hb.fits, ?_⟩
    intro r hr next hnext
    have htarget : r.target = a.target := by
      have := ha.target
      rw [Option.mem_def.1 hr] at this
      exact Option.some.inj this
    have hsource : next.source = b.source := by
      have := hb.source
      rw [Option.mem_def.1 hnext] at this
      exact Option.some.inj this
    rw [htarget, hsource]
    exact hab.fits
  right := by
    have hall := Restrictions.flag_of_ofAll (·.noRightChaining) (fun _ _ => rfl)
      (ha.restrictions ▸ hab.right)
    intro r hr
    rw [List.dropLast_append_of_ne_nil hb.ne_nil] at hr
    rcases List.mem_append.1 hr with hr | hr
    · exact hall r.restrictions (List.mem_map_of_mem hr)
    · exact hb.right r hr
  left := by
    have hall := Restrictions.flag_of_ofAll (·.noLeftChaining) (fun _ _ => rfl)
      (hb.restrictions ▸ hab.left)
    intro r hr
    rw [List.tail_append_of_ne_nil ha.ne_nil] at hr
    rcases List.mem_append.1 hr with hr | hr
    · exact ha.left r hr
    · exact hall r.restrictions (List.mem_map_of_mem hr)
  restrictions := by
    rw [List.map_append, Restrictions.ofAll_append, ← ha.restrictions, ← hb.restrictions]
    rfl
  alone := by
    intro hone
    have hrs := List.length_pos_iff.2 ha.ne_nil
    have hss := List.length_pos_iff.2 hb.ne_nil
    rw [List.length_append] at hone
    omega
  chain := by
    intro _
    change extendChain a.chain b.chain = (ends (rs ++ ss)).destutter (· ≠ ·)
    rw [ends, List.flatMap_append, ← ends, ← ends, destutter_append ha.ends_ne_nil,
      ha.chain_eq hne, hb.extendChain_chain]
  convert := by
    intro v
    rw [List.foldlM_append]
    change (a.convert v).bind b.convert = _
    rw [ha.convert v]
    congr
    exact funext hb.convert

end Composite

/-- If all converters are made of registered ones, they still are after chaining. -/
theorem Grows.composite {registered : List Converter} (hnow : Grows h edges now)
    (hedges : ∀ e ∈ edges, ∃ rs, rs ⊆ registered ∧ Composite h rs e) :
    ∀ e ∈ now, ∃ rs, rs ⊆ registered ∧ Composite h rs e := by
  refine hnow.forall hedges ?_
  rintro now a b hb hab ⟨rs, hrs, harun⟩ ⟨ss, hss, hbrun⟩ sequence
  refine ⟨rs ++ ss, List.append_subset.2 ⟨hrs, hss⟩, ?_⟩
  exact harun.andThen hbrun (chainable_iff.1 hab).1 (source_ne_target_of_chainable hb hab) _

theorem mem_insert : e ∈ insert h c edges ↔ e = c ∨ e ∈ edges := by
  induction edges with
  | nil => simp [insert]
  | cons d edges ih =>
    rw [insert]
    split
    · exact List.mem_cons
    · rw [List.mem_cons, ih, List.mem_cons]
      exact or_left_comm

theorem mem_foldl_insert {cs : List Converter} :
    e ∈ cs.foldl (fun edges c => insert h c edges) edges ↔ e ∈ cs ∨ e ∈ edges := by
  induction cs generalizing edges with
  | nil => simp
  | cons c cs ih =>
    rw [List.foldl_cons, ih, mem_insert, List.mem_cons]
    tauto

end Converter

namespace Graph

open Converter

/-- **Every converter of the graph is made of registered ones.** It takes a value through them one
after the other, from the source of the first to the target of the last, and is restricted in all
the ways that any of them is. -/
theorem composite_of_mem_build {h : Hierarchy} {registered : List Converter}
    (hregistered : ∀ r ∈ registered, r.chain = [r.source, r.target]) {e : Converter}
    (he : e ∈ (build h registered).edges) :
    ∃ rs, rs ⊆ registered ∧ Composite h rs e := by
  refine (grows_close h _).composite ?_ e he
  intro e he
  rcases mem_foldl_insert.1 he with he | he
  · obtain ⟨⟨r, i⟩, hr, rfl⟩ := List.mem_map.1 he
    have hmem : r ∈ registered := List.fst_mem_of_mem_zipIdx hr
    exact ⟨[r], List.cons_subset.2 ⟨hmem, List.nil_subset _⟩, .of_single (hregistered r hmem) i⟩
  · exact absurd he List.not_mem_nil

/-- Three converters in a row, the second to a subtype of what the third takes. -/
theorem composite_of_mem_build_three :
    let h : Hierarchy := ⟨[(.host "c", .host "d")]⟩
    let registered := [single (.host "a") (.host "b") {} some,
      single (.host "b") (.host "c") ⟨false, false, true⟩ some,
      single (.host "d") (.host "e") {} some]
    ∃ e ∈ (build h registered).edges,
      e.chain = [.host "a", .host "b", .host "c", .host "d", .host "e"] ∧
        ∃ rs, rs ⊆ registered ∧ Composite h rs e := by
  intro h registered
  have hedge : ∃ e ∈ (build h registered).edges,
      e.chain = [.host "a", .host "b", .host "c", .host "d", .host "e"] := by decide
  obtain ⟨e, he, hchain⟩ := hedge
  exact ⟨e, he, hchain, composite_of_mem_build (by decide) he⟩

end Graph

end ScriptStore.Types
