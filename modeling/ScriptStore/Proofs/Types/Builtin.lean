import Mathlib
import ScriptStore.Proofs.Types.Built
import ScriptStore.Types.Builtin

/-!
# Registering the built-in types

In an empty draft all built-in types can be registered: their code names and kinds are different, no
attribute is given twice, and every pattern in what users may write for them can be read
(`Builtin.register_empty`).

That a pattern can be read is found out by reading it. Only the letters need some care. Up to case, a
letter is the set of itself and its capital, which comes first because sets are in order; an `s` is
also a long one.
-/

namespace ScriptStore

namespace Pattern

/-! ## Reading patterns -/

/-- A letter up to case, where that means its capital and itself. -/
theorem CharSet.ofChar_letter {c capital : Char} (hclass : Text.foldClass c = [c, capital])
    (hbefore : capital.toNat + 1 < c.toNat) :
    ofChar true c = ⟨[(capital.toNat, capital.toNat), (c.toNat, c.toNat)]⟩ := by
  have hlater : ¬ c.toNat ≤ capital.toNat := by omega
  have hapart : ¬ c.toNat ≤ capital.toNat + 1 := by omega
  simp [ofChar, hclass, ofChars, ofRanges, List.mergeSort, List.MergeSort.Internal.splitInTwo, hlater,
    joinTouching, hapart]

/-- Whether these characters can be read as a pattern. -/
def Readable (chars : List Char) : Prop :=
  ∃ part, alternatives (chars.length + 1) maxDepth {} [] [] chars = .ok (part, []) ∧
    part.depth ≤ maxDepth ∧ part.expr.fits = true

theorem wholeIgnoringCase_of_readable {text : String} {chars : List Char}
    (hchars : text.toList = chars)
    (h : Readable (['(', '?', 'i', ')', '^', '(', '?', ':'] ++ chars ++ [')', '$'])) :
    ∃ p, wholeIgnoringCase text = .ok p := by
  obtain ⟨part, hpart, hdepth, hfits⟩ := h
  have hsource : s!"(?i)^(?:{text})$".toList
      = ['(', '?', 'i', ')', '^', '(', '?', ':'] ++ chars ++ [')', '$'] := by
    rw [← hchars, String.toList_append, String.toList_append]
    rfl
  have hparse : Expr.parse s!"(?i)^(?:{text})$" = .ok part.expr := by
    rw [Expr.parse, ← String.length_toList, hsource, hpart]
    exact if_pos hdepth
  rw [wholeIgnoringCase, ofSource, hparse]
  dsimp only
  rw [hfits]
  exact ⟨_, rfl⟩

end Pattern

namespace Types

namespace Builtin

open Pattern

/-- The letters in what users may write for built-in types, with their capitals, apart from `s`. -/
def letters : List (Char × Char) :=
  [('a', 'A'), ('b', 'B'), ('c', 'C'), ('d', 'D'), ('e', 'E'), ('g', 'G'), ('i', 'I'), ('j', 'J'),
    ('l', 'L'), ('m', 'M'), ('n', 'N'), ('o', 'O'), ('p', 'P'), ('r', 'R'), ('t', 'T'), ('u', 'U'),
    ('x', 'X')]

theorem ofChar_of_mem_letters : ∀ l ∈ letters, CharSet.ofChar true l.1
    = ⟨[(l.2.toNat, l.2.toNat), (l.1.toNat, l.1.toNat)]⟩ := by
  have hbefore : ∀ l ∈ letters, l.2.toNat + 1 < l.1.toNat := by decide
  have hclass : ∀ l ∈ letters, Text.foldClass l.1 = [l.1, l.2] := by
    simp only [letters, List.forall_mem_cons, List.not_mem_nil, false_implies, implies_true, and_true]
    and_intros <;> decide +kernel
  exact fun l hl => CharSet.ofChar_letter (hclass l hl) (hbefore l hl)

theorem ofChar_s : CharSet.ofChar true 's' = ⟨[(83, 83), (115, 115), (383, 383)]⟩ := by
  have hclass : Text.foldClass 's' = ['s', 'S', 'ſ'] := by decide +kernel
  rw [CharSet.ofChar, if_pos rfl, hclass]
  cbv

theorem ofChar_blank : CharSet.ofChar true ' ' = ⟨[(32, 32)]⟩ := by
  have hclass : Text.foldClass ' ' = [' '] := by decide +kernel
  rw [CharSet.ofChar, if_pos rfl, hclass]
  cbv

/-- Everything that users may write for a built-in type can be read as a pattern. -/
theorem patterns_of_types : ∀ text ∈ types.flatMap fun t => ClassInfo.userPatterns t.2.2,
    ∃ p, wholeIgnoringCase text = .ok p := by
  have htexts : (types.flatMap fun t => ClassInfo.userPatterns t.2.2)
      = ["objects?", "num(ber)?s?", "int(eger)?s?", "doubles?", "decimals?", "booleans?",
        "(text|string)s?", "time ?spans?"] := rfl
  have hletters := ofChar_of_mem_letters
  simp only [letters, List.forall_mem_cons, List.not_mem_nil, false_implies, implies_true, and_true]
    at hletters
  rw [htexts]
  simp only [List.forall_mem_cons, List.not_mem_nil, false_implies, implies_true, and_true]
  and_intros
  all_goals
    refine wholeIgnoringCase_of_readable rfl ?_
    simp [Readable, alternatives, repetition?, opening, flagLetters, skipPreference, maxDepth, ofChar_s,
      ofChar_blank, hletters, Expr.oneOf, Expr.repeated, Expr.isBlank, concat, alternation,
      Expr.sequence, Expr.before, Expr.choice]
    decide +kernel

/-! ## Registration -/

theorem mapM_eq_ok {α β ε : Type} {f : α → Except ε β} {as : List α}
    (h : ∀ a ∈ as, ∃ b, f a = .ok b) : ∃ bs, as.mapM f = .ok bs := by
  induction as with
  | nil => exact ⟨[], rfl⟩
  | cons a rest ih =>
    obtain ⟨⟨b, hb⟩, hrest⟩ := List.forall_mem_cons.1 h
    obtain ⟨bs, hbs⟩ := ih hrest
    exact ⟨b :: bs, by rw [List.mapM_cons, hb, hbs]; rfl⟩

/-- What a built-in type is registered as. -/
def infoOf (t : Kind × String × List Attribute) (patterns : List Pattern) : ClassInfo :=
  { described t with patterns }

/-- The info of a built-in type can be made. -/
theorem ofAttributes_of_types {t : Kind × String × List Attribute} (ht : t ∈ types) :
    ∃ patterns, ClassInfo.ofAttributes t.1 t.2.1 t.2.2 = .ok (infoOf t patterns) := by
  have hattributes : ∀ t ∈ types, firstRepeated? [] t.2.2 = none ∧
      ((described t).serializer.isSome && (described t).serializeAs.isSome) = false := by decide
  obtain ⟨hrepeated, hconflict⟩ := hattributes t ht
  obtain ⟨patterns, hpatterns⟩ : ∃ patterns, (ClassInfo.userPatterns t.2.2).mapM
      (fun p => (wholeIgnoringCase p).mapError (Error.invalidPattern t.2.1)) = .ok patterns := by
    refine mapM_eq_ok fun text htext => ?_
    obtain ⟨p, hp⟩ := patterns_of_types text (List.mem_flatMap.2 ⟨t, ht, htext⟩)
    exact ⟨p, by rw [hp]; rfl⟩
  refine ⟨patterns, ?_⟩
  rw [ClassInfo.ofAttributes, (codes_of_types t ht).1, hrepeated]
  change (if ((described t).serializer.isSome && (described t).serializeAs.isSome) = true then _
    else _) = _
  rw [hconflict, hpatterns]
  rfl

/-- A type is registered if its code name and its kind are new. -/
theorem register_infoOf {t : Kind × String × List Attribute} {d : Draft} (ps : List Pattern)
    (hlength : t.2.1.utf8ByteSize ≤ maxCodeLength) (hcode : (d.infos.map (·.code) ++ [t.2.1]).Nodup)
    (hkind : (d.infos.map (·.kind) ++ [t.1]).Nodup) :
    (d.register (infoOf t ps)).value = .ok { d with infos := d.infos ++ [infoOf t ps] } := by
  have hcode' : (infoOf t ps).code = t.2.1 := code_described t
  have hkind' : (infoOf t ps).kind = t.1 := kind_described t
  have hnew : d.duplicate? (infoOf t ps) = none := by
    rw [Draft.duplicate?_eq_none, hcode', hkind']
    have hcodes := (List.nodup_append.1 hcode).2.2
    have hkinds := (List.nodup_append.1 hkind).2.2
    exact fun other hother => ⟨hcodes _ (List.mem_map_of_mem hother) _ (List.mem_singleton_self _),
      hkinds _ (List.mem_map_of_mem hother) _ (List.mem_singleton_self _)⟩
  rw [Draft.register, hnew]
  dsimp only
  rw [hcode', if_neg (Nat.not_lt.2 hlength)]
  rfl

/-- Types that can be registered are, if their code names and kinds are new and different. -/
theorem registerAll_spec {types : List (Kind × String × List Attribute)} {d : Draft}
    (hinfos : ∀ t ∈ types, ∃ patterns,
      ClassInfo.ofAttributes t.1 t.2.1 t.2.2 = .ok (infoOf t patterns))
    (hlength : ∀ t ∈ types, t.2.1.utf8ByteSize ≤ maxCodeLength)
    (hcodes : (d.infos.map (·.code) ++ types.map (·.2.1)).Nodup)
    (hkinds : (d.infos.map (·.kind) ++ types.map (·.1)).Nodup) :
    ∃ patterns : List (List Pattern), patterns.length = types.length ∧
      (registerAll d types).value
        = (none, { d with infos := d.infos ++ List.zipWith infoOf types patterns }) := by
  induction types generalizing d with
  | nil => exact ⟨[], rfl, by rw [List.zipWith_nil_left, List.append_nil]; rfl⟩
  | cons t rest ih =>
    obtain ⟨⟨ps, hps⟩, hinfos⟩ := List.forall_mem_cons.1 hinfos
    obtain ⟨hfits, hlength⟩ := List.forall_mem_cons.1 hlength
    have hcode : (infoOf t ps).code = t.2.1 := code_described t
    have hkind : (infoOf t ps).kind = t.1 := kind_described t
    -- seen from the next type, the one that is registered now is one of the earlier ones
    rw [List.map_cons, List.append_cons] at hcodes hkinds
    have hregister := register_infoOf ps hfits (List.nodup_append.1 hcodes).1
      (List.nodup_append.1 hkinds).1
    obtain ⟨patterns, hcount, hrest⟩ := ih hinfos hlength
      (d := { d with infos := d.infos ++ [infoOf t ps] })
      (by rw [List.map_append, List.map_singleton, hcode]; exact hcodes)
      (by rw [List.map_append, List.map_singleton, hkind]; exact hkinds)
    refine ⟨ps :: patterns, congrArg (· + 1) hcount, ?_⟩
    rw [registerAll, hps]
    dsimp only
    rw [Logged.value_bind, hregister]
    dsimp only
    rw [hrest]
    dsimp only
    rw [List.append_assoc]
    rfl

/-- The draft of the built-in types, with the patterns that were read. -/
def draft (settings : Settings) (patterns : List (List Pattern)) : Draft where
  settings := settings
  hierarchy := ⟨[(.integer, .number), (.double, .number)]⟩
  infos := List.zipWith infoOf types patterns
  converters := [toDouble]

/-- **All built-in types can be registered in an empty draft.** -/
theorem register_empty (settings : Settings) :
    ∃ patterns : List (List Pattern), patterns.length = types.length ∧
      (register { settings }).value = (none, draft settings patterns) := by
  obtain ⟨patterns, hcount, hall⟩ := registerAll_spec
    (d := { settings, hierarchy := ⟨[(.integer, .number), (.double, .number)]⟩ })
    (fun t ht => ofAttributes_of_types ht) (fun t ht => (codes_of_types t ht).2.1)
    (show (types.map (·.2.1)).Nodup by decide) (show (types.map (·.1)).Nodup by decide)
  have hinteger : Draft.declareSubtype { settings } .integer .number
      = .ok { settings, hierarchy := ⟨[(.integer, .number)]⟩ } := rfl
  have hdouble : Draft.declareSubtype { settings, hierarchy := ⟨[(.integer, .number)]⟩ } .double .number
      = .ok { settings, hierarchy := ⟨[(.integer, .number), (.double, .number)]⟩ } := rfl
  refine ⟨patterns, hcount, ?_⟩
  rw [register, hinteger]
  dsimp only
  rw [hdouble]
  dsimp only
  rw [Logged.value_bind, hall]
  rfl

end Builtin

end Types

end ScriptStore
