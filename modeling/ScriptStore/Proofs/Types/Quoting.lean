import ScriptStore.Proofs.Text.Cutting
import ScriptStore.Storage.Csv
import ScriptStore.Types.Builtin

/-!
# Strings in quotes

Scripts and events write a string between quotes, with its quotes doubled. Each string is written in
one way and nothing else is read (`unquote_iff_doubled`): the quotes at the ends are taken off first,
and those between them are in pairs only if they were doubled.
-/

namespace ScriptStore.Types.Builtin

open Storage.Csv (doubleQuotes)

theorem undouble_doubleQuotes (s : List Char) : undouble (doubleQuotes s) = some s := by
  induction s with
  | nil => rfl
  | cons c s ih =>
    by_cases hc : c = '"'
    · subst hc
      exact congrArg (Option.map ('"' :: ·)) ih
    · simp [doubleQuotes, undouble, hc, ih]

theorem eq_doubleQuotes_of_undouble {t s : List Char} (h : undouble t = some s) :
    t = doubleQuotes s := by
  fun_induction undouble t generalizing s with
  | case1 =>
    cases h
    rfl
  | case2 rest ih =>
    obtain ⟨text, htext, rfl⟩ := Option.map_eq_some_iff.1 h
    rw [ih htext]
    rfl
  | case3 => cases h
  | case4 c rest _ hc ih =>
    obtain ⟨text, htext, rfl⟩ := Option.map_eq_some_iff.1 h
    rw [ih htext, doubleQuotes, if_neg (by simpa using hc)]

theorem unquote_eq_some {input s : List Char} :
    unquote input = some s ↔ input = '"' :: doubleQuotes s ++ ['"'] := by
  simp only [unquote, Option.bind_eq_some_iff, Text.dropFront?_eq_some, Text.dropBack?_eq_some]
  constructor
  · rintro ⟨_, rfl, inner, rfl, hinner⟩
    rw [eq_doubleQuotes_of_undouble hinner]
    rfl
  · rintro rfl
    exact ⟨_, rfl, doubleQuotes s, rfl, undouble_doubleQuotes s⟩

theorem parseString_eq_some {input s : String} {context : Context}
    (hcontext : context = .script ∨ context = .event) :
    (parseString input context).1 = some s ↔ input.toList = '"' :: doubleQuotes s.toList ++ ['"'] := by
  have hscript : (parseString input .script).1 = (unquote input.toList).map String.ofList := by
    cases hquoted : unquote input.toList with
    | some text => rw [parseString, hquoted]; rfl
    | none =>
      rw [parseString, hquoted]
      dsimp only
      split <;> rfl
  have hparse : (parseString input context).1 = (unquote input.toList).map String.ofList := by
    rcases hcontext with rfl | rfl <;> exact hscript
  rw [hparse, ← unquote_eq_some, Option.map_eq_some_iff]
  constructor
  · rintro ⟨text, htext, rfl⟩
    rw [htext, String.toList_ofList]
  · exact fun h => ⟨s.toList, h, String.ofList_toList⟩

/-- **What stands in quotes is read exactly if its quotes are doubled**, and different texts are read
as different strings. -/
theorem unquote_iff_doubled :
    (∀ input s : List Char, unquote input = some s ↔ input = '"' :: doubleQuotes s ++ ['"']) ∧
    ∀ context, context = Context.script ∨ context = .event →
      (∀ input v, (stringParser.parse input context).1 = some v ↔
        ∃ s : String, v = .string s ∧ input.toList = '"' :: doubleQuotes s.toList ++ ['"']) ∧
      ∀ a b v, (stringParser.parse a context).1 = some v → (stringParser.parse b context).1 = some v →
        a = b := by
  refine ⟨fun input s => unquote_eq_some, fun context hcontext => ?_⟩
  have hparse : ∀ input v, (stringParser.parse input context).1 = some v ↔
      ∃ s : String, v = .string s ∧ input.toList = '"' :: doubleQuotes s.toList ++ ['"'] := by
    intro input v
    change (parseString input context).1.map Value.string = some v ↔ _
    rw [Option.map_eq_some_iff]
    exact exists_congr fun s => by rw [parseString_eq_some hcontext, and_comm, eq_comm (a := v)]
  refine ⟨hparse, fun a b v ha hb => ?_⟩
  obtain ⟨s, rfl, has⟩ := (hparse a v).1 ha
  obtain ⟨t, hst, hbt⟩ := (hparse b _).1 hb
  cases hst
  exact String.toList_injective (has.trans hbt.symm)

theorem unquote_iff_doubled_greeting : (Context.script = .script ∨ Context.script = .event) ∧
    (stringParser.parse "\"say \"\"hi\"\"\"" .script).1 = some (.string "say \"hi\"") := by
  have hscript : Context.script = .script ∨ Context.script = .event := .inl rfl
  exact ⟨hscript, ((unquote_iff_doubled.2 _ hscript).1 _ _).2 ⟨_, rfl, by decide +kernel⟩⟩

end ScriptStore.Types.Builtin
