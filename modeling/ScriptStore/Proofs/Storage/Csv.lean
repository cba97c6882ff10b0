import Mathlib.Data.List.DropRight
import ScriptStore.Proofs.Text.Cutting
import ScriptStore.Storage.Csv
import ScriptStore.Text.Hex
import ScriptStore.Types.ClassInfo

/-!
# Lines of fields are read back

A field is read back from a line if it is quoted or has no white space at its ends. Quotes are written
around ASCII blanks but trimming takes away white space of any kind, so there are fields that are
not read back: those that begin or end with other white space and need no quotes. `readBack` says what
is read of any field.

A line of any number of fields has as many when it is read, and they are the same exactly if each of them is
read back (`split_write_iff`). No line can be read that has a quote without another one
(`split_trimmed_eq_some`).
-/

namespace ScriptStore

namespace Text.Hex

theorem digit?_upperDigit : ∀ n < 16, digit? (upperDigit n) = some n := by decide

theorem decodeDigits?_digits (bytes : Bytes) :
    decodeDigits? (bytes.flatMap fun b => [upperDigit (b.toNat / 16), upperDigit (b.toNat % 16)])
      = some bytes := by
  induction bytes with
  | nil => rfl
  | cons b rest ih =>
    have hhigh := digit?_upperDigit (b.toNat / 16) (by have := b.toNat_lt; omega)
    have hlow := digit?_upperDigit (b.toNat % 16) (Nat.mod_lt _ (by decide))
    rw [List.flatMap_cons, List.cons_append, List.cons_append, List.nil_append, decodeDigits?,
      hhigh, hlow, ih]
    show some (UInt8.ofNat (16 * (b.toNat / 16) + b.toNat % 16) :: rest) = some (b :: rest)
    rw [Nat.div_add_mod, UInt8.ofNat_toNat]

/-- Bytes are read back from their digits. -/
theorem decode?_encode (bytes : Bytes) : decode? (encode bytes) = some bytes := by
  rw [decode?, encode, String.toList_ofList, decodeDigits?_digits]

theorem mem_encode {bytes : Bytes} {c : Char} (h : c ∈ (encode bytes).toList) :
    ∃ n < 16, c = upperDigit n := by
  rw [encode, String.toList_ofList, List.mem_flatMap] at h
  obtain ⟨b, _, hc⟩ := h
  rcases List.mem_cons.1 hc with rfl | hc
  · exact ⟨b.toNat / 16, by have := b.toNat_lt; omega, rfl⟩
  · exact ⟨b.toNat % 16, Nat.mod_lt _ (by decide), List.mem_singleton.1 hc⟩

end Text.Hex

namespace Storage.Csv

open Text (isBlank isAsciiBlank trim Tight)

/-! ## Quoted fields -/

theorem readQuoted_append (field : List Char) {tail : List Char} (htail : tail.head? ≠ some '"') :
    readQuoted (doubleQuotes field ++ '"' :: tail) = some (field, tail) := by
  induction field with
  | nil =>
    cases tail with
    | nil => rfl
    | cons c rest =>
      have hc : c ≠ '"' := fun h => htail (by rw [h]; rfl)
      simp [doubleQuotes, readQuoted, hc]
  | cons c field ih =>
    by_cases hc : c = '"'
    · subst hc
      simp [doubleQuotes, readQuoted, ih]
    · simp [doubleQuotes, readQuoted, hc, ih]

/-! ## Bare fields -/

/-- Whether a character may stand in a field without quotes. -/
def IsPlain (c : Char) : Prop := c ≠ ',' ∧ c ≠ '"' ∧ c ≠ '#' ∧ isAsciiBlank c = false

theorem needsQuotes_eq_false {field : List Char} :
    needsQuotes field = false ↔ ∀ c ∈ field, IsPlain c := by
  simp [needsQuotes, IsPlain, and_assoc]

theorem readBare_append {field : List Char} (hfield : ∀ c ∈ field, c ≠ ',' ∧ c ≠ '"')
    (more : Option (List Char)) :
    readBare (field ++ (more.map (',' :: ·)).getD []) = some (field, more) := by
  induction field with
  | nil => cases more <;> rfl
  | cons c field ih =>
    obtain ⟨hcomma, hquote⟩ := hfield c (.head _)
    simp [readBare, hcomma, hquote, ih fun c hc => hfield c (.tail _ hc)]

/-! ## Fields -/

/-- Whether a field is read back as it was written. -/
def Readable (field : List Char) : Prop := needsQuotes field = true ∨ trim field = field

instance (field : List Char) : Decidable (Readable field) := inferInstanceAs (Decidable (_ ∨ _))

/-- What is read of a field that was written. -/
def readBack (field : List Char) : List Char := if needsQuotes field then field else trim field

theorem readBack_eq_iff {field : List Char} : readBack field = field ↔ Readable field := by
  rw [readBack, Readable]
  cases needsQuotes field <;> simp

theorem blank_of_asciiBlank {c : Char} (h : isAsciiBlank c = true) :
    isBlank c = true ∧ c ≠ ',' ∧ c ≠ '"' := by
  rw [isAsciiBlank] at h
  simp only [Bool.or_eq_true, beq_iff_eq] at h
  rcases h with (((rfl | rfl) | rfl) | rfl) | rfl <;> decide

section

variable {lead : List Char} (hlead : ∀ c ∈ lead, isAsciiBlank c = true)

include hlead

/-- What stands between quotes is read back, up to the comma behind it. -/
theorem readField_quoted (field : List Char) (more : Option (List Char)) :
    readField (lead ++ ('"' :: doubleQuotes field ++ ['"']) ++ (more.map (',' :: ·)).getD [])
      = some (field, more) := by
  have htail : ((more.map (',' :: ·)).getD []).head? ≠ some '"' := by cases more <;> simp
  have hdrop : (lead ++ ('"' :: doubleQuotes field ++ ['"']) ++
      (more.map (',' :: ·)).getD []).dropWhile isAsciiBlank
        = '"' :: (doubleQuotes field ++ '"' :: (more.map (',' :: ·)).getD []) := by
    rw [List.append_assoc, List.dropWhile_append_of_pos hlead, List.cons_append, List.cons_append,
      List.dropWhile_cons_of_neg (by decide), List.append_assoc, List.singleton_append]
  rw [readField, hdrop]
  simp only [readQuoted_append field htail]
  cases more <;> rfl

/-- What stands there without quotes is trimmed. -/
theorem readField_bare {field : List Char} (hquotes : needsQuotes field = false)
    (more : Option (List Char)) :
    readField (lead ++ field ++ (more.map (',' :: ·)).getD []) = some (trim field, more) := by
  have hplain := needsQuotes_eq_false.1 hquotes
  have hbare : ∀ c ∈ lead ++ field, c ≠ ',' ∧ c ≠ '"' := by
    intro c hc
    rcases List.mem_append.1 hc with hc | hc
    · exact (blank_of_asciiBlank (hlead c hc)).2
    · exact ⟨(hplain c hc).1, (hplain c hc).2.1⟩
  have htrim : trim (lead ++ field) = trim field := by
    rw [trim, Text.trimStart_append fun c hc => (blank_of_asciiBlank (hlead c hc)).1, ← trim]
  rw [readField]
  split
  · next rest heq =>
    -- no quote comes first
    exfalso
    rw [List.append_assoc, List.dropWhile_append_of_pos hlead] at heq
    cases field with
    | nil => cases more <;> simp [isAsciiBlank] at heq
    | cons c field =>
      obtain ⟨_, hquote, _, hblank⟩ := hplain c (.head _)
      rw [List.cons_append, List.dropWhile_cons_of_neg (by rw [hblank]; exact Bool.false_ne_true)] at heq
      exact hquote (List.cons.inj heq).1
  · rw [readBare_append hbare, Option.map_some]
    show some (trim (lead ++ field), more) = some (trim field, more)
    rw [htrim]

end

/-! ## Lines -/

/-- Whether a field is written without quotes and read back. -/
def Bare (field : List Char) : Prop := needsQuotes field = false ∧ trim field = field

theorem Bare.writeField_eq {field : List Char} (h : Bare field) : writeField field = field := by
  rw [writeField, h.1, if_neg Bool.false_ne_true]

theorem bare_of_plain {field : List Char}
    (h : ∀ c ∈ field, needsQuotes [c] = false ∧ isBlank c = false) : Bare field := by
  refine ⟨needsQuotes_eq_false.2 fun c hc => ?_, ?_⟩
  · exact needsQuotes_eq_false.1 (h c hc).1 c (.head _)
  · by_cases hne : field = []
    · rw [hne]
      rfl
    · refine Tight.trim_eq ⟨⟨field.head hne, List.head?_eq_some_head hne, ?_⟩,
        field.getLast hne, List.getLast?_eq_some_getLast hne, ?_⟩
      · exact (h _ (List.head_mem hne)).2
      · exact (h _ (List.getLast_mem hne)).2

theorem bare_hex (bytes : Text.Bytes) : Bare (Text.Hex.encode bytes).toList := by
  have hdigit : ∀ n < 16, needsQuotes [Text.Hex.upperDigit n] = false ∧
      isBlank (Text.Hex.upperDigit n) = false := by decide
  refine bare_of_plain fun c hc => ?_
  obtain ⟨n, hn, rfl⟩ := Text.Hex.mem_encode hc
  exact hdigit n hn

/-- Letters and digits need no quotes. -/
theorem bare_of_isCode {code : String} (h : Types.isCode code = true) : Bare code.toList := by
  have hascii : ∀ n < 128, ('a' ≤ Char.ofNat n && Char.ofNat n ≤ 'z' || Text.isDigit (Char.ofNat n))
      = true → needsQuotes [Char.ofNat n] = false ∧ isBlank (Char.ofNat n) = false := by decide
  refine bare_of_plain fun c hc => ?_
  rw [Types.isCode, Bool.and_eq_true, List.all_eq_true] at h
  have hletter := h.2 c hc
  have hlt : c.toNat < 128 := by
    simp only [Text.isDigit, Bool.or_eq_true, Bool.and_eq_true, decide_eq_true_eq] at hletter
    rcases hletter with ⟨_, hle⟩ | ⟨_, hle⟩
    · exact Nat.lt_of_le_of_lt (show c.toNat ≤ 122 from hle) (by decide)
    · exact Nat.lt_of_le_of_lt (show c.toNat ≤ 57 from hle) (by decide)
  have hplain := hascii c.toNat hlt
  rw [Char.ofNat_toNat] at hplain
  exact hplain hletter

theorem mem_of_mem_doubleQuotes {field : List Char} {c : Char} (h : c ∈ doubleQuotes field) :
    c ∈ field := by
  induction field with
  | nil => exact h
  | cons e rest ih =>
    rw [doubleQuotes] at h
    split at h <;> grind

theorem mem_writeField {field : List Char} {c : Char} (h : c ∈ writeField field) :
    c ∈ field ∨ c = '"' := by
  rw [writeField] at h
  split at h
  · rw [List.cons_append, List.mem_cons, List.mem_append, List.mem_singleton] at h
    rcases h with h | h | h
    · exact .inr h
    · exact .inl (mem_of_mem_doubleQuotes h)
    · exact .inr h
  · exact .inl h

/-- What is behind the last comma of a line when it has been trimmed. -/
def lastPart (data : List Char) : List Char := if data = [] then [] else ' ' :: data

/-- Whether a text at the front of a line is read as a field, and starts neither with white space nor
like a comment. -/
structure Reads (front field : List Char) : Prop where
  head : ∀ c ∈ front.head?, isBlank c = false ∧ c ≠ '#'
  read : ∀ more, readField (front ++ ',' :: more) = some (field, some more)

/-- Any field can be written between quotes. -/
theorem reads_quoted (field : List Char) : Reads ('"' :: doubleQuotes field ++ ['"']) field := by
  refine ⟨fun c hc => ?_, fun more => ?_⟩
  · obtain rfl : '"' = c := Option.some.inj hc
    exact ⟨by decide, by decide⟩
  · have h := @readField_quoted [] (by simp) field (some more)
    simpa using h

/-- A field without quotes is trimmed, by the time that its line is. -/
theorem reads_bare {field : List Char} (hquotes : needsQuotes field = false) :
    Reads (Text.trimStart field) (trim field) := by
  have hplain := needsQuotes_eq_false.1 hquotes
  have hsub : ∀ c ∈ Text.trimStart field, IsPlain c := fun c hc =>
    hplain c ((List.dropWhile_suffix isBlank).subset hc)
  refine ⟨fun c hc => ⟨Text.head?_dropWhile hc, (hsub c (List.mem_of_mem_head? hc)).2.2.1⟩,
    fun more => ?_⟩
  have h := @readField_bare [] (by simp) _ (needsQuotes_eq_false.2 hsub) (some more)
  have htrim : trim (Text.trimStart field) = trim field := by
    rw [trim, trim, Text.trimStart, Text.trimStart, List.dropWhile_idempotent]
  rw [htrim] at h
  simpa using h

/-- What is written of a field is read back, if the line is trimmed. -/
theorem exists_reads (field : List Char) : ∃ blanks front, writeField field = blanks ++ front ∧
    (∀ c ∈ blanks, isBlank c = true) ∧ Reads front (readBack field) := by
  rw [writeField, readBack]
  cases hquotes : needsQuotes field with
  | true => exact ⟨[], _, rfl, by simp, reads_quoted field⟩
  | false =>
    refine ⟨field.takeWhile isBlank, Text.trimStart field, ?_, fun c hc => List.mem_takeWhile_imp hc,
      reads_bare hquotes⟩
    exact (List.takeWhile_append_dropWhile).symm

/-- Whether a line is neither blank nor a comment, and has these fields. -/
structure Has (line : String) (fields : List String) : Prop where
  head : ∃ c, (Text.trimmed line).toList.head? = some c ∧ c ≠ '#'
  split : split (Text.trimmed line) = some fields

section

variable {front name code data : List Char} (hname : Reads front name) (hcode : Bare code)
  (hdata : Bare data)

include hname

theorem Reads.head?_line (tail : List Char) :
    ∃ c, (front ++ ',' :: tail).head? = some c ∧ isBlank c = false ∧ c ≠ '#' := by
  cases hfront : front with
  | nil => exact ⟨',', rfl, by decide, by decide⟩
  | cons c rest =>
    obtain ⟨hblank, hhash⟩ := hname.head c (by rw [hfront]; rfl)
    exact ⟨c, rfl, hblank, hhash⟩

include hdata

theorem trim_line :
    trim (front ++ ',' :: ' ' :: (code ++ ',' :: ' ' :: data))
      = front ++ ',' :: ' ' :: (code ++ ',' :: lastPart data) := by
  obtain ⟨c, hc, hblank, -⟩ := hname.head?_line (' ' :: (code ++ ',' :: lastPart data))
  by_cases hne : data = []
  · -- the blank at the end is trimmed away
    have htight : Tight (front ++ ',' :: ' ' :: (code ++ ',' :: lastPart data)) := by
      refine ⟨⟨c, hc, hblank⟩, ',', ?_, by decide⟩
      rw [lastPart, if_pos hne]
      simp [List.getLast?_append, List.getLast?_cons]
    have htrim := htight.trim_between (a := []) (b := [' ']) (by simp)
      (List.forall_mem_singleton.2 (by decide))
    rw [← htrim, lastPart, if_pos hne, hne]
    simp
  · have htight : Tight (front ++ ',' :: ' ' :: (code ++ ',' :: lastPart data)) := by
      have hlast := (Text.tight_trim (hdata.2.symm ▸ hne)).2
      rw [hdata.2] at hlast
      obtain ⟨e, he, hblank'⟩ := hlast
      refine ⟨⟨c, hc, hblank⟩, e, ?_, hblank'⟩
      rw [lastPart, if_neg hne]
      simp [List.getLast?_append, List.getLast?_cons, he]
    rw [← htight.trim_eq, lastPart, if_neg hne]

include hcode

theorem readFields_line (fuel : Nat) :
    readFields (fuel + 3) (front ++ ',' :: ' ' :: (code ++ ',' :: lastPart data))
      = some [name, code, data] := by
  have hblank : ∀ c ∈ [' '], isAsciiBlank c = true := List.forall_mem_singleton.2 rfl
  have hsecond := readField_bare hblank hcode.1 (some (lastPart data))
  have hthird : readField (lastPart data) = some (data, none) := by
    by_cases hne : data = []
    · rw [lastPart, if_pos hne, hne]
      rfl
    · have h := readField_bare hblank hdata.1 none
      rw [hdata.2] at h
      rw [lastPart, if_neg hne]
      simpa using h
  rw [hcode.2] at hsecond
  simp only [List.cons_append, List.nil_append, Option.map_some, Option.getD_some] at hsecond
  rw [readFields, hname.read]
  simp only
  rw [readFields, hsecond]
  simp only
  rw [readFields, hthird]
  rfl

/-- **The fields of a line are read back.** Blanks before the first one do not matter. -/
theorem Reads.has {blanks : List Char} (hblanks : ∀ c ∈ blanks, isBlank c = true) :
    Has (String.ofList (blanks ++ front ++ ',' :: ' ' :: (code ++ ',' :: ' ' :: data)))
      [String.ofList name, String.ofList code, String.ofList data] := by
  have htrimmed : Text.trimmed (String.ofList
      (blanks ++ front ++ ',' :: ' ' :: (code ++ ',' :: ' ' :: data)))
        = String.ofList (front ++ ',' :: ' ' :: (code ++ ',' :: lastPart data)) := by
    rw [Text.trimmed, String.toList_ofList, List.append_assoc, trim, Text.trimStart_append hblanks,
      ← trim, trim_line hname hdata]
  have hfuel : (front ++ ',' :: ' ' :: (code ++ ',' :: lastPart data)).length + 1
      = front.length + code.length + (lastPart data).length + 1 + 3 := by
    simp only [List.length_append, List.length_cons]
    omega
  constructor
  · obtain ⟨c, hc, -, hhash⟩ := hname.head?_line (' ' :: (code ++ ',' :: lastPart data))
    rw [htrimmed, String.toList_ofList]
    exact ⟨c, hc, hhash⟩
  · rw [htrimmed, Csv.split, String.toList_ofList, String.length_ofList, hfuel,
      readFields_line hname hcode hdata]
    rfl

end

/-- What is written in a line is read back. -/
theorem has_write (name : String) {code data : String} (hcode : Bare code.toList)
    (hdata : Bare data.toList) :
    Has (write [name, code, data]) [String.ofList (readBack name.toList), code, data] := by
  obtain ⟨blanks, front, hwrite, hblanks, hreads⟩ := exists_reads name.toList
  have h := hreads.has hcode hdata hblanks
  rw [← hwrite, String.ofList_toList, String.ofList_toList] at h
  rw [write]
  simp only [List.map_cons, List.map_nil, writeFields, hcode.writeField_eq, hdata.writeField_eq]
  exact h

/-! ## Lines that can be read -/

theorem doubleQuotes_append (a b : List Char) :
    doubleQuotes (a ++ b) = doubleQuotes a ++ doubleQuotes b := by
  induction a with
  | nil => rfl
  | cons c a ih =>
    rw [List.cons_append, doubleQuotes, doubleQuotes, ih]
    split <;> rfl

theorem count_doubleQuotes (field : List Char) :
    (doubleQuotes field).count '"' = 2 * field.count '"' := by
  induction field with
  | nil => rfl
  | cons c field ih =>
    rw [doubleQuotes]
    by_cases hc : c = '"'
    · subst hc
      rw [if_pos (by decide), List.count_cons_self, List.count_cons_self, List.count_cons_self, ih]
      omega
    · rw [if_neg (by simpa using hc), List.count_cons_of_ne hc, List.count_cons_of_ne hc, ih]

/-- The quote that closes a text leaves an even number of quotes before it. -/
theorem readQuoted_eq_some {s text rest : List Char} (h : readQuoted s = some (text, rest)) :
    text ⊆ s ∧ rest ⊆ s ∧ s.count '"' % 2 = (rest.count '"' + 1) % 2 := by
  fun_induction readQuoted s generalizing text rest with
  | case1 => cases h
  | case2 s ih =>
    obtain ⟨⟨text', rest'⟩, hread, heq⟩ := Option.map_eq_some_iff.1 h
    cases heq
    obtain ⟨htext, hrest, hcount⟩ := ih hread
    refine ⟨?_, ?_, ?_⟩
    · grind
    · grind
    · rw [List.count_cons_self, List.count_cons_self]
      omega
  | case3 c s _ hc =>
    cases h
    obtain rfl : c = '"' := by simpa using hc
    exact ⟨List.nil_subset _, List.subset_cons_self _ _, by rw [List.count_cons_self]⟩
  | case4 c s _ hc ih =>
    obtain ⟨⟨text', rest'⟩, hread, heq⟩ := Option.map_eq_some_iff.1 h
    cases heq
    obtain ⟨htext, hrest, hcount⟩ := ih hread
    refine ⟨List.cons_subset_cons c htext, fun e he => .tail c (hrest he), ?_⟩
    rw [List.count_cons_of_ne (by simpa using hc), hcount]

/-- No quote is passed over without another one. -/
theorem readBare_eq_some {s text : List Char} {more : Option (List Char)}
    (h : readBare s = some (text, more)) :
    text ⊆ s ∧ more.getD [] ⊆ s ∧ s.count '"' = (more.getD []).count '"' := by
  fun_induction readBare s generalizing text with
  | case1 =>
    cases h
    exact ⟨List.nil_subset _, List.nil_subset _, rfl⟩
  | case2 c s hc =>
    cases h
    obtain rfl : c = ',' := by simpa using hc
    exact ⟨List.nil_subset _, List.subset_cons_self _ _, List.count_cons_of_ne (by decide)⟩
  | case3 => cases h
  | case4 c s _ hc ih =>
    obtain ⟨⟨text', more'⟩, hread, heq⟩ := Option.map_eq_some_iff.1 h
    cases heq
    obtain ⟨htext, hmore, hcount⟩ := ih hread
    refine ⟨List.cons_subset_cons c htext, fun e he => .tail c (hmore he), ?_⟩
    rw [List.count_cons_of_ne (by simpa using hc), hcount]

theorem readField_eq_some {s field : List Char} {more : Option (List Char)}
    (h : readField s = some (field, more)) :
    field ⊆ s ∧ more.getD [] ⊆ s ∧ s.count '"' % 2 = (more.getD []).count '"' % 2 := by
  have hdrop : ∀ t : List Char, (t.dropWhile isAsciiBlank).count '"' = t.count '"' :=
    Text.count_dropWhile (by decide)
  have hsub : ∀ t : List Char, t.dropWhile isAsciiBlank ⊆ t := fun t =>
    (List.dropWhile_suffix isAsciiBlank).subset
  -- a quoted field takes two quotes beside those that it doubles, a bare one takes none
  rw [readField] at h
  split at h
  · next rest hstart =>
    have hcount := hdrop s
    have hs := hsub s
    rw [hstart] at hcount hs
    rw [List.count_cons_self] at hcount
    split at h
    · cases h
    · next text after hread =>
      obtain ⟨htext, hafter, hquotes⟩ := readQuoted_eq_some hread
      have hafterCount := hdrop after
      have hafterSub := hsub after
      split at h
      · next hend =>
        cases h
        rw [hend, List.count_nil] at hafterCount
        exact ⟨fun c hc => hs (.tail _ (htext hc)), List.nil_subset _, by
          rw [Option.getD_none, List.count_nil]
          omega⟩
      · next rest' hend =>
        cases h
        rw [hend] at hafterCount hafterSub
        rw [List.count_cons_of_ne (by decide)] at hafterCount
        exact ⟨fun c hc => hs (.tail _ (htext hc)),
          fun c hc => hs (.tail _ (hafter (hafterSub (.tail _ hc)))), by
            rw [Option.getD_some]
            omega⟩
      · cases h
  · obtain ⟨⟨text, more'⟩, hread, heq⟩ := Option.map_eq_some_iff.1 h
    cases heq
    obtain ⟨htext, hmore, hcount⟩ := readBare_eq_some hread
    exact ⟨fun c hc => htext (Text.mem_of_mem_trim hc), hmore, by rw [hcount]⟩

theorem readFields_eq_some {fuel : Nat} {s : List Char} {fields : List (List Char)}
    (h : readFields fuel s = some fields) :
    (∀ field ∈ fields, field ⊆ s) ∧ s.count '"' % 2 = 0 := by
  induction fuel generalizing s fields with
  | zero => cases h
  | succ fuel ih =>
    rw [readFields] at h
    split at h
    · cases h
    · next field hread =>
      cases h
      obtain ⟨hfield, -, hcount⟩ := readField_eq_some hread
      exact ⟨List.forall_mem_singleton.2 hfield, hcount⟩
    · next field rest hread =>
      obtain ⟨fields', hrest, rfl⟩ := Option.map_eq_some_iff.1 h
      obtain ⟨hfield, hsub, hcount⟩ := readField_eq_some hread
      obtain ⟨hfields, heven⟩ := ih hrest
      refine ⟨List.forall_mem_cons.2 ⟨hfield, fun f hf c hc => hsub (hfields f hf hc)⟩, ?_⟩
      rw [hcount]
      exact heven

/-- **A line that can be read has quotes in pairs**, and its fields consist of what stands in it. -/
theorem split_trimmed_eq_some {line : String} {fields : List String}
    (h : split (Text.trimmed line) = some fields) :
    (∀ field ∈ fields, field.toList ⊆ line.toList) ∧ line.toList.count '"' % 2 = 0 := by
  obtain ⟨read, hread, rfl⟩ := Option.map_eq_some_iff.1 h
  obtain ⟨hfields, hcount⟩ := readFields_eq_some hread
  rw [Text.trimmed, String.toList_ofList] at hfields hcount
  rw [Text.count_trim (by decide)] at hcount
  refine ⟨fun field hfield c hc => ?_, hcount⟩
  obtain ⟨f, hf, rfl⟩ := List.mem_map.1 hfield
  rw [String.toList_ofList] at hc
  exact Text.mem_of_mem_trim (hfields f hf hc)

/-! ## Lines of any number of fields -/

theorem readField_written {lead : List Char} (hlead : ∀ c ∈ lead, isAsciiBlank c = true)
    (field : List Char) (more : Option (List Char)) :
    readField (lead ++ writeField field ++ (more.map (',' :: ·)).getD []) = some (readBack field, more) := by
  rw [writeField, readBack]
  cases hquotes : needsQuotes field with
  | true => exact readField_quoted hlead field more
  | false => exact readField_bare hlead hquotes more

/-- **All fields of a line are read**, with blanks before the first one. -/
theorem readFields_writeFields {fields : List (List Char)} (hne : fields ≠ []) (lead : List Char)
    (hlead : ∀ c ∈ lead, isAsciiBlank c = true) {fuel : Nat} (hfuel : fields.length ≤ fuel) :
    readFields fuel (lead ++ writeFields fields) = some (fields.map readBack) := by
  induction fields generalizing lead fuel with
  | nil => exact absurd rfl hne
  | cons field rest ih =>
    obtain ⟨fuel, rfl⟩ := Nat.exists_eq_add_of_le' (Nat.le_trans (Nat.succ_pos _) hfuel)
    cases rest with
    | nil =>
      have hread := readField_written hlead field none
      rw [Option.map_none, Option.getD_none, List.append_nil] at hread
      rw [writeFields, readFields, hread]
      rfl
    | cons next rest =>
      have hread := readField_written hlead field (some (' ' :: writeFields (next :: rest)))
      have hrest := ih (List.cons_ne_nil _ _) [' '] (List.forall_mem_singleton.2 rfl)
        (Nat.le_of_succ_le_succ hfuel)
      rw [Option.map_some, Option.getD_some, List.append_assoc] at hread
      rw [writeFields, readFields, hread]
      · exact congrArg (Option.map (readBack field :: ·)) hrest
      · exact List.cons_ne_nil _ _

theorem length_le_writeFields (fields : List (List Char)) :
    fields.length ≤ (writeFields fields).length + 1 := by
  fun_induction writeFields fields with
  | case1 => exact Nat.zero_le _
  | case2 field => exact Nat.le_add_left 1 _
  | case3 field rest hrest ih =>
    simp only [List.length_cons, List.length_append]
    omega

/-- **A line has as many fields as were written, and they are the same exactly if those without
quotes have no white space at their ends.** -/
theorem split_write_iff {fields : List String} (hne : fields ≠ []) :
    ∃ read, split (write fields) = some read ∧ read.length = fields.length ∧
      (read = fields ↔
        ∀ field ∈ fields, (∀ c ∈ field.toList, IsPlain c) → Text.trimmed field = field) := by
  have hread := readFields_writeFields (mt List.map_eq_nil_iff.1 hne) [] (by simp)
    (length_le_writeFields (fields.map String.toList))
  refine ⟨fields.map fun field => String.ofList (readBack field.toList), ?_, List.length_map _, ?_⟩
  · rw [split, write, String.toList_ofList, String.length_ofList]
    rw [List.nil_append] at hread
    simp [hread]
  · have hself := @List.map_inj_left _ _ fields (fun f => String.ofList (readBack f.toList)) id
    rw [List.map_id] at hself
    rw [hself]
    refine forall₂_congr fun field _ => ?_
    rw [← needsQuotes_eq_false, Text.trimmed, readBack, id]
    cases needsQuotes field.toList <;> simp

theorem split_write_quotes : ["a, b", ""] ≠ [] ∧ split (write ["a, b", ""]) = some ["a, b", ""] := by
  obtain ⟨read, hread, -, hsame⟩ := split_write_iff (List.cons_ne_nil "a, b" [""])
  refine ⟨List.cons_ne_nil _ _, ?_⟩
  rw [hread, hsame.2]
  refine List.forall_mem_cons.2 ⟨fun hplain => ?_, List.forall_mem_singleton.2 fun _ => rfl⟩
  exact absurd rfl (hplain ',' (by decide)).1

end Storage.Csv

end ScriptStore
