import ScriptStore.Config.LineReader
import ScriptStore.Proofs.Text.Utf8

/-!
# The lines of a text

Reading a source that holds a text without carriage returns and byte order marks gives the pieces
of the text between its line feeds, numbered from one. Of any text a reader hands out as many lines
as there are pieces, with the same numbers, and a line that was given back comes again.
-/

namespace ScriptStore.Config

open Text (Bytes)

/-- The lines of a text. Behind the last line feed there is a line only if something stands
there. -/
def textLines : List Char → List (List Char)
  | [] => []
  | c :: rest =>
    if c = '\n' then [] :: textLines rest
    else match textLines rest with
      | [] => [[c]]
      | line :: lines => (c :: line) :: lines

theorem textLines_append {line : List Char} (h : '\n' ∉ line) (rest : List Char) :
    textLines (line ++ '\n' :: rest) = line :: textLines rest := by
  induction line with
  | nil => simp [textLines]
  | cons c line ih =>
    have hc : c ≠ '\n' := fun heq => h (heq ▸ .head _)
    rw [List.cons_append, textLines, if_neg hc, ih fun hs => h (.tail _ hs)]

theorem textLines_last {line : List Char} (h : '\n' ∉ line) (hne : line ≠ []) :
    textLines line = [line] := by
  induction line with
  | nil => exact absurd rfl hne
  | cons c line ih =>
    have hc : c ≠ '\n' := fun heq => h (heq ▸ .head _)
    rw [textLines, if_neg hc]
    by_cases hline : line = []
    · subst hline
      rfl
    · rw [ih (fun hs => h (.tail _ hs)) hline]

/-- A text starts with a line that a line feed ends, or is a single line. -/
theorem exists_first_line (s : List Char) :
    (∃ line rest, '\n' ∉ line ∧ s = line ++ '\n' :: rest) ∨ '\n' ∉ s := by
  by_cases h : '\n' ∈ s
  · obtain ⟨line, rest, rfl, hline⟩ := List.eq_append_cons_of_mem h
    exact .inl ⟨line, rest, hline, rfl⟩
  · exact .inr h

theorem mem_textLines {s line : List Char} (h : line ∈ textLines s) :
    ∀ c ∈ line, c ∈ s ∧ c ≠ '\n' := by
  induction s generalizing line with
  | nil => simp [textLines] at h
  | cons d s ih =>
    rw [textLines] at h
    split at h
    · next hd =>
      rcases List.mem_cons.1 h with rfl | h
      · simp
      · exact fun c hc => ⟨.tail _ (ih h c hc).1, (ih h c hc).2⟩
    · next hd =>
      split at h
      · intro c hc
        cases List.mem_singleton.1 h
        cases List.mem_singleton.1 hc
        exact ⟨.head _, hd⟩
      · next first more hlines =>
        rcases List.mem_cons.1 h with rfl | h
        · intro c hc
          rcases List.mem_cons.1 hc with rfl | hc
          · exact ⟨.head _, hd⟩
          · have := ih (hlines ▸ .head _) c hc
            exact ⟨.tail _ this.1, this.2⟩
        · have hline : line ∈ textLines s := hlines ▸ .tail _ h
          exact fun c hc => ⟨.tail _ (ih hline c hc).1, (ih hline c hc).2⟩

theorem textLines_ne_nil {s : List Char} (h : s ≠ []) : textLines s ≠ [] := by
  fun_cases textLines s <;> simp_all

theorem length_textLines_le (s : List Char) : (textLines s).length ≤ s.length := by
  fun_induction textLines s with
  | case1 => exact Nat.le_refl 0
  | case2 rest ih => exact Nat.succ_le_succ ih
  | case3 c rest hc hnone ih => exact Nat.succ_le_succ (Nat.zero_le _)
  | case4 c rest hc line lines hlines ih =>
    rw [hlines] at ih
    exact Nat.le_succ_of_le ih

/-- Lines that are all ended are the lines of the text that they make. -/
theorem textLines_flatMap {lines : List (List Char)} (h : ∀ line ∈ lines, '\n' ∉ line) :
    textLines (lines.flatMap (· ++ ['\n'])) = lines := by
  induction lines with
  | nil => rfl
  | cons line lines ih =>
    rw [List.flatMap_cons, List.append_assoc, List.singleton_append,
      textLines_append (h line (.head _)), ih fun l hl => h l (.tail _ hl)]

/-! ## Cutting bytes -/

theorem cutLine_append {front : Bytes} (h : 10 ∉ front) (rest : Bytes) :
    cutLine (front ++ rest) = (front ++ (cutLine rest).1, (cutLine rest).2) := by
  induction front with
  | nil => rfl
  | cons b front ih =>
    have hb : b ≠ 10 := fun heq => h (heq ▸ .head _)
    rw [List.cons_append, cutLine, if_neg (by simpa using hb), ih fun hs => h (.tail _ hs)]
    rfl

theorem feed_not_mem_encode {line : List Char} (h : '\n' ∉ line) : 10 ∉ Text.Utf8.encode line :=
  fun hmem => h (Text.Utf8.mem_encode_ascii hmem (by decide))

theorem cutLine_encode {line : List Char} (h : '\n' ∉ line) (rest : List Char) :
    cutLine (Text.Utf8.encode (line ++ '\n' :: rest))
      = (Text.Utf8.encode line, true, Text.Utf8.encode rest) := by
  have hfeed : Text.Utf8.encode ('\n' :: rest) = 10 :: Text.Utf8.encode rest := rfl
  rw [Text.Utf8.encode_append, cutLine_append (feed_not_mem_encode h), hfeed, cutLine,
    if_pos (by rfl), List.append_nil]

theorem cutLine_encode_last {line : List Char} (h : '\n' ∉ line) :
    cutLine (Text.Utf8.encode line) = (Text.Utf8.encode line, false, []) := by
  have hcut := cutLine_append (feed_not_mem_encode h) []
  rwa [List.append_nil, cutLine, List.append_nil] at hcut

/-! ## Reading -/

/-- The characters that a text may hold for its lines to be read as they are. -/
def IsPlain (c : Char) : Prop := c ≠ '\r' ∧ c ≠ byteOrderMark

theorem dropReturn_eq {line : List Char} (h : line.getLast? ≠ some '\r') (ended : Bool) :
    dropReturn ended line = line := by
  simp [dropReturn, h]

theorem dropMark_eq {line : List Char} (h : line.head? ≠ some byteOrderMark) :
    dropMark line = line := by
  cases line with
  | nil => rfl
  | cons c line =>
    have hc : c ≠ byteOrderMark := fun heq => h (congrArg some heq)
    rw [dropMark, if_neg (by simpa using hc)]

section

variable {line : List Char} (h : ∀ c ∈ line, IsPlain c)

include h

theorem getLast?_ne_of_plain : line.getLast? ≠ some '\r' := fun hlast =>
  (h '\r' (List.mem_of_getLast? hlast)).1 rfl

theorem head?_ne_of_plain : line.head? ≠ some byteOrderMark := fun hhead =>
  (h byteOrderMark (List.mem_of_mem_head? hhead)).2 rfl

end

/-- The reader after a line of the source. -/
def LineReader.after (r : LineReader) (line : List Char) (rest : Bytes) : LineReader :=
  { r with
    rest := rest
    line := some (String.ofList line)
    number := r.number + 1
    seenContent := r.seenContent || !line.isEmpty }

/-- What a reader hands out of a line: without the carriage return before its line feed, and without a
byte order mark if no line before had content. -/
def LineReader.heard (r : LineReader) (ended : Bool) (line : List Char) : List Char :=
  if r.seenContent then dropReturn ended line else dropMark (dropReturn ended line)

theorem LineReader.read_cut {r : LineReader} {line : List Char} {ended : Bool} {rest : Bytes}
    (hheld : r.held = false) (hrest : r.rest ≠ [])
    (hcut : cutLine r.rest = (Text.Utf8.encode line, ended, rest)) :
    r.read = (.ok (some (String.ofList (r.heard ended line))), r.after (r.heard ended line) rest) := by
  rw [LineReader.read, hheld, if_neg (by simp), if_neg (by simpa using hrest), hcut]
  simp only [Text.Utf8.decode_encode, LineReader.heard, LineReader.after, hheld]

theorem LineReader.read_done {r : LineReader} (hheld : r.held = false) (hrest : r.rest = []) :
    r.read = (.ok none, { r with line := none }) := by
  rw [LineReader.read, hheld, hrest]
  rfl

theorem LineReader.heard_of_plain {line : List Char} (h : ∀ c ∈ line, IsPlain c) (r : LineReader)
    (ended : Bool) : r.heard ended line = line := by
  rw [LineReader.heard, dropReturn_eq (getLast?_ne_of_plain h), dropMark_eq (head?_ne_of_plain h),
    ite_self]

/-! ## Ended lines

Inside a line a carriage return or a byte order mark is a character like any other. -/

/-- Whether a line is read as it is when a line feed ends it, wherever it stands. -/
structure Kept (line : List Char) : Prop where
  feed : '\n' ∉ line
  ending : line.getLast? ≠ some '\r'
  start : line.head? ≠ some byteOrderMark

theorem kept_of_plain {line : List Char} (h : ∀ c ∈ line, c ≠ '\n' ∧ IsPlain c) : Kept line where
  feed hfeed := (h _ hfeed).1 rfl
  ending := getLast?_ne_of_plain fun c hc => (h c hc).2
  start := head?_ne_of_plain fun c hc => (h c hc).2

/-- What is read of lines that are all ended, given whether there was content before them. -/
def received (seen : Bool) : List (List Char) → List (List Char)
  | [] => []
  | line :: rest =>
    let line := if seen then dropReturn true line else dropMark (dropReturn true line)
    line :: received (seen || !line.isEmpty) rest

theorem received_of_kept {lines : List (List Char)} (h : ∀ line ∈ lines, Kept line) (seen : Bool) :
    received seen lines = lines := by
  induction lines generalizing seen with
  | nil => rfl
  | cons line rest ih =>
    obtain ⟨hline, hrest⟩ := List.forall_mem_cons.1 h
    rw [received, dropReturn_eq hline.ending, dropMark_eq hline.start, ite_self, ih hrest]

/-- **Lines that are all ended are read one by one, each without what the reader drops.** -/
theorem readLines_received {lines : List (List Char)} (h : ∀ line ∈ lines, '\n' ∉ line) {fuel : Nat}
    {r : LineReader} (hheld : r.held = false)
    (hrest : r.rest = Text.Utf8.encode (lines.flatMap (· ++ ['\n']))) (hfuel : lines.length ≤ fuel) :
    readLines fuel r = .ok ((List.range' (r.number + 1) lines.length).zip
      ((received r.seenContent lines).map String.ofList)) := by
  induction lines generalizing fuel r with
  | nil =>
    cases fuel with
    | zero => rfl
    | succ fuel =>
      rw [readLines, LineReader.read_done hheld hrest]
      rfl
  | cons line lines ih =>
    cases fuel with
    | zero => cases hfuel
    | succ fuel =>
      obtain ⟨hline, hlines⟩ := List.forall_mem_cons.1 h
      rw [List.flatMap_cons, List.append_assoc, List.singleton_append] at hrest
      have hne : r.rest ≠ [] := by
        rw [hrest, Ne, Text.Utf8.encode_eq_nil_iff]
        simp
      have hread := LineReader.read_cut hheld hne (hrest ▸ cutLine_encode hline _)
      have htail := ih hlines (r := r.after (r.heard true line)
        (Text.Utf8.encode (lines.flatMap (· ++ ['\n'])))) hheld rfl (Nat.le_of_succ_le_succ hfuel)
      rw [readLines, hread]
      simp only [htail]
      rw [List.length_cons, List.range'_succ]
      rfl

/-! ## Any source

Whatever bytes a source has, if its lines can be read they are numbered one by one, and no line feed is
left in them. -/

theorem feed_not_mem_cutLine (bytes : Bytes) : 10 ∉ (cutLine bytes).1 := by
  induction bytes with
  | nil => exact List.not_mem_nil
  | cons b rest ih =>
    rw [cutLine]
    split
    · exact List.not_mem_nil
    · next hb =>
        intro hmem
        rcases List.mem_cons.1 hmem with heq | hmem
        · exact hb (beq_iff_eq.2 heq.symm)
        · exact ih hmem

theorem mem_of_mem_dropReturn {ended : Bool} {line : List Char} {c : Char}
    (h : c ∈ dropReturn ended line) : c ∈ line := by
  rw [dropReturn] at h
  split at h
  · exact (List.dropLast_sublist line).subset h
  · exact h

theorem mem_of_mem_dropMark {line : List Char} {c : Char} (h : c ∈ dropMark line) : c ∈ line := by
  cases line with
  | nil => exact h
  | cons d rest =>
    rw [dropMark] at h
    split at h
    · exact .tail _ h
    · exact h

theorem LineReader.mem_of_mem_heard {r : LineReader} {ended : Bool} {line : List Char} {c : Char}
    (h : c ∈ r.heard ended line) : c ∈ line := by
  rw [LineReader.heard] at h
  split at h
  · exact mem_of_mem_dropReturn h
  · exact mem_of_mem_dropReturn (mem_of_mem_dropMark h)

/-- A line that is handed out is the next one, without a line feed. -/
theorem LineReader.read_spec {r r' : LineReader} {line : String} (hheld : r.held = false)
    (h : r.read = (.ok (some line), r')) :
    r'.held = false ∧ r'.number = r.number + 1 ∧ '\n' ∉ line.toList := by
  by_cases hrest : r.rest = []
  · rw [LineReader.read, hheld, hrest] at h
    cases h
  · cases hdecode : Text.Utf8.decode (cutLine r.rest).1 with
    | error f =>
      rw [LineReader.read, hheld, if_neg (by simp), if_neg (by simpa using hrest)] at h
      simp only [hdecode] at h
      cases h
    | ok chars =>
      have hbytes : Text.Utf8.encode chars = (cutLine r.rest).1 :=
        Text.Utf8.encode_of_pieces (Text.Utf8.pieces_of_collect hdecode)
      have hread := LineReader.read_cut hheld hrest (Prod.ext hbytes.symm rfl)
      rw [hread] at h
      cases h
      refine ⟨hheld, rfl, fun hmem => feed_not_mem_cutLine r.rest ?_⟩
      rw [String.toList_ofList] at hmem
      rw [← hbytes]
      exact List.mem_flatMap.2 ⟨'\n', LineReader.mem_of_mem_heard hmem, List.mem_singleton_self 10⟩

theorem readLines_spec {fuel : Nat} {r : LineReader} {lines : List (Nat × String)}
    (hheld : r.held = false) (h : readLines fuel r = .ok lines) :
    lines.map (·.1) = List.range' (r.number + 1) lines.length ∧ ∀ e ∈ lines, '\n' ∉ e.2.toList := by
  induction fuel generalizing r lines with
  | zero =>
    cases h
    exact ⟨rfl, fun e he => absurd he List.not_mem_nil⟩
  | succ fuel ih =>
    rw [readLines] at h
    split at h
    · cases h
    · cases h
      exact ⟨rfl, fun e he => absurd he List.not_mem_nil⟩
    · next line r' hread =>
        obtain ⟨hheld', hnumber, hfeed⟩ := LineReader.read_spec hheld hread
        cases hrest : readLines fuel r' with
        | error e => rw [hrest] at h; cases h
        | ok rest =>
          rw [hrest] at h
          cases h
          obtain ⟨hnumbers, hfeeds⟩ := ih hheld' hrest
          refine ⟨?_, List.forall_mem_cons.2 ⟨hfeed, hfeeds⟩⟩
          rw [List.map_cons, hnumbers, hnumber, List.length_cons, List.range'_succ]

/-- **The lines of a source are numbered from one, and hold no line feed.** -/
theorem sourceLines_spec {source : Bytes} {lines : List (Nat × String)}
    (h : sourceLines source = .ok lines) :
    lines.map (·.1) = List.range' 1 lines.length ∧ ∀ e ∈ lines, '\n' ∉ e.2.toList :=
  readLines_spec (r := .ofBytes source) rfl h

/-! ## Handing out lines -/

/-- The reader hands out these lines one after another, and then no more. -/
inductive Delivers : LineReader → List (Nat × String) → Prop
  | done {r : LineReader} (hheld : r.held = false) (hrest : r.rest = []) : Delivers r []
  | line {r r' : LineReader} {line : String} {lines : List (Nat × String)}
      (hread : r.read = (.ok (some line), r')) (hheld : r'.held = false)
      (hline : r'.line = some line) (h : Delivers r' lines) :
      Delivers r ((r'.number, line) :: lines)

/-- **A reader hands out the lines of a text, numbered one by one,** and as they are if the text is
plain. -/
theorem exists_delivers (n : Nat) {s : List Char} (hn : s.length ≤ n) {r : LineReader}
    (hheld : r.held = false) (hrest : r.rest = Text.Utf8.encode s) :
    ∃ lines, Delivers r lines ∧
      lines.map (·.1) = List.range' (r.number + 1) (textLines s).length ∧
      ((∀ c ∈ s, IsPlain c) → lines.map (·.2) = (textLines s).map String.ofList) := by
  induction n generalizing s r with
  | zero =>
    obtain rfl := List.length_eq_zero_iff.1 (Nat.le_zero.1 hn)
    exact ⟨[], .done hheld hrest, rfl, fun _ => rfl⟩
  | succ n ih =>
    by_cases hs : s = []
    · subst hs
      exact ⟨[], .done hheld hrest, rfl, fun _ => rfl⟩
    · have hne : r.rest ≠ [] := by rwa [hrest, Ne, Text.Utf8.encode_eq_nil_iff]
      -- the first line ends in a line feed, or it is the last one and has no end
      rcases exists_first_line s with ⟨first, rest, hfirst, rfl⟩ | hlast
      · have hread := LineReader.read_cut hheld hne (hrest ▸ cutLine_encode hfirst rest)
        have hlength : rest.length ≤ n := by
          simp only [List.length_append, List.length_cons] at hn
          omega
        obtain ⟨lines, hlines, hnumbers, htexts⟩ := ih hlength
          (r := r.after (r.heard true first) (Text.Utf8.encode rest)) hheld rfl
        refine ⟨_, .line hread hheld rfl hlines, ?_, fun hplain => ?_⟩
        · rw [List.map_cons, hnumbers, textLines_append hfirst, List.length_cons, List.range'_succ]
          rfl
        · obtain ⟨hplain₁, hplain₂⟩ := List.forall_mem_append.1 hplain
          rw [List.map_cons, htexts fun c hc => hplain₂ c (.tail _ hc),
            LineReader.heard_of_plain hplain₁, textLines_append hfirst, List.map_cons]
      · have hread := LineReader.read_cut hheld hne (by rw [hrest, cutLine_encode_last hlast])
        rw [textLines_last hlast hs]
        refine ⟨_, .line hread hheld rfl (.done hheld rfl), rfl, fun hplain => ?_⟩
        rw [List.map_singleton, LineReader.heard_of_plain hplain, List.map_singleton]

theorem Delivers.readLines_eq {r : LineReader} {lines : List (Nat × String)} (h : Delivers r lines)
    {fuel : Nat} (hfuel : lines.length ≤ fuel) : readLines fuel r = .ok lines := by
  induction h generalizing fuel with
  | done hheld hrest =>
    cases fuel with
    | zero => rfl
    | succ fuel => rw [readLines, LineReader.read_done hheld hrest]
  | line hread hheld hline h ih =>
    cases fuel with
    | zero => exact absurd hfuel (Nat.not_succ_le_zero _)
    | succ fuel =>
      rw [readLines, hread]
      simp only [ih (Nat.le_of_succ_le_succ hfuel)]

/-- A line that was handed out can be given back, and is handed out again. -/
theorem Delivers.reset {r : LineReader} {line : String} {lines : List (Nat × String)}
    (h : Delivers r lines) (hheld : r.held = false) (hline : r.line = some line) :
    r.reset = (.ok (), { r with held := true }) ∧
      Delivers { r with held := true } ((r.number, line) :: lines) := by
  refine ⟨by rw [LineReader.reset, hheld]; rfl, .line ?_ hheld hline h⟩
  obtain ⟨rest, current, number, held, seen⟩ := r
  obtain rfl : held = false := hheld
  rw [LineReader.read, if_pos rfl]
  exact Prod.ext (congrArg Except.ok hline) rfl

theorem Delivers.sourceLines_eq {s : String} {lines : List (Nat × String)}
    (h : Delivers (LineReader.ofBytes (Text.toBytes s)) lines)
    (hnumbers : lines.map (·.1) = List.range' 1 (textLines s.toList).length) :
    sourceLines (Text.toBytes s) = .ok lines := by
  have hlength := congrArg List.length hnumbers
  rw [List.length_map, List.length_range'] at hlength
  have hfuel : lines.length ≤ (Text.toBytes s).length := by
    rw [hlength]
    exact Nat.le_trans (length_textLines_le _) (Text.Utf8.length_le_encode _)
  exact h.readLines_eq hfuel

/-- The lines of a source are numbered from one on, and there are as many as its text has. -/
theorem exists_sourceLines (s : String) :
    ∃ lines, sourceLines (Text.toBytes s) = .ok lines ∧
      Delivers (LineReader.ofBytes (Text.toBytes s)) lines ∧
      lines.map (·.1) = List.range' 1 (textLines s.toList).length := by
  obtain ⟨lines, hlines, hnumbers, -⟩ := exists_delivers s.toList.length (Nat.le_refl _)
    (r := LineReader.ofBytes (Text.toBytes s)) rfl rfl
  exact ⟨lines, hlines.sourceLines_eq hnumbers, hlines, hnumbers⟩

/-- **The lines of a source are the lines of its text.** -/
theorem sourceLines_toBytes {s : String} (hplain : ∀ c ∈ s.toList, IsPlain c) :
    sourceLines (Text.toBytes s) = .ok ((List.range' 1 (textLines s.toList).length).zip
      ((textLines s.toList).map String.ofList)) := by
  obtain ⟨lines, hlines, hnumbers, htexts⟩ := exists_delivers s.toList.length (Nat.le_refl _)
    (r := LineReader.ofBytes (Text.toBytes s)) rfl rfl
  rw [hlines.sourceLines_eq hnumbers]
  exact congrArg Except.ok (List.zip_of_prod hnumbers (htexts hplain))

end ScriptStore.Config
