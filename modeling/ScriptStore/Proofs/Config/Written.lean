import Mathlib
import ScriptStore.Proofs.Config.LineReader
import ScriptStore.Proofs.Config.Reading

/-!
# Written lines

A node is written as a line: the indentation of its level, its body, and the comment behind a blank.
The value of that line trims to the body. Where lines are kept whole, or are cut at a colon, the body of
a leaf gives the leaf again, although it need not be the text that the leaf came from. And lines that
are all ended by line feeds are read one by one.
-/

namespace ScriptStore.Config

open Text (isBlank trim Tight)

/-! ## Levels -/

mutual

theorem Node.setLevel_setLevel (a b : Nat) : ∀ n : Node, (n.setLevel a).setLevel b = n.setLevel b
  | .leaf h content => rfl
  | .block h index level nodes => by
      rw [Node.setLevel, Node.setLevel, Node.setLevel, setLevels_setLevels]

theorem setLevels_setLevels (a b : Nat) :
    ∀ nodes : List Node, setLevels b (setLevels a nodes) = setLevels b nodes
  | [] => rfl
  | n :: rest => by
      rw [setLevels, setLevels, setLevels, Node.setLevel_setLevel a b n, setLevels_setLevels a b rest]

end

theorem setLevels_ofNodes (level : Nat) (nodes : List Node) :
    setLevels level (Section.ofNodes nodes).nodes = setLevels level nodes := by
  rw [Section.ofNodes, ← setLevels_eq_map, setLevels_setLevels]

theorem setLevel_ofSection (level : Nat) (key comment : String) (line : Option Nat)
    (nodes : List Node) :
    (Node.ofSection key comment line (.ofNodes nodes)).setLevel level
      = .block { key := some key, comment, line, level } (Section.ofNodes nodes).index (level + 1)
          (setLevels (level + 1) nodes) := by
  rw [Node.ofSection, Node.setLevel_setLevel, Node.setLevel, setLevels_ofNodes]

/-! ## Written lines -/

theorem valueOf_written {value comment : List Char} (h : Line.IsComment comment) :
    valueOf (String.ofList (Line.escape value ++ comment)) = value := by
  rw [valueOf, String.toList_ofList, Line.split_escape h]

theorem commentOf_written {value comment : List Char} (h : Line.IsComment comment) :
    commentOf (String.ofList (Line.escape value ++ comment)) = String.ofList comment := by
  rw [commentOf, String.toList_ofList, Line.split_escape h]

theorem isComment_commentOf (line : String) : Line.IsComment (commentOf line).toList := by
  rw [commentOf, String.toList_ofList]
  exact Line.isComment_split _

/-- The line of a node is its body at its level, and the comment behind some blanks. -/
theorem lineText_eq {unit : List Char} (hunit : IsUnit unit) (separator : List Char) {n : Node}
    (h : (n.isVoid && n.comment.isEmpty) = false) :
    ∃ gap, (∀ c ∈ gap, c = ' ') ∧ n.lineText unit separator
      = Line.escape (indentOf unit n.level ++ n.body separator ++ gap) ++ n.comment.toList := by
  have hindent := Line.escape_of_not_mem (hunit.hash_not_mem_indentOf n.level)
  have hspace : Line.escape [' '] = [' '] := rfl
  unfold Node.lineText
  rw [h, if_neg Bool.false_ne_true]
  dsimp only
  split
  · next hempty =>
    have hcomment : n.comment.toList = [] := by simpa using hempty
    refine ⟨[], by simp, ?_⟩
    rw [List.append_nil, Line.escape_append, hindent, hcomment, List.append_nil]
    rfl
  · split
    · refine ⟨[' '], by simp, ?_⟩
      rw [Line.escape_append, Line.escape_append, hindent, hspace]
      rfl
    · refine ⟨[], by simp, ?_⟩
      rw [List.append_nil, List.append_nil, Line.escape_append, hindent]
      rfl

theorem blank_of_space {gap : List Char} (h : ∀ c ∈ gap, c = ' ') : ∀ c ∈ gap, isBlank c = true := by
  intro c hc
  rw [h c hc]
  rfl

/-- The characters of a line come from a body, a comment and blanks. -/
def MadeOf (body : List Char) (comment line : String) : Prop :=
  ∀ c ∈ line.toList, c = ' ' ∨ c = '\t' ∨ c ∈ body ∨ c ∈ comment.toList

theorem madeOf_lineText {unit : List Char} (hunit : IsUnit unit) (separator : List Char)
    (n : Node) : MadeOf (n.body separator) n.comment (String.ofList (n.lineText unit separator)) := by
  intro c hc
  rw [String.toList_ofList] at hc
  cases h : n.isVoid && n.comment.isEmpty with
  | true =>
    rw [Node.lineText, h] at hc
    cases hc
  | false =>
    obtain ⟨gap, hgap, heq⟩ := lineText_eq hunit separator h
    rw [heq, List.mem_append, Line.mem_escape, List.mem_append, List.mem_append] at hc
    rcases hc with ((hc | hc) | hc) | hc
    · obtain ⟨u, hu, hcu⟩ := List.mem_flatten.1 hc
      have hmem : c ∈ unit := List.eq_of_mem_replicate hu ▸ hcu
      rcases hunit.uniform with hall | hall
      · exact .inl (hall c hmem)
      · exact .inr (.inl (hall c hmem))
    · exact .inr (.inr (.inl hc))
    · exact .inl (hgap c hc)
    · exact .inr (.inr (.inr hc))

/-- A line that has been written for a node with a body. -/
structure Written (unit : List Char) (level : Nat) (body : List Char) (comment line : String) :
    Prop where
  standsAt : StandsAt unit level (valueOf line)
  trim_eq : trim (valueOf line) = body
  comment_eq : commentOf line = comment

/-- A line that has been written for a void node. -/
structure WrittenVoid (comment line : String) : Prop where
  trim_eq : trim (valueOf line) = []
  comment_eq : commentOf line = comment

section

variable {unit separator : List Char} (hunit : IsUnit unit) {n : Node}

include hunit

theorem written_content (hbody : Tight (n.body separator)) (hvoid : n.isVoid = false)
    (hcomment : Line.IsComment n.comment.toList) :
    Written unit n.level (n.body separator) n.comment
      (String.ofList (n.lineText unit separator)) := by
  obtain ⟨gap, hgap, heq⟩ := lineText_eq hunit separator (n := n) (by rw [hvoid, Bool.false_and])
  rw [heq]
  refine ⟨?_, ?_, ?_⟩
  · rw [valueOf_written hcomment]
    obtain ⟨⟨c, hc, hblank⟩, _⟩ := hbody
    exact ⟨n.body separator ++ gap, List.append_assoc ..,
      startsWithContent_iff.2 ⟨c, by rw [List.head?_append, hc]; rfl, hblank⟩⟩
  · rw [valueOf_written hcomment]
    exact hbody.trim_between (fun _ => hunit.blank_indentOf) (blank_of_space hgap)
  · rw [commentOf_written hcomment, String.ofList_toList]

theorem written_void (hbody : n.body separator = []) (hvoid : n.isVoid = true)
    (hcomment : Line.IsComment n.comment.toList) :
    WrittenVoid n.comment (String.ofList (n.lineText unit separator)) := by
  by_cases hempty : n.comment.isEmpty = true
  · have hnone : n.lineText unit separator = [] := by
      rw [Node.lineText, hvoid, hempty]
      rfl
    rw [hnone]
    exact ⟨rfl, by simpa [commentOf, Line.split] using hempty.symm⟩
  · obtain ⟨gap, hgap, heq⟩ := lineText_eq hunit separator (n := n) (by simp [hempty])
    rw [heq, hbody, List.append_nil]
    constructor
    · rw [valueOf_written hcomment, Text.trim_eq_nil_iff]
      intro c hc
      rcases List.mem_append.1 hc with hc | hc
      · exact hunit.blank_indentOf hc
      · exact blank_of_space hgap c hc
    · rw [commentOf_written hcomment, String.ofList_toList]

end

/-! ## The text of a leaf

The body of a leaf need not be the text that it came from, since the blanks around a separator are
written anew. But it is a text of the same leaf. -/

/-- Whether lines are kept whole, or are entries that are split and written at a colon. -/
def PlainMode (options : Options) (separator : List Char) : Prop :=
  options.simple = true ∨ options.separator = ":" ∧ separator = ": ".toList

/-- An entry has a value: without one its line would open a section. -/
theorem trim_value_ne_nil {options : Options} (hseparator : options.separator = ":")
    {key value : List Char} (htext : Tight (key ++ ':' :: value)) (hcolon : ':' ∉ key)
    (hkey : headerKey? options (key ++ ':' :: value) = none) : trim value ≠ [] := by
  intro hnil
  have hblank := Text.trim_eq_nil_iff.1 hnil
  have hvalue : value = [] := by
    obtain ⟨_, c, hc, hcontent⟩ := htext
    by_cases hne : value = []
    · exact hne
    · have hlast : value.getLast? = some c := by
        rw [List.getLast?_append, List.getLast?_cons_of_ne_nil hne] at hc
        simpa [hne] using hc
      rw [hblank c (List.mem_of_getLast? hlast)] at hcontent
      cases hcontent
  subst hvalue
  have hcut : Text.splitOnce [':'] (key ++ [':']) = some (key, []) :=
    Text.splitOnce_char.2 ⟨hcolon, rfl⟩
  have hback : Text.dropBack? [':'] (key ++ [':']) = some key := Text.dropBack?_eq_some.2 rfl
  simp [headerKey?, hback, hseparator, hcut] at hkey

/-- A text with a value behind a colon opens no section. -/
theorem headerKey?_entry {options : Options} (hsimple : options.simple = false)
    (hseparator : options.separator = ":") {key value : List Char} (hcolon : ':' ∉ key)
    (hvalue : value ≠ []) : headerKey? options (key ++ ':' :: value) = none := by
  have hcut : Text.splitOnce [':'] (key ++ ':' :: value) = some (key, value) :=
    Text.splitOnce_char.2 ⟨hcolon, rfl⟩
  rw [headerKey?]
  split
  · rfl
  · simp [hsimple, hseparator, hcut, hvalue]

/-- What is used of a leaf to write it: its text trims to a text that gives the leaf again. -/
structure IsLeafOf (options : Options) (separator text : List Char) (comment : String)
    (number : Nat) (n : Node) : Prop where
  notVoid : n.isVoid = false
  tight : Tight (n.body separator)
  noHeader : headerKey? options (n.body separator) = none
  leaf : leafOf options (n.body separator) comment number = (n, none)
  chars : ∀ c ∈ n.body separator, c ∈ text ∨ c = ':' ∨ c = ' '

theorem isLeafOf_simple {options : Options} (hsimple : options.simple = true)
    (separator : List Char) {text : List Char} (htext : Tight text)
    (hkey : headerKey? options text = none) (comment : String) (number : Nat) :
    IsLeafOf options separator text comment number
      (Node.ofLeaf (some (String.ofList text)) comment (some number) .simple) := by
  have hbody : (Node.ofLeaf (some (String.ofList text)) comment (some number) .simple).body separator
      = text := String.toList_ofList
  exact ⟨rfl, hbody.symm ▸ htext, hbody.symm ▸ hkey,
    by rw [hbody, leafOf, if_pos hsimple], by rw [hbody]; exact fun c hc => .inl hc⟩

theorem isLeafOf_entry {options : Options} (hsimple : options.simple = false)
    (hseparator : options.separator = ":") {key value : List Char}
    (htext : Tight (key ++ ':' :: value)) (hcolon : ':' ∉ key)
    (hkey : headerKey? options (key ++ ':' :: value) = none) (comment : String) (number : Nat) :
    IsLeafOf options ": ".toList (key ++ ':' :: value) comment number
      (Node.ofLeaf (some (String.ofList (trim key))) comment (some number)
        (.entry (String.ofList (trim value)))) := by
  have hvalue := trim_value_ne_nil hseparator htext hcolon hkey
  have hcolon' : ':' ∉ trim key := fun hmem => hcolon (Text.mem_of_mem_trim hmem)
  have hbody : (Node.ofLeaf (some (String.ofList (trim key))) comment (some number)
      (.entry (String.ofList (trim value)))).body ": ".toList
        = trim key ++ ':' :: ' ' :: trim value := by
    simp [Node.body, Node.ofLeaf, Node.key, Node.header]
  have htrim : trim (' ' :: trim value) = trim value := by
    have hblank : ∀ c ∈ [' '], isBlank c = true := List.forall_mem_singleton.2 (by decide)
    simpa using (Text.tight_trim hvalue).trim_between (a := [' ']) (b := []) hblank (by simp)
  refine ⟨rfl, ?_, ?_, ?_, ?_⟩
  · rw [hbody]
    constructor
    · -- the body starts with the key or with the colon
      cases hk : trim key with
      | nil => exact ⟨':', rfl, by decide⟩
      | cons c rest =>
        obtain ⟨⟨d, hd, hblank⟩, _⟩ := Text.tight_trim (s := key) (by rw [hk]; simp)
        exact ⟨d, by rw [← hd, hk]; rfl, hblank⟩
    · obtain ⟨_, c, hc, hblank⟩ := Text.tight_trim hvalue
      exact ⟨c, by simp [List.getLast?_append, List.getLast?_cons, hc], hblank⟩
  · rw [hbody]
    exact headerKey?_entry hsimple hseparator hcolon' (by simp)
  · have hcut : Text.splitOnce [':'] (trim key ++ ':' :: ' ' :: trim value)
        = some (trim key, ' ' :: trim value) := Text.splitOnce_char.2 ⟨hcolon', rfl⟩
    rw [hbody, leafOf, hsimple, if_neg Bool.false_ne_true, Section.entryFromText, hseparator,
      String.toList_ofList, String.toList_ofList, hcut]
    simp only [Text.trim_trim, htrim]
  · rw [hbody]
    intro c hc
    simp only [List.mem_append, List.mem_cons] at hc ⊢
    rcases hc with hc | rfl | rfl | hc
    · exact .inl (.inl (Text.mem_of_mem_trim hc))
    · exact .inr (.inl rfl)
    · exact .inr (.inr rfl)
    · exact .inl (.inr (.inr (Text.mem_of_mem_trim hc)))

theorem isLeafOf_of_leafOf {options : Options} {separator : List Char}
    (hmode : PlainMode options separator) {text : List Char} (htext : Tight text)
    (hkey : headerKey? options text = none) {comment : String} {number : Nat} {n : Node}
    (hleaf : leafOf options text comment number = (n, none)) :
    IsLeafOf options separator text comment number n := by
  rw [leafOf] at hleaf
  cases hsimple : options.simple with
  | true =>
    rw [hsimple, if_pos rfl] at hleaf
    cases hleaf
    exact isLeafOf_simple hsimple separator htext hkey comment number
  | false =>
    obtain ⟨hseparator, rfl⟩ := hmode.resolve_left (by rw [hsimple]; exact Bool.false_ne_true)
    rw [hsimple, if_neg Bool.false_ne_true, Section.entryFromText, hseparator,
      String.toList_ofList, String.toList_ofList] at hleaf
    split at hleaf
    · next key value hcut =>
      cases hleaf
      obtain ⟨hcolon, rfl⟩ := Text.splitOnce_char.1 hcut
      exact isLeafOf_entry hsimple hseparator htext hcolon hkey comment number
    · cases hleaf

/-! ## What is written is read -/

theorem Stops.mono {unit : List Char} {level level' : Nat} (hle : level ≤ level')
    {lines : List (Nat × String)} (h : Stops unit level lines) : Stops unit level' lines := by
  intro e he
  obtain ⟨k, hk, hat⟩ := h e he
  exact ⟨k, Nat.lt_of_lt_of_le hk hle, hat⟩

theorem stops_cons {unit : List Char} {level number : Nat} {line : String}
    {lines : List (Nat × String)} (h : StandsAt unit level (valueOf line)) :
    Stops unit (level + 1) ((number, line) :: lines) := by
  intro e he
  cases he
  exact ⟨level, Nat.lt_succ_self level, h⟩

/-- The line of a header, once more as text: the key with its colon. -/
theorem headerKey?_eq_some {options : Options} {text key : List Char}
    (h : headerKey? options text = some key) : text = key ++ [':'] := by
  rw [headerKey?] at h
  split at h
  · cases h
  · next key' hback =>
    rw [Option.ite_none_right_eq_some] at h
    cases h.2
    exact Text.dropBack?_eq_some.1 hback

/-- A numbered line and the one written in its place: the number is the same, and all that is new
are blanks and a colon. -/
def Rewrites (e written : Nat × String) : Prop :=
  written.1 = e.1 ∧ ∀ c ∈ written.2.toList, c ∈ e.2.toList ∨ c ∈ [' ', '\t', ':']

theorem Rewrites.of_madeOf {number : Nat} {line written : String} {body : List Char}
    (h : MadeOf body (commentOf line) written)
    (hbody : ∀ c ∈ body, c ∈ trim (valueOf line) ∨ c = ':' ∨ c = ' ') :
    Rewrites (number, line) (number, written) := by
  refine ⟨rfl, fun c hc => ?_⟩
  rcases h c hc with rfl | rfl | hmem | hmem
  · exact .inr (by decide)
  · exact .inr (by decide)
  · rcases hbody c hmem with hmem | rfl | rfl
    · exact .inl (Line.mem_of_mem_value (Text.mem_of_mem_trim hmem))
    · exact .inr (by decide)
    · exact .inr (by decide)
  · rw [commentOf, String.toList_ofList] at hmem
    exact .inl (Line.mem_of_mem_comment hmem)

/-! ## Saving -/

/-- Lines of which every one is ended by a line feed. -/
theorem toList_join_lines : ∀ {lines : List String}, lines ≠ [] →
    (Text.join "\n" lines ++ "\n").toList = (lines.map String.toList).flatMap (· ++ ['\n'])
  | [line], _ => by simp [Text.join]
  | line :: next :: rest, _ => by
      have ih := toList_join_lines (List.cons_ne_nil next rest)
      rw [List.map_cons, List.flatMap_cons, ← ih]
      simp [Text.join]

/-- Lines that are all ended are numbered from one. -/
theorem sourceLines_received {lines : List String} (hne : lines ≠ [])
    (hfeed : ∀ line ∈ lines, '\n' ∉ line.toList) :
    sourceLines (Text.toBytes (Text.join "\n" lines ++ "\n"))
      = .ok ((List.range' 1 lines.length).zip
          ((received false (lines.map String.toList)).map String.ofList)) := by
  have hfeed' : ∀ chars ∈ lines.map String.toList, '\n' ∉ chars := List.forall_mem_map.2 hfeed
  have hchars := toList_join_lines hne
  have hfuel := length_textLines_le (Text.join "\n" lines ++ "\n").toList
  nth_rw 1 [hchars] at hfuel
  rw [textLines_flatMap hfeed'] at hfuel
  have hread := readLines_received hfeed'
    (r := .ofBytes (Text.toBytes (Text.join "\n" lines ++ "\n"))) rfl
    (congrArg Text.Utf8.encode hchars) (Nat.le_trans hfuel (Text.Utf8.length_le_encode _))
  rwa [List.length_map] at hread

theorem sourceLines_of_kept {lines : List String} (hne : lines ≠ [])
    (hkept : ∀ line ∈ lines, Kept line.toList) :
    sourceLines (Text.toBytes (Text.join "\n" lines ++ "\n"))
      = .ok ((List.range' 1 lines.length).zip lines) := by
  have hback : (lines.map String.toList).map String.ofList = lines := by simp
  rw [sourceLines_received hne fun line hline => (hkept line hline).feed,
    received_of_kept (List.forall_mem_map.2 hkept), hback]

/-- What can be read as a line can be read again as it is written. -/
theorem clean_of_rewrites {lines written : List (Nat × String)}
    (h : List.Forall₂ Rewrites lines written)
    (hclean : ∀ e ∈ lines, ∀ c ∈ e.2.toList, c ≠ '\n' ∧ IsPlain c) :
    ∀ e ∈ written, ∀ c ∈ e.2.toList, c ≠ '\n' ∧ IsPlain c := by
  have hnew : ∀ c ∈ [' ', '\t', ':'], c ≠ '\n' ∧ c ≠ '\r' ∧ c ≠ byteOrderMark := by
    simp [byteOrderMark]
  induction h with
  | nil =>
    intro e he
    cases he
  | cons h _ ih =>
    rw [List.forall_mem_cons] at hclean ⊢
    exact ⟨fun c hc => (h.2 c hc).elim (hclean.1 c) (hnew c), ih hclean.2⟩

theorem Document.loadText_eq_ok {source fileName : String} {options : Options} {d : Document}
    {lines : List (Nat × String)} (hlines : sourceLines (Text.toBytes source) = .ok lines) :
    Document.loadText source fileName options = .ok d ↔
      options.separator.isEmpty = false ∧ Document.ofLines fileName options lines = d := by
  rw [Document.loadText, Document.load, hlines]
  cases options.separator.isEmpty with
  | true => simp
  | false => simp

end ScriptStore.Config
