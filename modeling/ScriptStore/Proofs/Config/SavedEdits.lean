import ScriptStore.Proofs.Config.Editing

/-!
# Edits survive saving

A node is legible if the line that is written for it is read as the node again, and can be told apart
from the lines around it. Nodes that come from lines are. So is an entry with a new value: a key must
not be taken for the end of itself, so it has no colon; a value may hold anything that stays on one
line and is trimmed, since the first colon is behind the key and every `#` is written twice.

So a document that is edited and saved is loaded without errors, and has the new value and all the
others.
-/

namespace ScriptStore.Config

open Text (isBlank trim Tight)

/-- Whether the line of a node is read as the node, also among other lines. -/
structure Legible (options : Options) (unit separator : List Char) (n : Node) : Prop where
  reads : ReadsAs options unit n (String.ofList (n.lineText unit separator))
  kept : Kept (n.lineText unit separator)

theorem kept_of_rewrites {line : String} {written : List Char}
    (h : Rewrites (0, line) (0, String.ofList written))
    (hplain : ∀ c ∈ line.toList, c ≠ '\n' ∧ IsPlain c) : Kept written := by
  have hclean := clean_of_rewrites (.cons h .nil) (List.forall_mem_singleton.2 hplain)
  have hwritten := hclean _ (List.mem_singleton_self _)
  rw [String.toList_ofList] at hwritten
  exact kept_of_plain hwritten

theorem legible_of_fromLine {options : Options} {unit separator : List Char} (hunit : IsUnit unit)
    (hmode : PlainMode options separator) {n : Node}
    (h : FromLine options unit n) : Legible options unit separator n := by
  obtain ⟨line, hread, hplain⟩ := h
  obtain ⟨hreads, hrewrites⟩ := hread.rewritten hunit hmode
  exact ⟨hreads, kept_of_rewrites hrewrites hplain⟩

/-! ## Entries -/

/-- The line of a node is kept apart if its body is: behind the body there is a comment or a blank, and
in front of it only blanks. -/
theorem kept_of_tight {unit separator : List Char} (hunit : IsUnit unit) {n : Node}
    (hvoid : n.isVoid = false) (htight : Tight (n.body separator)) (hfeed : '\n' ∉ n.body separator)
    (hmark : (n.body separator).head? ≠ some byteOrderMark)
    (hcomment : ∀ c ∈ n.comment.toList, c ≠ '\n' ∧ IsPlain c) : Kept (n.lineText unit separator) := by
  obtain ⟨⟨first, hfirst, _⟩, last, hlast, hblank⟩ := htight
  obtain ⟨gap, hgap, heq⟩ := lineText_eq hunit separator (n := n) (by rw [hvoid, Bool.false_and])
  constructor
  · intro hmem
    rcases madeOf_lineText hunit separator n '\n' (by rwa [String.toList_ofList]) with h | h | h | h
    · cases h
    · cases h
    · exact hfeed h
    · exact (hcomment _ h).1 rfl
  · rw [heq, List.getLast?_append, Line.getLast?_escape, List.getLast?_append, List.getLast?_append, hlast,
      Option.some_or]
    -- the line ends with the comment, or else with the gap before it, or else with the body
    cases hc : n.comment.toList.getLast? with
    | some c => exact fun h => (hcomment c (List.mem_of_getLast? hc)).2.1 (Option.some.inj h)
    | none =>
      rw [Option.none_or]
      cases hg : gap.getLast? with
      | some c =>
        rw [hgap c (List.mem_of_getLast? hg)]
        simp
      | none =>
        rintro ⟨⟩
        cases hblank
  · rw [heq, List.head?_append, Line.head?_escape, List.head?_append, List.head?_append]
    cases hi : (indentOf unit n.level).head? with
    | some c =>
      rintro ⟨⟩
      exact absurd (hunit.blank_indentOf (List.mem_of_mem_head? hi)) (by decide)
    | none =>
      rw [hfirst] at hmark
      rw [Option.none_or, hfirst]
      exact hmark

/-- An entry with trimmed parts is read from its own body. -/
theorem isLeafOf_trimmed {options : Options} (hsimple : options.simple = false)
    (hseparator : options.separator = ":") {h : Header} {key value : String} (hkey : h.key = some key)
    (hkeytrim : trim key.toList = key.toList) (hcolon : ':' ∉ key.toList) (hvalue : value.toList ≠ [])
    (htrim : trim value.toList = value.toList) :
    IsLeafOf options ": ".toList (key.toList ++ ':' :: value.toList) h.comment 0
      (Node.ofLeaf h.key h.comment (some 0) (.entry value)) := by
  have hheader := headerKey?_entry hsimple hseparator hcolon hvalue
  have htight : Tight (key.toList ++ ':' :: value.toList) := by
    constructor
    · cases hk : key.toList with
      | nil => exact ⟨':', rfl, by decide⟩
      | cons c rest =>
        obtain ⟨⟨d, hd, hblank⟩, _⟩ := Text.tight_of_trim_eq hkeytrim (by rw [hk]; simp)
        rw [hk] at hd
        exact ⟨d, hd, hblank⟩
    · obtain ⟨_, c, hc, hblank⟩ := Text.tight_of_trim_eq htrim hvalue
      exact ⟨c, by simp [List.getLast?_append, List.getLast?_cons, hc], hblank⟩
  have hleaf := isLeafOf_entry hsimple hseparator htight hcolon hheader h.comment 0
  rwa [hkeytrim, htrim, String.ofList_toList, String.ofList_toList, ← hkey] at hleaf

section

variable {options : Options} {unit : List Char} (hsimple : options.simple = false)
  (hseparator : options.separator = ":") (hunit : IsUnit unit) {value : String}
  (hvalue : value.toList ≠ []) (htrim : trim value.toList = value.toList)
  (hfeed : '\n' ∉ value.toList)

include hsimple hseparator hunit hvalue htrim hfeed

/-- **An entry is legible, whatever its value holds.** -/
theorem legible_entry {h : Header} {key : String} (hkey : h.key = some key)
    (hkeytrim : trim key.toList = key.toList)
    (hchars : ∀ c ∈ key.toList, c ≠ ':' ∧ c ≠ '\n' ∧ c ≠ byteOrderMark)
    (hcomment : Line.IsComment h.comment.toList)
    (hplain : ∀ c ∈ h.comment.toList, c ≠ '\n' ∧ IsPlain c) :
    Legible options unit ": ".toList (.leaf h (.entry value)) := by
  have hcolon : ':' ∉ key.toList := fun hmem => (hchars _ hmem).1 rfl
  have hleaf := isLeafOf_trimmed hsimple hseparator hkey hkeytrim hcolon hvalue htrim
  have hbody : (Node.leaf h (.entry value)).body ": ".toList
      = (key.toList ++ [':']) ++ ' ' :: value.toList := by
    simp [Node.body, Node.key, Node.header, hkey]
  refine ⟨readsAs_of_isLeafOf hunit hcomment hleaf, kept_of_tight hunit rfl hleaf.tight ?_ ?_ hplain⟩
  · rw [hbody]
    simp only [List.mem_append, List.mem_cons, List.not_mem_nil, or_false, not_or]
    exact ⟨⟨fun hmem => (hchars _ hmem).2.1 rfl, by decide⟩, by decide, hfeed⟩
  · rw [hbody, List.head?_append]
    cases hk : key.toList with
    | nil => simp [byteOrderMark]
    | cons c rest =>
      have hmark := (hchars c (hk ▸ .head _)).2.2
      exact fun heq => hmark (Option.some.inj heq)

/-- An entry that comes from a line may get another value. -/
theorem legible_changed {h : Header} {old : String}
    (hold : FromLine options unit (.leaf h (.entry old))) :
    Legible options unit ": ".toList (.leaf h (.entry value)) := by
  obtain ⟨line, hread, hplain⟩ := hold
  obtain ⟨hcomment, hsame⟩ := hread.isComment
  cases hread with
  | leaf hat hheader hleaf =>
    obtain ⟨front, back, hcut, hkey, _, _⟩ := (leafOf_eq_iff hsimple).1 (hleaf 0)
    have hcut' : Text.splitOnce [':'] (trim (valueOf line)) = some (front, back) := by
      rw [hseparator] at hcut
      exact hcut
    obtain ⟨hcolon, htext⟩ := Text.splitOnce_char.1 hcut'
    -- the key and the comment are part of the line
    refine legible_entry hsimple hseparator hunit hvalue htrim hfeed hkey ?_ (fun c hc => ?_) hcomment
      fun c hc => ?_
    · rw [String.toList_ofList, Text.trim_trim]
    · rw [String.toList_ofList] at hc
      have hmem := Text.mem_of_mem_trim hc
      have hline : c ∈ trim (valueOf line) := htext ▸ List.mem_append_left _ hmem
      have hclean := hplain c (Line.mem_of_mem_value (Text.mem_of_mem_trim hline))
      exact ⟨fun heq => hcolon (heq ▸ hmem), hclean.1, hclean.2.2⟩
    · have hmem : c ∈ (commentOf line).toList := hsame ▸ hc
      rw [commentOf, String.toList_ofList] at hmem
      exact hplain c (Line.mem_of_mem_comment hmem)

/-- **Every node of an edited tree is legible.** -/
theorem Stems.legible {key : String} {nodes : List Node} {n : Node} (h : Stems key value nodes n)
    (hlines : ∀ n ∈ walkOf nodes, FromLine options unit n) (hkeytrim : trim key.toList = key.toList)
    (hchars : ∀ c ∈ key.toList, c ≠ ':' ∧ c ≠ '\n' ∧ c ≠ byteOrderMark) :
    Legible options unit ": ".toList n := by
  have hmode : PlainMode options ": ".toList := .inr ⟨hseparator, rfl⟩
  cases h with
  | kept hn => exact legible_of_fromLine hunit hmode (hlines _ hn)
  | block hn =>
    obtain ⟨line, hread, hplain⟩ := hlines _ hn
    refine legible_of_fromLine hunit hmode ⟨line, ?_, hplain⟩
    cases hread with
    | block hat hheader hkey hcomment => exact .block hat hheader hkey hcomment
  | changed hn => exact legible_changed hsimple hseparator hunit hvalue htrim hfeed (hlines _ hn)
  | new level =>
    exact legible_entry hsimple hseparator hunit hvalue htrim hfeed rfl hkeytrim hchars (.inl rfl)
      fun c hc => absurd hc List.not_mem_nil

end

/-! ## Documents -/

namespace Document

/-- **What was set is there after saving and loading, and so is everything else.** The text that was
loaded has no carriage return and no byte order mark, and no errors were found in it. An entry is set
in a section that some path of keys leads to; the key is trimmed and has no colon, no line feed and no
byte order mark, and the value is trimmed, not empty and on one line. -/
theorem loadText_save_set {source fileName : String} {options : Options} {d : Document}
    {path : List String} {key value : String}
    (hplain : ∀ c ∈ source.toList, c ≠ '\r' ∧ c ≠ byteOrderMark)
    (hsimple : options.simple = false) (hseparator : options.separator = ":")
    (h : loadText source fileName options = .ok d) (herrors : d.errors = 0)
    (hpath : (d.root.descend path).isSome = true) (hkey : Text.trimmed key = key)
    (hchars : ∀ c ∈ key.toList, c ≠ ':' ∧ c ≠ '\n' ∧ c ≠ byteOrderMark) (hvalue : value ≠ "")
    (htrim : Text.trimmed value = value) (hfeed : '\n' ∉ value.toList) :
    ∃ root d', Section.updateAt (fun t => ((), t.set key value)) path d.root = some ((), root) ∧
      loadText { d with root }.save fileName options = .ok d' ∧ d'.errors = 0 ∧
      d'.get (path ++ [key]) = some value ∧
      ∀ q : List String, ¬(path ++ [key]).map Text.lowercase <+: q.map Text.lowercase →
        d'.get q = d.get q := by
  have hchars_trimmed : ∀ {s : String}, Text.trimmed s = s → trim s.toList = s.toList := by
    intro s hs
    have hlist := congrArg String.toList hs
    rwa [Text.trimmed, String.toList_ofList] at hlist
  obtain ⟨unit, hd⟩ := exists_isRead hplain h herrors
  have htidy := tidy_of_load h
  obtain ⟨t, ht⟩ := Option.isSome_iff_exists.1 hpath
  obtain ⟨u, root, hupdate⟩ := Section.exists_updateAt (fun t => ((), t.set key value)) ht
  obtain ⟨hroot, hnew, hframe⟩ := Section.valueAt_updateAt_set htidy hupdate
  obtain ⟨horoot, hstems⟩ := Section.stems_updateAt_set htidy hd.orderly hupdate
  have hlegible : ∀ n ∈ walkOf root.nodes, Legible options unit ": ".toList n := fun n hn =>
    (hstems n hn).legible hsimple hseparator hd.isUnit (mt String.toList_eq_nil_iff.1 hvalue)
      (hchars_trimmed htrim) hfeed hd.fromLine (hchars_trimmed hkey) hchars
  -- the edited document is written as the one that was loaded
  have hcolon : { d with root }.saveSeparator = ": " := by
    rw [saveSeparator, if_pos]
    exact beq_iff_eq.2 (hd.separator.trans hseparator)
  have hsaved := @exists_loadText_save_iff fileName options { d with root } hd.someSeparator horoot
    (Section.nodes_ne_nil_of_valueAt hnew)
  rw [hcolon, hd.indentation] at hsaved
  obtain ⟨d', hload, herrors', hbare⟩ := (hsaved fun n hn => (hlegible n hn).kept).2
    ⟨unit, hd.isUnit, fun n hn => (hlegible n hn).reads⟩
  have hsame := Section.valueAt_eq_of_bare (tidy_of_load hload) hroot hbare
  refine ⟨root, d', hupdate, hload, herrors', (hsame _).trans hnew, fun q hq => ?_⟩
  exact (hsame q).trans (hframe q hq)

/-- An entry with a comment, in a section, gets a value that has a comment mark and a colon in it. -/
theorem loadText_save_set_boxed :
    ∃ d root d', loadText "box: # things\n   a: 1 # one\nc: d" "notes" {} = .ok d ∧ d.errors = 0 ∧
      Section.updateAt (fun t => ((), t.set "A" "2 # : 3")) ["Box"] d.root = some ((), root) ∧
      { d with root }.save = "box: # things\n   a: 2 ## : 3 # one\nc: d\n" ∧
      loadText { d with root }.save "notes" {} = .ok d' ∧ d'.errors = 0 ∧
      d'.get ["Box", "A"] = some "2 # : 3" ∧ d'.get ["c"] = some "d" := by
  have hlines : sourceLines (Text.toBytes "box: # things\n   a: 1 # one\nc: d")
      = .ok [(1, "box: # things"), (2, "   a: 1 # one"), (3, "c: d")] := by cbv
  have h : loadText "box: # things\n   a: 1 # one\nc: d" "notes" {} = .ok _ :=
    (loadText_eq_ok hlines).2 ⟨rfl, rfl⟩
  obtain ⟨root, d', hupdate, hload, herrors', hvalue, hframe⟩ :=
    @loadText_save_set _ _ _ _ ["Box"] "A" "2 # : 3" (by simp [byteOrderMark]) rfl rfl h (by cbv)
      (by cbv) (by cbv) (by simp [byteOrderMark]) (by decide) (by cbv) (by decide)
  have htext : (Section.updateAt (fun t => ((), t.set "A" "2 # : 3")) ["Box"] (ofLines "notes" {}
      [(1, "box: # things"), (2, "   a: 1 # one"), (3, "c: d")]).root).map (fun r => { ofLines "notes" {}
      [(1, "box: # things"), (2, "   a: 1 # one"), (3, "c: d")] with root := r.2 }.save)
        = some "box: # things\n   a: 2 ## : 3 # one\nc: d\n" := by cbv
  rw [hupdate] at htext
  refine ⟨_, root, d', h, by cbv, hupdate, Option.some.inj htext, hload, herrors', hvalue, ?_⟩
  rw [hframe ["c"] fun hstart => absurd hstart.length_le (by simp)]
  cbv

end Document

end ScriptStore.Config
