import ScriptStore.Proofs.Config.Places
import ScriptStore.Proofs.Config.SavedEdits

/-!
# Comments survive saving

What a line is read as depends on its value; the comment is what stands behind. So an entry may get any
comment that stays a comment: one that starts with `#` and not with `##`, which is how a `#` is written
in a value. On the way through a file only the carriage returns are lost that stand at the ends of
lines, and those are in comments. A byte order mark in front of the first key would be lost too.

So a document is loaded again with the comment that was set if, and only if, the text of it does not
start with `##` and does not end in a carriage return.
-/

namespace ScriptStore.Config

open Text (isBlank trim)

/-! ## Lines with another comment -/

section

variable {options : Options} (hsimple : options.simple = false) {unit : List Char} {n : Node}
  {line : String}

include hsimple

/-- A line with the same text at the same level is read as the same node, but for the comment. -/
theorem ReadsAs.relabel (h : ReadsAs options unit n line) {f : Header → Header} {comment : String}
    (hf : f n.header = { n.header with comment }) {line' : String} (hcomment : commentOf line' = comment)
    (htrim : trim (valueOf line') = trim (valueOf line))
    (hat : ∀ level, StandsAt unit level (valueOf line) → StandsAt unit level (valueOf line')) :
    ReadsAs options unit (n.relabel f) line' := by
  cases h with
  | @void h _ hvoid hkey _ =>
    rw [Node.relabel, show f h = _ from hf]
    exact .void (htrim.trans hvoid) hkey hcomment
  | @leaf h content _ hstands hheader hleaf =>
    rw [Node.relabel, show f h = _ from hf]
    refine .leaf (hat _ hstands) (htrim ▸ hheader) fun number => ?_
    obtain ⟨front, back, hcut, hkey, hcontent, _⟩ := (leafOf_eq_iff hsimple).1 (hleaf number)
    rw [htrim]
    exact (leafOf_eq_iff hsimple).2 ⟨front, back, hcut, hkey, hcontent, hcomment.symm⟩
  | @block h index level nodes _ key hstands hheader hkey _ =>
    rw [Node.relabel, show f h = _ from hf]
    exact .block (hat _ hstands) (htrim ▸ hheader) hkey hcomment

/-- A node that is read from a line may get another comment. -/
theorem ReadsAs.exists_relabel (h : ReadsAs options unit n line) {f : Header → Header}
    {comment : String} (hf : f n.header = { n.header with comment })
    (hcomment : Line.IsComment comment.toList) : ∃ line', ReadsAs options unit (n.relabel f) line' := by
  refine ⟨String.ofList (Line.escape (valueOf line) ++ comment.toList), h.relabel hsimple hf ?_ ?_ ?_⟩
  · rw [commentOf_written hcomment, String.ofList_toList]
  · rw [valueOf_written hcomment]
  · intro level hat
    rwa [valueOf_written hcomment]

end

/-! ## Carriage returns at the end -/

/-- A header without the carriage return at the end of its comment. -/
def Header.crop (h : Header) : Header :=
  { h with comment := String.ofList (dropReturn true h.comment.toList) }

theorem dropReturn_concat (front : List Char) : dropReturn true (front ++ ['\r']) = front := by
  simp [dropReturn]

theorem dropReturn_cases (line : List Char) :
    line.getLast? ≠ some '\r' ∨ ∃ front, line = front ++ ['\r'] := by
  by_cases hlast : line.getLast? = some '\r'
  · exact .inr (List.getLast?_eq_some_iff.1 hlast)
  · exact .inl hlast

/-- It is the comment that loses the carriage return at the end of a line, or a value without one. -/
theorem exists_dropReturn_escape (value comment : List Char) :
    ∃ value', (value' = value ∨ value = value' ++ ['\r']) ∧
      dropReturn true (Line.escape value ++ comment) = Line.escape value' ++ dropReturn true comment := by
  rcases dropReturn_cases comment with hlast | ⟨front, rfl⟩
  · rw [dropReturn_eq hlast]
    by_cases hcomment : comment = []
    · subst hcomment
      rw [List.append_nil]
      rcases dropReturn_cases value with hlast | ⟨front, rfl⟩
      · exact ⟨value, .inl rfl, by rw [List.append_nil, dropReturn_eq (by rwa [Line.getLast?_escape])]⟩
      · refine ⟨front, .inr rfl, ?_⟩
        rw [Line.escape_append, List.append_nil]
        exact dropReturn_concat _
    · refine ⟨value, .inl rfl, dropReturn_eq ?_ true⟩
      rwa [List.getLast?_append_of_ne_nil _ hcomment]
  · refine ⟨value, .inl rfl, ?_⟩
    rw [← List.append_assoc, dropReturn_concat, dropReturn_concat]

theorem isComment_dropReturn {comment : List Char} (h : Line.IsComment comment) :
    Line.IsComment (dropReturn true comment) := by
  rcases dropReturn_cases comment with hlast | ⟨front, rfl⟩
  · rwa [dropReturn_eq hlast]
  · rw [dropReturn_concat]
    rcases h with hnil | ⟨rest, hrest, hhead⟩
    · simp at hnil
    · cases front with
      | nil => exact .inl rfl
      | cons c front =>
        rw [List.cons_append] at hrest
        obtain ⟨rfl, rfl⟩ := List.cons.inj hrest
        refine .inr ⟨front, rfl, fun hc => hhead ?_⟩
        rw [List.head?_append, hc, Option.some_or]

theorem StandsAt.of_concat {unit value : List Char} {level : Nat} {c : Char}
    (h : StandsAt unit level (value ++ [c])) (hc : isBlank c = true) : StandsAt unit level value := by
  obtain ⟨text, heq, htext⟩ := h
  obtain ⟨d, hd, hblank⟩ := startsWithContent_iff.1 htext
  obtain rfl | ⟨front, last, rfl⟩ := text.eq_nil_or_concat'
  · cases hd
  · rw [← List.append_assoc] at heq
    obtain ⟨rfl, hlast⟩ := List.append_inj' heq rfl
    cases hlast
    refine ⟨front, rfl, startsWithContent_iff.2 ?_⟩
    cases front with
    | nil =>
      cases hd
      rw [hc] at hblank
      cases hblank
    | cons first front => exact ⟨d, hd, hblank⟩

/-- **A line without the carriage return at its end is read as the node without it.** -/
theorem ReadsAs.dropReturn {options : Options} (hsimple : options.simple = false) {unit : List Char}
    {n : Node} {line : String} (h : ReadsAs options unit n line) :
    ReadsAs options unit (n.relabel Header.crop)
      (String.ofList (Config.dropReturn true line.toList)) := by
  obtain ⟨value, hvalue, hline⟩ := exists_dropReturn_escape (valueOf line) (Line.split line.toList).2
  have hcomment := isComment_dropReturn (Line.isComment_split line.toList)
  rw [valueOf, Line.escape_split] at hline
  rw [hline]
  refine h.relabel hsimple rfl ?_ ?_ fun level hat => ?_
  · rw [commentOf_written hcomment, ← Node.comment, ← h.isComment.2, commentOf, String.toList_ofList]
  · rw [valueOf_written hcomment]
    rcases hvalue with rfl | heq
    · rfl
    · rw [heq, Text.trim_concat_of_blank (by decide)]
  · rw [valueOf_written hcomment]
    rcases hvalue with rfl | heq
    · exact hat
    · rw [heq] at hat
      exact hat.of_concat (by decide)

/-- No line of a node is only a carriage return. -/
theorem ReadsAs.lineText_ne_return {options : Options} {unit separator : List Char} {n : Node}
    (h : ReadsAs options unit n (String.ofList (n.lineText unit separator))) :
    n.lineText unit separator ≠ ['\r'] := by
  intro heq
  have hblank : trim (valueOf (String.ofList ['\r'])) = [] := by decide
  rw [heq] at h
  cases h with
  | @void h _ _ _ hcomment =>
    have hnone : h.comment = "" := hcomment.symm
    rw [Node.lineText, if_pos (by rw [Node.comment, Node.header, hnone]; rfl)] at heq
    cases heq
  | leaf hat _ _ => exact hat.trim_ne_nil hblank
  | block hat _ _ _ => exact hat.trim_ne_nil hblank

/-! ## The start of the file -/

theorem received_true (lines : List (List Char)) :
    received true lines = lines.map (dropReturn true) := by
  induction lines with
  | nil => rfl
  | cons line rest ih => rw [received, if_pos rfl, Bool.true_or, ih, List.map_cons]

/-- Lines whose first character is no byte order mark only lose carriage returns. -/
theorem received_eq_map {lines : List (List Char)} (hmark : lines.flatten.head? ≠ some byteOrderMark)
    (hreturn : ['\r'] ∉ lines) : received false lines = lines.map (dropReturn true) := by
  induction lines with
  | nil => rfl
  | cons line rest ih =>
    rw [received, if_neg Bool.false_ne_true, List.map_cons]
    cases line with
    | nil => exact congrArg _ (ih hmark fun h => hreturn (.tail _ h))
    | cons c line =>
      -- the first line with content is still one without its carriage return
      obtain ⟨more, hmore⟩ : ∃ more, dropReturn true (c :: line) = c :: more := by
        rcases dropReturn_cases (c :: line) with hlast | ⟨front, heq⟩
        · exact ⟨line, dropReturn_eq hlast true⟩
        · rw [heq, dropReturn_concat]
          cases front with
          | nil => exact absurd (heq ▸ .head _) hreturn
          | cons d front =>
            cases heq
            exact ⟨front, rfl⟩
      have hkept : dropMark (c :: more) = c :: more := dropMark_eq hmark
      rw [hmore, hkept]
      exact congrArg _ (received_true rest)

theorem find?_feed {lines : List (List Char)} (h : ∀ line ∈ lines, '\n' ∉ line) :
    (lines.flatMap (· ++ ['\n'])).find? (· ≠ '\n') = lines.flatten.head? := by
  induction lines with
  | nil => rfl
  | cons line rest ih =>
    obtain ⟨hline, hrest⟩ := List.forall_mem_cons.1 h
    rw [List.flatMap_cons, List.flatten_cons]
    cases line with
    | nil => exact ih hrest
    | cons c line =>
      have hc : c ≠ '\n' := fun heq => hline (heq ▸ .head _)
      exact List.find?_cons_of_pos (decide_eq_true hc)

/-! ## Documents -/

namespace Document

/-- What is used of a document that was loaded without errors, whatever its comments are now. -/
structure Settled (d : Document) (options : Options) (unit : List Char) : Prop where
  separator : d.separator = ":"
  isUnit : IsUnit unit
  indentation : d.indentation.toList = unit
  orderly : Orderly 0 d.root.nodes
  reads : ∀ n ∈ walkOf d.root.nodes, ∃ line, ReadsAs options unit n line

variable {d : Document} {options : Options} {unit : List Char} {fileName : String}

/-- A document that was loaded without errors, whatever bytes it was loaded from. -/
theorem exists_settled {source : Text.Bytes} (hseparator : options.separator = ":")
    (h : load source fileName options = .ok d) (herrors : d.errors = 0) :
    ∃ unit, d.Settled options unit ∧ ((walkOf d.root.nodes).map Node.line).Nodup ∧
      ∀ n ∈ walkOf d.root.nodes, '\n' ∉ n.lineText unit ": ".toList := by
  rw [load] at h
  split at h
  · cases h
  · cases hlines : sourceLines source with
    | error e => rw [hlines] at h; cases h
    | ok lines =>
      rw [hlines] at h
      cases h
      obtain ⟨hnumbers, hfeeds⟩ := sourceLines_spec hlines
      obtain ⟨ho, unit, hunit, hindentation, heach⟩ := readsEach_of_errors herrors
      refine ⟨unit, ⟨hseparator, hunit, by rw [hindentation, String.toList_ofList], ho, ?_⟩, ?_, ?_⟩
      · intro n hn
        obtain ⟨e, _, hread⟩ := heach.exists_line hn
        exact ⟨e.2, hread⟩
      · have hsome : lines.map (some ·.1) = (lines.map (·.1)).map some := List.map_map.symm
        rw [(ofLines_walk fileName options lines).1, hsome, hnumbers]
        exact List.Nodup.map (Option.some_injective Nat) (List.nodup_range' ..)
      · intro n hn hmem
        obtain ⟨e, he, hread⟩ := heach.exists_line hn
        obtain ⟨_, _, hchars⟩ := hread.rewritten hunit (.inr ⟨hseparator, rfl⟩)
        rcases hchars '\n' (by rwa [String.toList_ofList]) with hmem | hmem
        · exact hfeeds e he hmem
        · exact absurd hmem (by decide)

/-- A document is written line by line, and read so if no line feed is in a line. -/
theorem loadText_save_received (hseparator : options.separator.isEmpty = false)
    (hne : d.root.nodes ≠ []) (hfeed : ∀ line ∈ d.lines, '\n' ∉ line.toList) :
    loadText d.save fileName options = .ok (ofLines fileName options
      ((List.range' 1 d.lines.length).zip
        ((received false (d.lines.map String.toList)).map String.ofList))) := by
  exact (loadText_eq_ok (sourceLines_received (lines_ne_nil hne) hfeed)).2 ⟨hseparator, rfl⟩

theorem toList_lines (hseparator : d.separator = ":") (hindentation : d.indentation.toList = unit) :
    d.lines.map String.toList = (walkOf d.root.nodes).map fun n => n.lineText unit ": ".toList := by
  have hcolon : d.saveSeparator = ": " := by
    rw [saveSeparator, if_pos]
    exact beq_iff_eq.2 hseparator
  rw [Document.lines, linesOf_eq_map, hcolon, hindentation, List.map_map]
  exact List.map_congr_left fun n _ => String.toList_ofList

/-- **What comes back of a document is its tree without the carriage returns at the ends of comments,**
if what is written does not start with a byte order mark. -/
theorem Settled.exists_loadText_save (hd : d.Settled options unit) (hsimple : options.simple = false)
    (hseparator : options.separator = ":") (hne : d.root.nodes ≠ [])
    (hfeed : ∀ line ∈ d.lines, '\n' ∉ line.toList)
    (hmark : (d.lines.map String.toList).flatten.head? ≠ some byteOrderMark) :
    ∃ d', loadText d.save fileName options = .ok d' ∧ d'.errors = 0 ∧
      bareOf d'.root.nodes = bareOf (d.root.nodes.map (·.relabel Header.crop)) := by
  have hlines := toList_lines hd.separator hd.indentation
  have hreads : ∀ n ∈ walkOf d.root.nodes,
      ReadsAs options unit n (String.ofList (n.lineText unit ": ".toList)) := by
    intro n hn
    obtain ⟨line, hread⟩ := hd.reads n hn
    exact (hread.rewritten hd.isUnit (.inr ⟨hseparator, rfl⟩)).1
  have hreturn : ['\r'] ∉ d.lines.map String.toList := by
    rw [hlines]
    intro hmem
    obtain ⟨n, hn, heq⟩ := List.mem_map.1 hmem
    exact (hreads n hn).lineText_ne_return heq
  have hlength : d.lines.length
      = (((d.lines.map String.toList).map (dropReturn true)).map String.ofList).length := by simp
  have hlevel : ∀ h : Header, h.crop.level = h.level := fun _ => rfl
  refine ⟨_, loadText_save_received (by rw [hseparator]; rfl) hne hfeed, ?_⟩
  rw [received_eq_map hmark hreturn]
  refine ofLines_of_readsEach (hd.orderly.relabel hlevel) hd.isUnit ?_ fileName
  rw [hlength, readsEach_numbered, hlines, walkOf_map_relabel, List.forall₂_map_left_iff,
    List.forall₂_map_left_iff, List.forall₂_map_left_iff, List.forall₂_map_right_iff, List.forall₂_same]
  intro n hn
  have hread := (hreads n hn).dropReturn hsimple
  rwa [String.toList_ofList] at hread

end Document

/-! ## Another comment -/

/-- The comment that is set for a text. -/
def asComment (text : String) : String :=
  if text.isEmpty || text.toList.head? == some '#' then text else "#" ++ text

theorem Node.comment_setComment (n : Node) (text : String) : (n.setComment text).comment = asComment text := by
  cases n with
  | leaf => rfl
  | block => rfl

theorem asComment_cases (text : String) :
    (asComment text = text ∧ (text.toList = [] ∨ ∃ rest, text.toList = '#' :: rest)) ∨
      (∃ c rest, text.toList = c :: rest ∧ c ≠ '#' ∧ (asComment text).toList = '#' :: c :: rest) := by
  rw [asComment]
  cases htext : text.toList with
  | nil => simp_all
  | cons c rest =>
    have hne : text.isEmpty = false := by
      rw [Bool.eq_false_iff, Ne, String.isEmpty_iff]
      rintro rfl
      cases htext
    by_cases hc : c = '#'
    · simp [hc]
    · right
      exact ⟨c, rest, rfl, hc, by simp [hne, hc, htext]⟩

/-- A text makes a comment unless it starts with `##`. -/
theorem isComment_asComment_iff {text : String} :
    Line.IsComment (asComment text).toList ↔ ¬"##".toList <+: text.toList := by
  have hhash : ∀ rest : List Char, "##".toList <+: '#' :: rest ↔ rest.head? = some '#' := by
    intro rest
    cases rest <;> simp [eq_comm]
  rcases asComment_cases text with ⟨heq, hnil | ⟨rest, hrest⟩⟩ | ⟨c, rest, htext, hc, heq⟩
  · rw [heq, hnil]
    simp [Line.IsComment]
  · rw [heq, hrest, hhash]
    simp [Line.IsComment]
  · rw [heq, htext]
    simp [Line.IsComment, hc, Ne.symm hc]

theorem dropReturn_eq_self_iff {line : List Char} :
    dropReturn true line = line ↔ line.getLast? ≠ some '\r' := by
  refine ⟨fun h hlast => ?_, fun hlast => dropReturn_eq hlast true⟩
  obtain ⟨front, rfl⟩ := List.getLast?_eq_some_iff.1 hlast
  rw [dropReturn_concat] at h
  simpa using congrArg List.length h

theorem getLast?_asComment (text : String) :
    (asComment text).toList.getLast? = some '\r' ↔ text.toList.getLast? = some '\r' := by
  rcases asComment_cases text with ⟨heq, _⟩ | ⟨c, rest, htext, _, heq⟩
  · rw [heq]
  · rw [heq, htext, List.getLast?_cons_cons]

theorem feed_not_mem_asComment {text : String} (h : '\n' ∉ text.toList) :
    '\n' ∉ (asComment text).toList := by
  rcases asComment_cases text with ⟨heq, _⟩ | ⟨c, rest, htext, _, heq⟩
  · rwa [heq]
  · rw [htext] at h
    rw [heq]
    exact List.not_mem_cons_of_ne_of_not_mem (by decide) h

theorem Node.lineText_relabel {f : Header → Header} {n : Node} (hf : f n.header = n.header)
    (unit separator : List Char) : (n.relabel f).lineText unit separator = n.lineText unit separator := by
  cases n with
  | leaf h content => rw [Node.relabel, show f h = h from hf]
  | block h index level nodes =>
    rw [Node.relabel, show f h = h from hf]
    rfl

/-- The line of an entry starts with what does not depend on its comment. -/
theorem exists_lineText_entry {unit : List Char} (hunit : IsUnit unit) (h : Header) (value : String) :
    ∃ tail, (∀ c ∈ tail, c = ' ' ∨ c ∈ h.comment.toList) ∧
      (Node.leaf h (.entry value)).lineText unit ": ".toList = Line.escape (indentOf unit h.level
        ++ ((h.key.getD "").toList ++ ": ".toList ++ value.toList)) ++ tail := by
  obtain ⟨gap, hgap, heq⟩ := lineText_eq hunit ": ".toList (n := .leaf h (.entry value)) rfl
  refine ⟨Line.escape gap ++ h.comment.toList, fun c hc => ?_, ?_⟩
  · exact (List.mem_append.1 hc).imp_left fun hc => hgap c (Line.mem_escape.1 hc)
  · rw [heq, Line.escape_append _ gap, List.append_assoc]
    rfl

/-- So another comment changes neither its first character nor that it is one line. -/
theorem lineText_entry_comment {unit : List Char} (hunit : IsUnit unit) (h : Header)
    (value comment : String) :
    ((Node.leaf { h with comment } (.entry value)).lineText unit ": ".toList).head?
        = ((Node.leaf h (.entry value)).lineText unit ": ".toList).head? ∧
      ('\n' ∉ (Node.leaf h (.entry value)).lineText unit ": ".toList → '\n' ∉ comment.toList →
        '\n' ∉ (Node.leaf { h with comment } (.entry value)).lineText unit ": ".toList) := by
  obtain ⟨tail, _, heq⟩ := exists_lineText_entry hunit h value
  obtain ⟨tail', htail', heq'⟩ := exists_lineText_entry hunit { h with comment } value
  rw [heq, heq']
  constructor
  · simp [List.head?_append, Line.head?_escape]
  · intro hline hcomment hmem
    rcases List.mem_append.1 hmem with hmem | hmem
    · exact hline (List.mem_append_left _ hmem)
    · exact (htail' _ hmem).elim (by decide) hcomment

theorem Node.exists_of_isEntry {n : Node} (h : n.isEntry = true) :
    ∃ header value, n = .leaf header (.entry value) := by
  cases n with
  | block => cases h
  | leaf header content =>
    cases content with
    | entry value => exact ⟨header, value, rfl⟩
    | _ => cases h

theorem head?_flatten_congr {a b : List (List Char)} (h : a.map List.head? = b.map List.head?) :
    a.flatten.head? = b.flatten.head? := by
  have hfirst : ∀ l : List (List Char), l.flatten.head? = (l.map List.head?).findSome? id := by
    intro l
    rw [List.head?_flatten, List.findSome?_map]
    rfl
  rw [hfirst, hfirst, h]

namespace Document

/-- The headers of a tree in which one node has another comment. -/
def recomment (n : Node) (comment : String) : Header → Header :=
  onLine n.line fun h => { h with comment }

/-- Whether a document is another one in which one node has another comment. -/
structure Recommented (d : Document) (n : Node) (comment : String) (d' : Document) : Prop where
  separator : d'.separator = d.separator
  indentation : d'.indentation = d.indentation
  nodes : d'.root.nodes = d.root.nodes.map (·.relabel (recomment n comment))

section

variable {d d' : Document} {options : Options} {unit : List Char} {n : Node} {comment : String}
  (hd : d.Settled options unit) (hnodup : ((walkOf d.root.nodes).map Node.line).Nodup)
  (hn : n ∈ walkOf d.root.nodes) (hentry : n.isEntry = true) (hedit : d.Recommented n comment d')

include hnodup hn

theorem recomment_cases (comment : String) {m : Node} (hm : m ∈ walkOf d.root.nodes) :
    (m = n ∧ recomment n comment m.header = { m.header with comment }) ∨
      recomment n comment m.header = m.header := by
  by_cases hline : m.line = n.line
  · exact .inl ⟨List.inj_on_of_nodup_map hnodup hm hn hline, if_pos hline⟩
  · exact .inr (if_neg hline)

include hd

/-- **The document can still be loaded,** if the comment can be one. -/
theorem Recommented.settled (hedit : d.Recommented n comment d') (hsimple : options.simple = false)
    (hcomment : Line.IsComment comment.toList) : d'.Settled options unit := by
  have hlevel : ∀ h : Header, (recomment n comment h).level = h.level := by
    intro h
    rw [recomment, onLine]
    split <;> rfl
  refine ⟨hedit.separator ▸ hd.separator, hd.isUnit, hedit.indentation ▸ hd.indentation,
    hedit.nodes ▸ hd.orderly.relabel hlevel, ?_⟩
  rw [hedit.nodes, walkOf_map_relabel]
  rintro _ hmap
  obtain ⟨m, hm, rfl⟩ := List.mem_map.1 hmap
  obtain ⟨line, hread⟩ := hd.reads m hm
  rcases recomment_cases hnodup hn comment hm with ⟨_, heq⟩ | heq
  · exact hread.exists_relabel hsimple heq hcomment
  · exact hread.exists_relabel hsimple heq hread.isComment.1

include hentry

theorem lineText_recomment {m : Node} (hm : m ∈ walkOf d.root.nodes) :
    ((m.relabel (recomment n comment)).lineText unit ": ".toList).head?
        = (m.lineText unit ": ".toList).head? ∧
      ('\n' ∉ m.lineText unit ": ".toList → '\n' ∉ comment.toList →
        '\n' ∉ (m.relabel (recomment n comment)).lineText unit ": ".toList) := by
  rcases recomment_cases hnodup hn comment hm with ⟨rfl, heq⟩ | heq
  · obtain ⟨h, value, rfl⟩ := Node.exists_of_isEntry hentry
    rw [Node.relabel, show recomment _ comment h = _ from heq]
    exact lineText_entry_comment hd.isUnit h value comment
  · rw [Node.lineText_relabel heq]
    exact ⟨rfl, fun hline _ => hline⟩

include hedit

/-- Lines keep their first characters, and stay lines. -/
theorem Recommented.lines_spec :
    (d'.lines.map String.toList).flatten.head? = (d.lines.map String.toList).flatten.head? ∧
      ((∀ m ∈ walkOf d.root.nodes, '\n' ∉ m.lineText unit ": ".toList) → '\n' ∉ comment.toList →
        ∀ line ∈ d'.lines, '\n' ∉ line.toList) := by
  have hlines : d'.lines.map String.toList = (walkOf d.root.nodes).map fun m =>
      (m.relabel (recomment n comment)).lineText unit ": ".toList := by
    rw [toList_lines (hedit.separator ▸ hd.separator) (hedit.indentation ▸ hd.indentation), hedit.nodes,
      walkOf_map_relabel, List.map_map]
    rfl
  constructor
  · refine head?_flatten_congr ?_
    rw [hlines, toList_lines hd.separator hd.indentation, List.map_map, List.map_map]
    exact List.map_congr_left fun m hm => (lineText_recomment hd hnodup hn hentry hm).1
  · intro hfeeds hcomment line hline
    have hmem : line.toList ∈ d'.lines.map String.toList := List.mem_map_of_mem hline
    rw [hlines] at hmem
    obtain ⟨m, hm, heq⟩ := List.mem_map.1 hmem
    rw [← heq]
    exact (lineText_recomment hd hnodup hn hentry hm).2 (hfeeds m hm) hcomment

end

theorem Settled.find?_save {d : Document} {options : Options} {unit : List Char}
    (hd : d.Settled options unit) (hne : d.root.nodes ≠ [])
    (hfeeds : ∀ n ∈ walkOf d.root.nodes, '\n' ∉ n.lineText unit ": ".toList) :
    d.save.toList.find? (· ≠ '\n') = (d.lines.map String.toList).flatten.head? := by
  rw [save, toList_join_lines (lines_ne_nil hne), toList_lines hd.separator hd.indentation]
  refine find?_feed fun line hline => ?_
  obtain ⟨n, hn, rfl⟩ := List.mem_map.1 hline
  exact hfeeds n hn

/-- What stands at a place comes back there with its header. -/
theorem exists_at?_of_bare {s t : Section} {f : Header → Header}
    (h : bareOf t.nodes = bareOf (s.nodes.map (·.relabel f))) {i : Nat} {rest : List Nat} {n : Node}
    (hn : s.at? i rest = some n) :
    ∃ n', t.at? i rest = some n' ∧ n'.key = (f n.header).key ∧ n'.value? = n.value? ∧
      n'.comment = (f n.header).comment := by
  have hat : (t.at? i rest).map Node.bare = some (n.relabel f).bare := by
    have hreturned := Section.at?_map_relabel s f i rest
    rw [hn] at hreturned
    rw [Section.bare_at?, h, ← Section.bare_at? { s with nodes := s.nodes.map _ }, hreturned]
    rfl
  obtain ⟨n', hn', hsame⟩ := Option.map_eq_some_iff.1 hat
  have hheader := Node.header_relabel f n
  refine ⟨n', hn', ?_, ?_, ?_⟩
  · rw [← Node.key_bare, hsame, Node.key_bare, Node.key, hheader]
  · rw [← Node.value?_bare, hsame, Node.value?_bare, Node.value?_relabel]
  · rw [← Node.comment_bare, hsame, Node.comment_bare, Node.comment, hheader]

/-- **A comment survives saving unless its text starts with `##` or ends in a carriage return.** The
document was loaded without errors from any bytes, and is not saved as a text that starts with a byte
order mark, empty lines aside. One of its entries, wherever it stands, gets a comment that has no line
feed. -/
theorem loadText_save_setComment_iff {source : Text.Bytes} {fileName : String} {options : Options}
    {d : Document} {i : Nat} {rest : List Nat} {n : Node} {text : String}
    (hsimple : options.simple = false) (hseparator : options.separator = ":")
    (h : load source fileName options = .ok d) (herrors : d.errors = 0)
    (hmark : d.save.toList.find? (· ≠ '\n') ≠ some byteOrderMark) (hn : d.root.at? i rest = some n)
    (hentry : n.isEntry = true) (hfeed : '\n' ∉ text.toList) :
    ∃ d', loadText { d with root := d.root.modifyAt (·.setComment text) i rest }.save fileName options
        = .ok d' ∧
      ((d'.errors = 0 ∧ ∃ n', d'.root.at? i rest = some n' ∧ n'.key = n.key ∧ n'.value? = n.value? ∧
          n'.comment = (n.setComment text).comment) ↔
        ¬"##".toList <+: text.toList ∧ text.toList.getLast? ≠ some '\r') := by
  obtain ⟨unit, hd, hnodup, hlines⟩ := exists_settled hseparator h herrors
  have hmem := Section.mem_walkOf_of_at? hn
  generalize hd₁ : ({ d with root := d.root.modifyAt (·.setComment text) i rest } : Document) = d₁
  have hedit : d.Recommented n (asComment text) d₁ := by
    refine hd₁ ▸ ⟨rfl, rfl, ?_⟩
    exact Section.modifyAt_eq_relabel hnodup hn fun h => { h with comment := asComment text }
  obtain ⟨hhead, hfeeds⟩ := hedit.lines_spec hd hnodup hmem hentry
  have hlines₁ := hfeeds hlines (feed_not_mem_asComment hfeed)
  have hne : d.root.nodes ≠ [] := by
    intro hnil
    rw [hnil] at hmem
    cases hmem
  have hne₁ : d₁.root.nodes ≠ [] := by
    rwa [hedit.nodes, Ne, List.map_eq_nil_iff]
  rw [Node.comment_setComment, ← isComment_asComment_iff, Ne, ← getLast?_asComment]
  by_cases hcomment : Line.IsComment (asComment text).toList
  · rw [hd.find?_save hne hlines, ← hhead] at hmark
    obtain ⟨d', hload, herrors', hbare⟩ := (hedit.settled hd hnodup hmem hsimple hcomment).exists_loadText_save
      hsimple hseparator hne₁ hlines₁ hmark
    have htwice : d₁.root.nodes.map (·.relabel Header.crop)
        = d.root.nodes.map (·.relabel (Header.crop ∘ recomment n (asComment text))) := by
      rw [hedit.nodes, List.map_map]
      exact List.map_congr_left fun m _ => Node.relabel_relabel ..
    obtain ⟨n', hn', hkey, hvalue, hback⟩ := exists_at?_of_bare (htwice ▸ hbare) hn
    have hheader : recomment n (asComment text) n.header = { n.header with comment := asComment text } :=
      if_pos rfl
    rw [Function.comp_apply, hheader] at hkey hback
    refine ⟨d', hload, fun ⟨_, m, hm, _, _, heq⟩ => ⟨hcomment, ?_⟩, fun ⟨_, hlast⟩ => ?_⟩
    · rw [hn'] at hm
      cases hm
      rw [heq] at hback
      have hchars := congrArg String.toList hback
      rw [Header.crop, String.toList_ofList] at hchars
      exact dropReturn_eq_self_iff.1 hchars.symm
    · refine ⟨herrors', n', hn', hkey, hvalue, hback.trans ?_⟩
      rw [Header.crop, dropReturn_eq hlast, String.ofList_toList]
  · -- a node that is read has a comment that can be one
    refine ⟨_, loadText_save_received (by rw [hseparator]; rfl) hne₁ hlines₁, ?_⟩
    refine iff_of_false ?_ fun hboth => hcomment hboth.1
    rintro ⟨herrors', n', hn', _, _, heq⟩
    obtain ⟨_, _, _, _, heach⟩ := readsEach_of_errors herrors'
    obtain ⟨_, _, hread⟩ := heach.exists_line (Section.mem_walkOf_of_at? hn')
    exact hcomment (heq ▸ hread.isComment.1)

/-- An entry in a section gets a comment that has `##` in it. -/
theorem loadText_save_setComment_boxed :
    ∃ d n d', loadText "box: # things\n   a: 1 # one\nc: d" "notes" {} = .ok d ∧ d.errors = 0 ∧
      d.root.at? 0 [0] = some n ∧ n.key = some "a" ∧ n.value? = some "1" ∧
      loadText { d with root := d.root.modifyAt (·.setComment "# two ## three") 0 [0] }.save "notes" {}
        = .ok d' ∧ d'.errors = 0 ∧
      ∃ n', d'.root.at? 0 [0] = some n' ∧ n'.key = n.key ∧ n'.value? = n.value? ∧
        n'.comment = "# two ## three" := by
  have hlines : sourceLines (Text.toBytes "box: # things\n   a: 1 # one\nc: d")
      = .ok [(1, "box: # things"), (2, "   a: 1 # one"), (3, "c: d")] := by cbv
  obtain ⟨d, hd⟩ : ∃ d, d = ofLines "notes" {} [(1, "box: # things"), (2, "   a: 1 # one"), (3, "c: d")] :=
    ⟨_, rfl⟩
  have h : loadText "box: # things\n   a: 1 # one\nc: d" "notes" {} = .ok d :=
    (loadText_eq_ok hlines).2 ⟨rfl, hd.symm⟩
  have herrors : d.errors = 0 := by
    rw [hd]
    cbv
  have hmark : d.save.toList.find? (· ≠ '\n') ≠ some byteOrderMark := by
    have hsave : d.save = "box: # things\n   a: 1 # one\nc: d\n" := by
      rw [hd]
      cbv
    rw [hsave]
    decide
  have hn : d.root.at? 0 [0]
      = some (.leaf { key := some "a", comment := "# one", line := some 2, level := 1 } (.entry "1")) := by
    rw [hd]
    cbv
  obtain ⟨d', hload, hiff⟩ :=
    @loadText_save_setComment_iff _ _ _ _ _ _ _ "# two ## three" rfl rfl h herrors hmark hn rfl (by decide)
  obtain ⟨herrors', n', hn', hkey, hvalue, hcomment⟩ := hiff.2 (by decide)
  refine ⟨d, _, d', h, herrors, hn, rfl, rfl, hload, herrors', n', hn', hkey, hvalue, ?_⟩
  rw [hcomment]
  rfl

/-- Two `#` at the start of a comment are read as one in the value. -/
theorem loadText_save_setComment_lost :
    ∃ d d', loadText "a: b" "notes" {} = .ok d ∧ d.errors = 0 ∧
      { d with root := d.root.modifyAt (·.setComment "##x") 0 [] }.save = "a: b ##x\n" ∧
      loadText { d with root := d.root.modifyAt (·.setComment "##x") 0 [] }.save "notes" {} = .ok d' ∧
      d'.root.nodes.map (fun n => (n.key, n.value?, n.comment)) = [(some "a", some "b #x", "")] := by
  have hlines : sourceLines (Text.toBytes "a: b") = .ok [(1, "a: b")] := by cbv
  have hwritten : sourceLines (Text.toBytes "a: b ##x\n") = .ok [(1, "a: b ##x")] := by cbv
  obtain ⟨d, hd⟩ : ∃ d, d = ofLines "notes" {} [(1, "a: b")] := ⟨_, rfl⟩
  have hsave : { d with root := d.root.modifyAt (·.setComment "##x") 0 [] }.save = "a: b ##x\n" := by
    rw [hd]
    cbv
  refine ⟨d, ofLines "notes" {} [(1, "a: b ##x")], (loadText_eq_ok hlines).2 ⟨rfl, hd.symm⟩, ?_, hsave,
    ?_, by cbv⟩
  · rw [hd]
    cbv
  · rw [hsave]
    exact (loadText_eq_ok hwritten).2 ⟨rfl, rfl⟩

end Document

end ScriptStore.Config
