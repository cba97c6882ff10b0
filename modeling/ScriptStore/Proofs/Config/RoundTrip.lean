import ScriptStore.Proofs.Config.LineByLine

/-!
# A saved document is loaded again

A document that was loaded without errors is saved as lines that are read as the same nodes, one by one
and under the same numbers. Lines that are read alike make the same tree. So loading what was saved
gives the same document, and saving that gives the same text.
-/

namespace ScriptStore.Config

open Text (trim)

/-! ## Lines that are read alike -/

/-- Whether one line can stand in the place of another: whatever is read of it is read of the other. -/
structure Alike (options : Options) (unit : List Char) (line line' : String) : Prop where
  comment : commentOf line' = commentOf line
  void : trim (valueOf line) = [] → trim (valueOf line') = []
  standsAt : ∀ level, StandsAt unit level (valueOf line) → StandsAt unit level (valueOf line')
  header : trim (valueOf line) ≠ [] →
    headerKey? options (trim (valueOf line')) = headerKey? options (trim (valueOf line))
  leaf : trim (valueOf line) ≠ [] → ∀ number n,
    leafOf options (trim (valueOf line)) (commentOf line) number = (n, none) →
      leafOf options (trim (valueOf line')) (commentOf line') number = (n, none)

/-- A line stands at one level only. -/
theorem IsUnit.eq_of_standsAt {unit value : List Char} (hunit : IsUnit unit) {level level' : Nat}
    (h : StandsAt unit level value) (h' : StandsAt unit level' value) : level' = level := by
  obtain ⟨text, rfl, htext⟩ := h
  obtain ⟨text', heq, htext'⟩ := h'
  have hindent := congrArg Line.indentation heq
  rw [hunit.indentation_eq htext, hunit.indentation_eq htext'] at hindent
  have hlength := congrArg List.length hindent
  rw [length_indentOf, length_indentOf] at hlength
  exact (Nat.eq_of_mul_eq_mul_right (List.length_pos_of_ne_nil hunit.ne_nil) hlength).symm

/-- Lines that are read as one node are read alike. -/
theorem ReadsAs.alike {options : Options} {unit : List Char} (hunit : IsUnit unit) {n : Node}
    {line line' : String} (h : ReadsAs options unit n line) (h' : ReadsAs options unit n line') :
    Alike options unit line line' := by
  have hcomment : commentOf line' = commentOf line := h'.isComment.2.trans h.isComment.2.symm
  cases h with
  | void hvoid _ _ =>
    refine ⟨hcomment, fun _ => ?_, fun level hat => absurd hvoid hat.trim_ne_nil,
      fun hne => absurd hvoid hne, fun hne => absurd hvoid hne⟩
    cases h' with
    | void hvoid' _ _ => exact hvoid'
    | leaf _ _ hleaf => exact absurd rfl (ne_void_of_leafOf (hleaf 0))
  | leaf hat hheader hleaf =>
    cases h' with
    | void => exact absurd rfl (ne_void_of_leafOf (hleaf 0))
    | leaf hat' hheader' hleaf' =>
      refine ⟨hcomment, fun hvoid => absurd hvoid hat.trim_ne_nil, fun level hlevel => ?_,
        fun _ => hheader'.trans hheader.symm, fun _ number n hn => ?_⟩
      · exact hunit.eq_of_standsAt hat hlevel ▸ hat'
      · rw [hleaf] at hn
        rw [hleaf', hn]
  | block hat hheader hkey _ =>
    cases h' with
    | block hat' hheader' hkey' _ =>
      have htext : trim (valueOf line') = trim (valueOf line) := by
        rw [headerKey?_eq_some hheader, headerKey?_eq_some hheader']
        have hsame := Option.some.inj (hkey'.symm.trans hkey)
        rw [String.ofList_injective hsame]
      refine ⟨hcomment, fun hvoid => absurd hvoid hat.trim_ne_nil, fun level hlevel => ?_,
        fun _ => by rw [htext], fun _ number n hn => by rwa [htext, hcomment]⟩
      exact hunit.eq_of_standsAt hat hlevel ▸ hat'

/-- **Lines that are read alike, one by one, are the same nodes.** -/
theorem Reads.transfer {options : Options} {unit : List Char} {level : Nat} {known known' : Bool}
    {lines rest lines' : List (Nat × String)} {nodes : List Node}
    (h : Reads options unit level known lines nodes known' rest)
    (hlines : List.Forall₂ (fun e e' => e'.1 = e.1 ∧ Alike options unit e.2 e'.2) lines lines') :
    ∃ rest', List.Forall₂ (fun e e' => e'.1 = e.1 ∧ Alike options unit e.2 e'.2) rest rest' ∧
      Reads options unit level known lines' nodes known' rest' := by
  induction h generalizing lines' with
  | nil =>
    cases hlines
    exact ⟨[], .nil, .nil⟩
  | outside hk hat =>
    obtain ⟨⟨number, line⟩, lines', hfirst, htail, rfl⟩ := List.forall₂_cons_left_iff.1 hlines
    exact ⟨_, .cons hfirst htail, .outside hk (hfirst.2.standsAt _ hat)⟩
  | void hvoid _ ih =>
    obtain ⟨⟨number, line⟩, lines', ⟨rfl, halike⟩, htail, rfl⟩ := List.forall₂_cons_left_iff.1 hlines
    obtain ⟨rest', hrest, hreads⟩ := ih htail
    exact ⟨rest', hrest, halike.comment ▸ .void (halike.void hvoid) hreads⟩
  | leaf hat hkey hleaf _ ih =>
    obtain ⟨⟨number, line⟩, lines', ⟨rfl, halike⟩, htail, rfl⟩ := List.forall₂_cons_left_iff.1 hlines
    obtain ⟨rest', hrest, hreads⟩ := ih htail
    exact ⟨rest', hrest, .leaf (halike.standsAt _ hat) ((halike.header hat.trim_ne_nil).trans hkey)
      (halike.leaf hat.trim_ne_nil _ _ hleaf) hreads⟩
  | block hat hkey _ _ ihInner ih =>
    obtain ⟨⟨number, line⟩, lines', ⟨rfl, halike⟩, htail, rfl⟩ := List.forall₂_cons_left_iff.1 hlines
    obtain ⟨lines₁', hlines₁, hinner⟩ := ihInner htail
    obtain ⟨rest', hrest, hreads⟩ := ih hlines₁
    exact ⟨rest', hrest, halike.comment ▸ .block (halike.standsAt _ hat)
      ((halike.header hat.trim_ne_nil).trans hkey) hinner hreads⟩

/-- Every line is written once more, under its number, as a line that is read alike. -/
theorem ReadsEach.exists_written {options : Options} {unit separator : List Char} (hunit : IsUnit unit)
    (hmode : PlainMode options separator) {lines : List (Nat × String)} {nodes : List Node}
    (h : ReadsEach options unit lines nodes) :
    ∃ written, List.Forall₂ Rewrites lines written ∧
      List.Forall₂ (fun e e' => e'.1 = e.1 ∧ Alike options unit e.2 e'.2) lines written ∧
      written.map (·.2) = linesOf unit separator nodes := by
  rw [linesOf_eq_map]
  unfold ReadsEach at h
  generalize walkOf nodes = walk at h ⊢
  induction h with
  | nil => exact ⟨[], .nil, .nil, rfl⟩
  | @cons e n _ _ hread _ ih =>
    obtain ⟨written, hrewrites, halike, heq⟩ := ih
    obtain ⟨hback, _, hchars⟩ := hread.rewritten hunit hmode
    exact ⟨(e.1, String.ofList (n.lineText unit separator)) :: written,
      .cons ⟨rfl, hchars⟩ hrewrites, .cons ⟨rfl, hread.alike hunit hback⟩ halike,
      by rw [List.map_cons, List.map_cons, heq]⟩

/-! ## Saving -/

/-- The lines of a saved document are numbered from one. -/
theorem sourceLines_join {lines : List String} (hne : lines ≠ [])
    (hclean : ∀ line ∈ lines, ∀ c ∈ line.toList, c ≠ '\n' ∧ IsPlain c) :
    sourceLines (Text.toBytes (Text.join "\n" lines ++ "\n"))
      = .ok ((List.range' 1 lines.length).zip lines) :=
  sourceLines_of_kept hne fun line hline => kept_of_plain (hclean line hline)

/-- Lines written in the place of others have their numbers. -/
theorem map_fst_of_rewrites {lines written : List (Nat × String)}
    (h : List.Forall₂ Rewrites lines written) : written.map (·.1) = lines.map (·.1) := by
  induction h with
  | nil => rfl
  | cons h _ ih => rw [List.map_cons, List.map_cons, h.1, ih]

namespace Document

/-- A document without errors is saved as lines that are loaded as the same document. -/
theorem exists_written {options : Options} (hmode : options.simple = true ∨ options.separator = ":")
    {fileName : String} {lines : List (Nat × String)}
    (h : (ofLines fileName options lines).errors = 0) :
    ∃ written, List.Forall₂ Rewrites lines written ∧
      (ofLines fileName options lines).lines = written.map (·.2) ∧
      (ofLines fileName options written).errors = 0 ∧
      (ofLines fileName options written).indentation
        = (ofLines fileName options lines).indentation ∧
      (ofLines fileName options written).root = (ofLines fileName options lines).root := by
  obtain ⟨unit, known, nodes, hunit, htab, hreads⟩ := reads_of_errors h
  obtain ⟨hroot, hindentation, _⟩ := hreads.ofLines_eq hunit htab fileName
  have hplain : PlainMode options (ofLines fileName options lines).saveSeparator.toList := by
    refine hmode.imp_right fun hcolon => ⟨hcolon, ?_⟩
    rw [saveSeparator, if_pos]
    exact beq_iff_eq.2 hcolon
  obtain ⟨front, hfront, heach⟩ := hreads.readsEach
  rw [List.append_nil] at hfront
  subst hfront
  obtain ⟨written, hrewrites, halike, hlines⟩ := heach.exists_written hunit hplain
  obtain ⟨rest', hrest, hreads'⟩ := hreads.transfer halike
  cases hrest
  obtain ⟨hroot', hindentation', herrors'⟩ := hreads'.ofLines_eq hunit htab fileName
  refine ⟨written, hrewrites, ?_, herrors', hindentation'.trans hindentation.symm,
    hroot'.trans hroot.symm⟩
  rw [hlines, Document.lines, hroot, hindentation, String.toList_ofList, setLevels_eq_map]
  rfl

/-- Documents with the same separator, unit and nodes are saved as the same text. -/
theorem save_congr {d d' : Document} (hseparator : d'.separator = d.separator)
    (hindentation : d'.indentation = d.indentation) (hroot : d'.root = d.root) :
    d'.save = d.save := by
  rw [save, save, Document.lines, Document.lines, saveSeparator, saveSeparator, hseparator,
    hindentation, hroot]

/-- **A saved document is loaded as the document that was saved.** The text has a line, no carriage
return and no byte order mark, and its lines are kept whole or cut at colons. When loading it
reports no error, neither does loading what the document is saved as; the second document has the
unit of indentation and all the nodes of the first, and so it is saved as the same text. -/
theorem loadText_save {source fileName : String} {options : Options} {d : Document}
    (hsource : source ≠ "") (hplain : ∀ c ∈ source.toList, c ≠ '\r' ∧ c ≠ byteOrderMark)
    (hmode : options.simple = true ∨ options.separator = ":")
    (h : loadText source fileName options = .ok d) (herrors : d.errors = 0) :
    ∃ d', loadText d.save fileName options = .ok d' ∧ d'.errors = 0 ∧
      d'.indentation = d.indentation ∧ d'.root = d.root ∧ d'.save = d.save := by
  obtain ⟨hseparator, rfl⟩ := (loadText_eq_ok (sourceLines_toBytes hplain)).1 h
  obtain ⟨written, hrewrites, hlines, herrors', hindentation, hroot⟩ := exists_written hmode herrors
  have hlength : written.length = (textLines source.toList).length := by
    simpa using hrewrites.length_eq.symm
  have hne : written.map (·.2) ≠ [] := by
    intro hnil
    rw [List.map_eq_nil_iff] at hnil
    subst hnil
    exact textLines_ne_nil (mt String.toList_eq_nil_iff.1 hsource) (List.length_eq_zero_iff.1 hlength.symm)
  have hclean := clean_of_rewrites hrewrites fun e he c hc => by
    obtain ⟨chars, hchars, heq⟩ := List.mem_map.1 (List.of_mem_zip he).2
    rw [← heq, String.toList_ofList] at hc
    obtain ⟨hmem, hfeed⟩ := mem_textLines hchars c hc
    exact ⟨hfeed, hplain c hmem⟩
  -- the written lines have the numbers under which they are read
  have hnumbers : (List.range' 1 (written.map (·.2)).length).zip (written.map (·.2)) = written := by
    symm
    refine List.zip_of_prod ?_ rfl
    rw [map_fst_of_rewrites hrewrites, List.map_fst_zip (by simp), List.length_map, hlength]
  have hsource' := sourceLines_join hne fun line hline => by
    obtain ⟨e, he, rfl⟩ := List.mem_map.1 hline
    exact hclean e he
  rw [hnumbers] at hsource'
  refine ⟨ofLines fileName options written, ?_, herrors', hindentation, hroot,
    save_congr rfl hindentation hroot⟩
  rw [save, hlines]
  exact (loadText_eq_ok hsource').2 ⟨hseparator, rfl⟩

/-- A section indented by three blanks, with an escaped comment mark, a comment and a void line. -/
theorem loadText_save_nested :
    ∃ d, loadText "a :  # first\n   b:: 1##2\n#\n\nc: d" "notes" {} = .ok d ∧ d.errors = 0 ∧
      d.save = "a : # first\n   b: : 1##2\n   #\n\nc: d\n" ∧
      ∃ d', loadText d.save "notes" {} = .ok d' ∧ d'.errors = 0 ∧
        d'.indentation = d.indentation ∧ d'.root = d.root ∧ d'.save = d.save := by
  have hlines : sourceLines (Text.toBytes "a :  # first\n   b:: 1##2\n#\n\nc: d")
      = .ok [(1, "a :  # first"), (2, "   b:: 1##2"), (3, "#"), (4, ""), (5, "c: d")] := by cbv
  have h : loadText "a :  # first\n   b:: 1##2\n#\n\nc: d" "notes" {} = .ok _ :=
    (loadText_eq_ok hlines).2 ⟨rfl, rfl⟩
  have herrors : (ofLines "notes" {} [(1, "a :  # first"), (2, "   b:: 1##2"), (3, "#"), (4, ""),
    (5, "c: d")]).errors = 0 := by cbv
  exact ⟨_, h, herrors, by cbv, loadText_save (by decide) (by simp [byteOrderMark]) (.inr rfl) h herrors⟩

end Document

end ScriptStore.Config
