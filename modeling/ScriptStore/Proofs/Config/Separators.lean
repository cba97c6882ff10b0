import ScriptStore.Proofs.Config.SavedEdits

/-!
# Saving with a separator other than the colon

An entry is written with a blank on either side of its separator. Behind a colon that changes nothing,
but in front of another separator the blank can be read as something else. If the key is empty, it is
indentation; if the separator has blanks in it, the blank and the end of the key may give a place where
the separator stands already.

These are all the ways in which a document without errors is saved as something else. The separator must
be clear of every key (`Clear`), and there must be no entry with an empty key. One kind of document
escapes the second condition: if the unit is made of spaces, and the lines below the first level are just
those of entries with an empty key, all at the second level, their blank only makes the unit longer.
-/

namespace ScriptStore.Config

open Text (isBlank trim Tight)

/-! ## The text of an entry -/

/-- Whether a text is an entry with that key and value. -/
def IsEntry (options : Options) (text key value : List Char) : Prop :=
  headerKey? options text = none ∧
    ∃ front back, Text.splitOnce options.separator.toList text = some (front, back) ∧
      trim front = key ∧ trim back = value

/-- The text that is written for an entry, without the blanks at its ends. -/
def entryText (separator key value : List Char) : List Char :=
  (if key = [] then [] else key ++ [' ']) ++ (separator ++ (if value = [] then [] else ' ' :: value))

/-- Whether the separator does not stand where a key begins or goes on, also not with what is written
behind the key. -/
def Clear (separator key : List Char) : Prop :=
  ∀ i < key.length, ¬separator <+: (key ++ ' ' :: separator).drop i

instance (separator key : List Char) : Decidable (Clear separator key) :=
  inferInstanceAs (Decidable (∀ i < key.length, ¬separator <+: (key ++ ' ' :: separator).drop i))

section

variable {options : Options} {text key value : List Char}

theorem IsEntry.trim_key (h : IsEntry options text key value) : trim key = key := by
  obtain ⟨_, front, _, _, rfl, _⟩ := h
  exact Text.trim_trim front

theorem IsEntry.trim_value (h : IsEntry options text key value) : trim value = value := by
  obtain ⟨_, _, back, _, _, rfl⟩ := h
  exact Text.trim_trim back

/-- The key, the separator and the value come from the text. -/
theorem IsEntry.mem_text (h : IsEntry options text key value) (hsep : options.separator.toList ≠ [])
    {c : Char} (hc : c ∈ key ∨ c ∈ options.separator.toList ∨ c ∈ value) : c ∈ text := by
  obtain ⟨_, front, back, hcut, rfl, rfl⟩ := h
  obtain ⟨rfl, _⟩ := (Text.splitOnce_eq_some hsep).1 hcut
  rcases hc with hc | hc | hc
  · exact List.mem_append_left _ (Text.mem_of_mem_trim hc)
  · exact List.mem_append_right _ (List.mem_append_left _ hc)
  · exact List.mem_append_right _ (List.mem_append_right _ (Text.mem_of_mem_trim hc))

/-- With an empty key, the separator starts the text. -/
theorem IsEntry.head?_separator (h : IsEntry options text [] value) (htight : Tight text)
    (hsep : options.separator.toList ≠ []) :
    ∃ c, options.separator.toList.head? = some c ∧ isBlank c = false := by
  obtain ⟨_, front, back, hcut, hfront, _⟩ := h
  obtain ⟨rfl, _⟩ := (Text.splitOnce_eq_some hsep).1 hcut
  obtain ⟨⟨c, hc, hblank⟩, _⟩ := htight
  cases front with
  | nil =>
    obtain ⟨d, rest, hd⟩ := List.exists_cons_of_ne_nil hsep
    rw [hd] at hc ⊢
    exact ⟨c, hc, hblank⟩
  | cons d front =>
    cases hc
    rw [Text.trim_eq_nil_iff.1 hfront c (.head _)] at hblank
    cases hblank

/-- With an empty value, the separator ends the text, and not with a colon. -/
theorem IsEntry.getLast?_separator (h : IsEntry options text key []) (htight : Tight text)
    (hsep : options.separator.toList ≠ []) :
    ∃ c, options.separator.toList.getLast? = some c ∧ isBlank c = false ∧ c ≠ ':' := by
  obtain ⟨hheader, front, back, hcut, _, hback⟩ := h
  obtain ⟨htext, _⟩ := (Text.splitOnce_eq_some hsep).1 hcut
  obtain ⟨_, c, hc, hblank⟩ := htight
  have hnil : back = [] := by
    by_contra hne
    obtain ⟨d, hd⟩ : ∃ d, back.getLast? = some d := ⟨_, List.getLast?_eq_some_getLast hne⟩
    rw [htext, List.getLast?_append, List.getLast?_append, hd, Option.some_or, Option.some_or] at hc
    cases hc
    rw [Text.trim_eq_nil_iff.1 hback c (List.mem_of_getLast? hd)] at hblank
    cases hblank
  subst hnil
  obtain ⟨last, hlast⟩ : ∃ d, options.separator.toList.getLast? = some d :=
    ⟨_, List.getLast?_eq_some_getLast hsep⟩
  rw [htext, List.append_nil, List.getLast?_append, hlast, Option.some_or] at hc
  cases hc
  refine ⟨c, hlast, hblank, ?_⟩
  rintro rfl
  -- the text would open a section
  obtain ⟨init, hinit⟩ := List.getLast?_eq_some_iff.1 hlast
  have hdrop : Text.dropBack? [':'] text = some (front ++ init) := by
    rw [Text.dropBack?_eq_some, htext, List.append_nil, hinit, List.append_assoc]
  simp [headerKey?, hdrop, hcut, hlast] at hheader

/-- The written text has content up to its ends. -/
theorem IsEntry.tight_entryText (h : IsEntry options text key value) (htight : Tight text)
    (hsep : options.separator.toList ≠ []) :
    Tight (entryText options.separator.toList key value) := by
  unfold entryText
  constructor
  · by_cases hkey : key = []
    · subst hkey
      obtain ⟨c, hc, hblank⟩ := h.head?_separator htight hsep
      exact ⟨c, by simp [hc], hblank⟩
    · obtain ⟨⟨c, hc, hblank⟩, _⟩ := Text.tight_of_trim_eq h.trim_key hkey
      exact ⟨c, by simp [hkey, hc], hblank⟩
  · by_cases hvalue : value = []
    · subst hvalue
      obtain ⟨c, hc, hblank, _⟩ := h.getLast?_separator htight hsep
      exact ⟨c, by simp [List.getLast?_append, hc], hblank⟩
    · obtain ⟨_, c, hc, hblank⟩ := Text.tight_of_trim_eq h.trim_value hvalue
      exact ⟨c, by simp [List.getLast?_append, List.getLast?_cons, hvalue, hc], hblank⟩

end

/-- A text that starts its own continuation behind a blank is all blanks. -/
theorem eq_space_of_isPrefix {s : List Char} (h : s <+: ' ' :: s) : ∀ c ∈ s, c = ' ' := by
  induction s with
  | nil => exact fun c hc => absurd hc List.not_mem_nil
  | cons d s ih =>
    obtain ⟨rfl, hrest⟩ := List.cons_prefix_cons.1 h
    exact List.forall_mem_cons.2 ⟨rfl, ih hrest⟩

theorem trim_padded {value : List Char} (hvalue : trim value = value) :
    trim (if value = [] then [] else ' ' :: value) = value := by
  split
  · next hnil => rw [hnil]; rfl
  · rw [Text.trim_cons_of_blank rfl, hvalue]

section

variable {separator key value front back : List Char}

/-- What a cut of the written text gives, when it is not before the end of the key. -/
theorem trim_of_cut (hkey : trim key = key) (hvalue : trim value = value)
    (hcut : entryText separator key value = front ++ (separator ++ back))
    (hlow : key.length ≤ front.length)
    (hhigh : front.length ≤ (if key = [] then [] else key ++ [' ']).length) :
    trim front = key ∧ trim back = value := by
  by_cases hnil : key = []
  · subst hnil
    obtain rfl : front = [] := by simpa using hhigh
    rw [entryText, if_pos rfl, List.nil_append, List.nil_append, List.append_cancel_left_eq] at hcut
    rw [← hcut]
    exact ⟨rfl, trim_padded hvalue⟩
  · rw [entryText, if_neg hnil] at hcut
    rw [if_neg hnil, List.length_append, List.length_singleton] at hhigh
    have htight := Text.tight_of_trim_eq hkey hnil
    rcases Nat.lt_or_ge key.length front.length with hlt | hge
    · -- the cut is behind the blank
      obtain ⟨rfl, hrest⟩ := List.append_inj hcut (by simp; omega)
      rw [List.append_cancel_left_eq] at hrest
      rw [← hrest]
      refine ⟨?_, trim_padded hvalue⟩
      have hblank : ∀ c ∈ [' '], isBlank c = true := List.forall_mem_singleton.2 rfl
      exact htight.trim_between (a := []) (fun c hc => absurd hc List.not_mem_nil) hblank
    · -- the cut is at the blank, so the separator is all blanks
      rw [List.append_assoc] at hcut
      obtain ⟨rfl, hrest⟩ := List.append_inj hcut (by omega)
      have hstart : separator <+: ' ' :: separator := by
        refine List.prefix_of_prefix_length_le ⟨back, hrest.symm⟩ ?_ (by simp)
        exact ⟨_, rfl⟩
      have hshift : ' ' :: separator = separator ++ [' '] := by
        rw [List.eq_replicate_of_mem (eq_space_of_isPrefix hstart), ← List.replicate_succ,
          List.replicate_succ']
      rw [List.singleton_append, ← List.cons_append, hshift, List.append_assoc,
        List.append_cancel_left_eq] at hrest
      rw [← hrest, List.singleton_append, Text.trim_cons_of_blank rfl]
      exact ⟨hkey, trim_padded hvalue⟩

theorem drop_entryText (separator value : List Char) {i : Nat} (hi : i < key.length) :
    (entryText separator key value).drop i
      = (key ++ ' ' :: separator).drop i ++ (if value = [] then [] else ' ' :: value) := by
  have hne : key ≠ [] := List.ne_nil_of_length_pos (Nat.zero_lt_of_lt hi)
  have hle : i ≤ (key ++ ' ' :: separator).length := by
    rw [List.length_append]
    omega
  rw [← List.drop_append_of_le_length hle, entryText, if_neg hne, List.append_assoc, List.append_assoc,
    List.singleton_append, List.cons_append]

/-- Where the separator is clear of the key, the written text is not cut before the end of the key. -/
theorem Clear.length_le (hclear : Clear separator key)
    (hcut : entryText separator key value = front ++ (separator ++ back)) :
    key.length ≤ front.length := by
  by_contra hlt
  rw [Nat.not_le] at hlt
  apply hclear front.length hlt
  have hdrop := drop_entryText separator value hlt
  rw [hcut, List.drop_left] at hdrop
  refine List.prefix_of_prefix_length_le ⟨back, rfl⟩ ⟨_, hdrop.symm⟩ ?_
  rw [List.length_drop, List.length_append, List.length_cons]
  omega

/-- Where the separator is not clear of the key, the written text is cut inside the key. -/
theorem exists_cut_of_not_clear (value : List Char) {i : Nat} (hi : i < key.length)
    (hstart : separator <+: (key ++ ' ' :: separator).drop i) :
    ∃ front back, Text.splitOnce separator (entryText separator key value) = some (front, back) ∧
      front.length ≤ i := by
  apply Text.exists_splitOnce
  rw [drop_entryText separator value hi]
  exact hstart.trans (List.prefix_append _ _)

end

/-- **The text that is written for an entry is that entry if the separator is clear of the key, and
only then.** -/
theorem isEntry_entryText_iff {options : Options} (hsimple : options.simple = false)
    (hsep : options.separator.toList ≠ []) {key value : List Char} (hkey : trim key = key)
    (hvalue : trim value = value) (hlast : value = [] → options.separator.toList.getLast? ≠ some ':') :
    IsEntry options (entryText options.separator.toList key value) key value ↔
      Clear options.separator.toList key := by
  constructor
  · rintro ⟨_, front, back, hcut, hfront, _⟩ i hi hstart
    obtain ⟨front', back', hcut', hle⟩ := exists_cut_of_not_clear value hi hstart
    rw [hcut] at hcut'
    cases hcut'
    have hshort := Text.length_trim_le front
    rw [hfront] at hshort
    omega
  · intro hclear
    have hstands : options.separator.toList <+: (entryText options.separator.toList key value).drop
        (if key = [] then [] else key ++ [' ']).length := by
      rw [entryText, List.drop_left]
      exact List.prefix_append _ _
    obtain ⟨front, back, hcut, hhigh⟩ := Text.exists_splitOnce hstands
    have htext := ((Text.splitOnce_eq_some hsep).1 hcut).1
    obtain ⟨hfront, hback⟩ := trim_of_cut hkey hvalue htext (hclear.length_le htext) hhigh
    refine ⟨?_, front, back, hcut, hfront, hback⟩
    rw [headerKey?]
    split
    · rfl
    · -- with nothing behind it, the separator does not end in a colon
      dsimp only
      rw [hsimple, hcut]
      by_cases hnil : back = []
      · subst hnil
        simp [hlast hback.symm]
      · simp [hnil]

/-! ## Lines -/

/-- Content behind blanks stands at a level if the blanks are the indentation of the level. -/
theorem standsAt_append_iff {unit blanks text : List Char} {level : Nat} (hunit : IsUnit unit)
    (hblanks : ∀ c ∈ blanks, isBlank c = true) (htext : Line.startsWithContent text = true) :
    StandsAt unit level (blanks ++ text) ↔ blanks = indentOf unit level := by
  constructor
  · rintro ⟨text', heq, htext'⟩
    rw [← Line.indentation_append hblanks htext, heq, hunit.indentation_eq htext']
  · rintro rfl
    exact ⟨text, rfl, htext⟩

/-- Whether a node is an entry with an empty key. -/
def Node.isKeyless (n : Node) : Bool := n.isEntry && n.key == some ""

/-- The blank that the line of an entry with an empty key starts with, behind its indentation. -/
def Node.pad (n : Node) : List Char := if n.isKeyless then [' '] else []

theorem Node.blank_pad {n : Node} {c : Char} (hc : c ∈ n.pad) : isBlank c = true := by
  rw [Node.pad] at hc
  split at hc
  · rw [List.mem_singleton.1 hc]
    rfl
  · cases hc

theorem Node.isNamed_of_isKeyless {n : Node} (h : n.isKeyless = true) : n.isNamed = true := by
  rw [Node.isKeyless, Bool.and_eq_true] at h
  rw [Node.isNamed, h.1, Bool.true_or]

section

variable {options : Options} {unit unit' : List Char} {line : String}

theorem readsAs_entry_iff (hsimple : options.simple = false) {h : Header} {key value : String}
    (hkey : h.key = some key) :
    ReadsAs options unit (.leaf h (.entry value)) line ↔
      StandsAt unit h.level (valueOf line) ∧ commentOf line = h.comment ∧
        IsEntry options (trim (valueOf line)) key.toList value.toList := by
  have hsplit : ∀ {front back : List Char}, h.key = some (String.ofList (trim front)) ∧
      Leaf.entry value = .entry (String.ofList (trim back)) ↔
        trim front = key.toList ∧ trim back = value.toList := by
    intro front back
    rw [hkey, Option.some.injEq, Leaf.entry.injEq, ← String.toList_inj, ← String.toList_inj,
      String.toList_ofList, String.toList_ofList, eq_comm, @eq_comm _ value.toList]
  constructor
  · intro hread
    cases hread with
    | leaf hat hheader hleaf =>
      obtain ⟨front, back, hcut, hfront, hback, hcomment⟩ := (leafOf_eq_iff hsimple).1 (hleaf 0)
      exact ⟨hat, hcomment.symm, hheader, front, back, hcut, hsplit.1 ⟨hfront, hback⟩⟩
  · rintro ⟨hat, hcomment, hheader, front, back, hcut, hparts⟩
    obtain ⟨hfront, hback⟩ := hsplit.2 hparts
    refine .leaf hat hheader fun number => ?_
    exact (leafOf_eq_iff hsimple).2 ⟨front, back, hcut, hfront, hback, hcomment.symm⟩

/-- A line that is split has a key. -/
theorem ReadsAs.exists_key (hsimple : options.simple = false) {h : Header} {content : Leaf}
    (hread : ReadsAs options unit (.leaf h content) line) (hvoid : content ≠ .void) :
    ∃ key value, h.key = some key ∧ content = .entry value := by
  cases hread with
  | void => exact absurd rfl hvoid
  | leaf _ _ hleaf =>
    obtain ⟨front, back, _, hkey, hcontent, _⟩ := (leafOf_eq_iff hsimple).1 (hleaf 0)
    exact ⟨_, _, hkey, hcontent⟩

/-- The body of an entry is its text, with a blank in the place of a missing key or value. -/
theorem body_entry {h : Header} {key value : String} (hkey : h.key = some key)
    (separator : List Char) :
    (Node.leaf h (.entry value)).body (' ' :: (separator ++ [' ']))
      = (Node.leaf h (.entry value)).pad ++ entryText separator key.toList value.toList
        ++ (if value.toList = [] then [' '] else []) := by
  have hpad : (Node.leaf h (.entry value)).pad = if key.toList = [] then [' '] else [] := by
    simp [Node.pad, Node.isKeyless, Node.isEntry, Node.key, Node.header, hkey]
  rw [hpad, entryText]
  by_cases hk : key.toList = []
  · by_cases hv : value.toList = []
    · simp [Node.body, Node.key, Node.header, hkey, hk, hv]
    · simp [Node.body, Node.key, Node.header, hkey, hk, hv]
  · by_cases hv : value.toList = []
    · simp [Node.body, Node.key, Node.header, hkey, hk, hv]
    · simp [Node.body, Node.key, Node.header, hkey, hk, hv]

/-- The line of a section is read as the section under another unit if its indentation is the same
there. -/
theorem readsAs_written_block_iff (hunit : IsUnit unit) (hunit' : IsUnit unit') {h : Header}
    {index : Index} {childLevel : Nat} {nodes : List Node}
    (hread : ReadsAs options unit (.block h index childLevel nodes) line) (separator : List Char) :
    ReadsAs options unit' (.block h index childLevel nodes) (String.ofList
        ((Node.block h index childLevel nodes).lineText unit separator)) ↔
      indentOf unit h.level = indentOf unit' h.level := by
  have hcomment := hread.isComment.1
  cases hread with
  | block hat hheader hkey _ =>
    have hbody : (Node.block h index childLevel nodes).body separator = trim (valueOf line) := by
      rw [headerKey?_eq_some hheader, Node.body, Node.key, Node.header, hkey, Option.getD_some,
        String.toList_ofList]
    have htight : Tight ((Node.block h index childLevel nodes).body separator) :=
      hbody ▸ Text.tight_trim hat.trim_ne_nil
    have hwritten := written_content hunit htight rfl hcomment
    obtain ⟨text, hvalue, htext⟩ := hwritten.standsAt
    have hmoved : StandsAt unit' h.level (indentOf unit h.level ++ text) ↔
        indentOf unit h.level = indentOf unit' h.level :=
      standsAt_append_iff hunit' (fun _ => hunit.blank_indentOf) htext
    constructor
    · intro hread'
      have hat' := hread'.standsAt rfl
      rw [hvalue] at hat'
      exact hmoved.1 hat'
    · intro heq
      refine .block ?_ ?_ hkey hwritten.comment_eq
      · rw [hvalue]
        exact hmoved.2 heq
      · rw [hwritten.trim_eq, hbody]
        exact hheader

/-- What stands between key and value when an entry is written. -/
def padded (separator : List Char) : List Char := ' ' :: (separator ++ [' '])

variable (hunit : IsUnit unit)

include hunit

/-- A written line holds nothing that the line it comes from did not, but for blanks and a colon. -/
theorem ReadsAs.kept_padded (hsimple : options.simple = false)
    (hsep : options.separator.toList ≠ []) {n : Node}
    (hread : ReadsAs options unit n line) (hplain : ∀ c ∈ line.toList, c ≠ '\n' ∧ IsPlain c) :
    Kept (n.lineText unit (padded options.separator.toList)) := by
  have hmade := hread.isComment.2 ▸ madeOf_lineText hunit (padded options.separator.toList) n
  refine kept_of_rewrites (.of_madeOf hmade fun c hc => ?_) hplain
  cases n with
  | leaf h content =>
    by_cases hvoid : content = .void
    · subst hvoid
      cases hread with
      | void _ hkey _ => simp [Node.body, Node.key, Node.header, hkey] at hc
      | leaf _ _ hleaf => exact absurd rfl (ne_void_of_leafOf (hleaf 0))
    · obtain ⟨key, value, hkey, rfl⟩ := hread.exists_key hsimple hvoid
      obtain ⟨_, _, hentry⟩ := (readsAs_entry_iff hsimple hkey).1 hread
      have hmem := @IsEntry.mem_text options _ _ _ hentry hsep c
      simp only [Node.body, Node.key, Node.header, hkey, padded, Option.getD_some, List.mem_append,
        List.mem_cons, List.not_mem_nil, or_false] at hc
      rcases hc with (hc | hc | hc | hc) | hc
      · exact .inl (hmem (.inl hc))
      · exact .inr (.inr hc)
      · exact .inl (hmem (.inr (.inl hc)))
      · exact .inr (.inr hc)
      · exact .inl (hmem (.inr (.inr hc)))
  | block h index childLevel nodes =>
    cases hread with
    | block _ hheader hkey _ =>
      rw [headerKey?_eq_some hheader]
      simp only [Node.body, Node.key, Node.header, hkey, Option.getD_some,
        String.toList_ofList] at hc
      exact .inl hc

/-- The line that is written for an entry: blanks, its text, and blanks again. -/
theorem exists_valueOf_padded {h : Header} {key value : String} (hkey : h.key = some key)
    (hcomment : Line.IsComment (Node.leaf h (.entry value)).comment.toList) :
    ∃ line back, String.ofList ((Node.leaf h (.entry value)).lineText unit
        (padded options.separator.toList)) = line ∧
      valueOf line = (indentOf unit h.level ++ (Node.leaf h (.entry value)).pad)
        ++ (entryText options.separator.toList key.toList value.toList ++ back) ∧
      commentOf line = h.comment ∧ ∀ c ∈ back, isBlank c = true := by
  obtain ⟨gap, hgap, heq⟩ := lineText_eq hunit (padded options.separator.toList)
    (n := .leaf h (.entry value)) rfl
  rw [padded, body_entry hkey] at heq
  refine ⟨_, (if value.toList = [] then [' '] else []) ++ gap, rfl, ?_, ?_, fun c hc => ?_⟩
  · rw [padded, heq, valueOf_written hcomment]
    simp only [List.append_assoc]
    rfl
  · rw [padded, heq, commentOf_written hcomment, String.ofList_toList]
    rfl
  · rcases List.mem_append.1 hc with hc | hc
    · split at hc
      · rw [List.mem_singleton.1 hc]
        rfl
      · cases hc
    · exact blank_of_space hgap c hc

variable (hunit' : IsUnit unit')

include hunit'

/-- The line of an entry is read as the entry under another unit if its blanks are the indentation
there, and the separator is clear of the key. -/
theorem readsAs_padded_entry_iff (hsimple : options.simple = false)
    (hsep : options.separator.toList ≠ []) {h : Header} {key value : String} (hkey : h.key = some key)
    (hread : ReadsAs options unit (.leaf h (.entry value)) line) :
    ReadsAs options unit' (.leaf h (.entry value)) (String.ofList
        ((Node.leaf h (.entry value)).lineText unit (padded options.separator.toList))) ↔
      indentOf unit h.level ++ (Node.leaf h (.entry value)).pad = indentOf unit' h.level ∧
        Clear options.separator.toList key.toList := by
  obtain ⟨hat, _, hentry⟩ := (readsAs_entry_iff hsimple hkey).1 hread
  have htext := Text.tight_trim hat.trim_ne_nil
  have htight := hentry.tight_entryText htext hsep
  obtain ⟨written, back, hwritten, hvalue, hsame, hback⟩ :=
    @exists_valueOf_padded options unit hunit h key value hkey hread.isComment.1
  have hfront : ∀ c ∈ indentOf unit h.level ++ (Node.leaf h (.entry value)).pad, isBlank c = true := by
    intro c hc
    rcases List.mem_append.1 hc with hc | hc
    · exact hunit.blank_indentOf hc
    · exact Node.blank_pad hc
  have hstart : Line.startsWithContent
      (entryText options.separator.toList key.toList value.toList ++ back) = true := by
    obtain ⟨⟨c, hc, hblank⟩, _⟩ := htight
    exact startsWithContent_iff.2 ⟨c, by rw [List.head?_append, hc]; rfl, hblank⟩
  have htrim : trim (valueOf written) = entryText options.separator.toList key.toList value.toList := by
    rw [hvalue, ← List.append_assoc]
    exact htight.trim_between hfront hback
  -- an entry without a value was no section, so its separator does not end in a colon
  have hlast : value.toList = [] → options.separator.toList.getLast? ≠ some ':' := by
    intro hnil hcolon
    rw [hnil] at hentry
    obtain ⟨c, hc, _, hne⟩ := hentry.getLast?_separator htext hsep
    rw [hcolon] at hc
    cases hc
    exact hne rfl
  rw [hwritten, readsAs_entry_iff hsimple hkey, htrim, hvalue, standsAt_append_iff hunit' hfront hstart,
    hsame, isEntry_entryText_iff hsimple hsep hentry.trim_key hentry.trim_value hlast]
  simp only [true_and]

/-- **A written line is read as its node under another unit if its blanks are the indentation there,
and the separator is clear of the key.** -/
theorem ReadsAs.padded_iff (hsimple : options.simple = false)
    (hsep : options.separator.toList ≠ []) {n : Node} (hread : ReadsAs options unit n line) :
    ReadsAs options unit' n (String.ofList (n.lineText unit (padded options.separator.toList))) ↔
      (n.isNamed = true → indentOf unit n.level ++ n.pad = indentOf unit' n.level) ∧
        (n.isEntry = true → Clear options.separator.toList (n.key.getD "").toList) := by
  cases n with
  | leaf h content =>
    by_cases hvoid : content = .void
    · subst hvoid
      have hcomment := hread.isComment.1
      cases hread with
      | void _ hkey _ =>
        have hbody : (Node.leaf h .void).body (padded options.separator.toList) = [] := by
          simp [Node.body, Node.key, Node.header, hkey]
        have hwritten := written_void hunit hbody rfl hcomment
        exact iff_of_true (.void hwritten.trim_eq hkey hwritten.comment_eq)
          ⟨fun hnamed => absurd hnamed Bool.false_ne_true,
            fun hentry => absurd hentry Bool.false_ne_true⟩
      | leaf _ _ hleaf => exact absurd rfl (ne_void_of_leafOf (hleaf 0))
    · obtain ⟨key, value, hkey, rfl⟩ := hread.exists_key hsimple hvoid
      rw [readsAs_padded_entry_iff hunit hunit' hsimple hsep hkey hread]
      simp only [Node.isNamed, Node.isEntry, Bool.true_or, forall_const, Node.key, Node.header, hkey,
        Option.getD_some, Node.level]
  | block h index childLevel nodes =>
    rw [readsAs_written_block_iff hunit hunit' hread]
    simp [Node.isNamed, Node.isEntry, Node.isSection, Node.pad, Node.isKeyless, Node.level,
      Node.header]

end

/-! ## Units -/

/-- A blank more than the indentation of a level is the indentation of that level under another unit
only at level one, where the unit is one blank longer. -/
theorem eq_one_of_indentOf_blank {unit unit' : List Char} {level : Nat}
    (h : indentOf unit level ++ [' '] = indentOf unit' level) : level = 1 ∧ unit' = unit ++ [' '] := by
  have hlength := congrArg List.length h
  rw [List.length_append, length_indentOf, length_indentOf, List.length_singleton] at hlength
  have hlevel : level = 1 := by
    rw [← Nat.dvd_one, ← Nat.dvd_add_right (Nat.dvd_mul_right level unit.length), hlength]
    exact Nat.dvd_mul_right level unit'.length
  rw [hlevel, indentOf_one, indentOf_one] at h
  exact ⟨hlevel, h.symm⟩

/-- **When there is a unit under which every line stands at its level, with the blank of an entry that
has no key.** -/
theorem exists_unit_iff {unit : List Char} (hunit : IsUnit unit) {nodes : List Node} :
    (∃ unit', IsUnit unit' ∧ ∀ n ∈ nodes, n.isNamed = true →
        indentOf unit n.level ++ n.pad = indentOf unit' n.level) ↔
      (∀ n ∈ nodes, n.isKeyless = false) ∨ (∀ c ∈ unit, c = ' ') ∧
        ∀ n ∈ nodes, n.isNamed = true → n.level = if n.isKeyless then 1 else 0 := by
  constructor
  · rintro ⟨unit', hunit', hall⟩
    have hone : ∀ n ∈ nodes, n.isKeyless = true → n.level = 1 ∧ unit' = unit ++ [' '] := by
      intro n hn hkeyless
      have heq := hall n hn (Node.isNamed_of_isKeyless hkeyless)
      rw [Node.pad, if_pos hkeyless] at heq
      exact eq_one_of_indentOf_blank heq
    rw [or_iff_not_imp_left]
    intro hsome
    simp only [not_forall, Bool.not_eq_false] at hsome
    obtain ⟨m, hm, hkeyless⟩ := hsome
    obtain ⟨_, rfl⟩ := hone m hm hkeyless
    refine ⟨?_, fun n hn hnamed => ?_⟩
    · rcases hunit'.uniform with hspaces | htabs
      · exact fun c hc => hspaces c (List.mem_append_left _ hc)
      · exact absurd (htabs ' ' (by simp)) (by decide)
    · cases hkeyless : n.isKeyless with
      | true => exact (hone n hn hkeyless).1
      | false =>
        -- without a blank more, the longer unit is too long but at level zero
        have hlength := congrArg List.length (hall n hn hnamed)
        rw [Node.pad, hkeyless, if_neg Bool.false_ne_true, List.append_nil, length_indentOf,
          length_indentOf, List.length_append, List.length_singleton, Nat.mul_add, Nat.mul_one] at hlength
        rw [if_neg Bool.false_ne_true]
        omega
  · rintro (hnone | ⟨hspaces, hlevels⟩)
    · refine ⟨unit, hunit, fun n hn _ => ?_⟩
      rw [Node.pad, hnone n hn, if_neg Bool.false_ne_true, List.append_nil]
    · refine ⟨unit ++ [' '], ⟨by simp, .inl ?_⟩, fun n hn hnamed => ?_⟩
      · simpa [or_imp, forall_and] using hspaces
      · rw [hlevels n hn hnamed, Node.pad]
        split
        · rw [indentOf_one, indentOf_one]
        · rfl

/-! ## Documents -/

/-- Nodes that come from lines are all read from their written lines under some unit if, and only if,
the separator is clear of their keys and the blanks in front of it do no harm. -/
theorem exists_readsAs_padded_iff {options : Options} (hsimple : options.simple = false)
    (hsep : options.separator.toList ≠ []) {unit : List Char} (hunit : IsUnit unit) {nodes : List Node}
    (hlines : ∀ n ∈ nodes, FromLine options unit n) :
    (∃ unit', IsUnit unit' ∧ ∀ n ∈ nodes, ReadsAs options unit' n
        (String.ofList (n.lineText unit (padded options.separator.toList)))) ↔
      (∀ n ∈ nodes, n.isEntry = true → Clear options.separator.toList (n.key.getD "").toList) ∧
      ((∀ n ∈ nodes, n.isKeyless = false) ∨ (∀ c ∈ unit, c = ' ') ∧
        ∀ n ∈ nodes, n.isNamed = true → n.level = if n.isKeyless then 1 else 0) := by
  have hnode : ∀ {unit'}, IsUnit unit' → ∀ n ∈ nodes, (ReadsAs options unit' n
      (String.ofList (n.lineText unit (padded options.separator.toList))) ↔
        (n.isNamed = true → indentOf unit n.level ++ n.pad = indentOf unit' n.level) ∧
          (n.isEntry = true → Clear options.separator.toList (n.key.getD "").toList)) := by
    intro unit' hunit' n hn
    obtain ⟨line, hread, _⟩ := hlines n hn
    exact hread.padded_iff hunit hunit' hsimple hsep
  rw [← exists_unit_iff hunit]
  constructor
  · rintro ⟨unit', hunit', hall⟩
    exact ⟨fun n hn => ((hnode hunit' n hn).1 (hall n hn)).2, unit', hunit',
      fun n hn => ((hnode hunit' n hn).1 (hall n hn)).1⟩
  · rintro ⟨hclear, unit', hunit', hstand⟩
    exact ⟨unit', hunit', fun n hn => (hnode hunit' n hn).2 ⟨hstand n hn, hclear n hn⟩⟩

namespace Document

/-- **When a saved document is loaded as the document that was saved, with a separator other than the
colon.** The text is not empty, has no carriage return and no byte order mark, and was loaded without
errors. Its document comes back, with no errors and with all its nodes, if and only if the separator
is clear of the key of every entry, and no entry has an empty key, or else the unit is made of spaces
and the lines below the first level are just those of entries with an empty key. -/
theorem loadText_save_padded_iff {source fileName : String} {options : Options} {d : Document}
    (hsource : source ≠ "") (hplain : ∀ c ∈ source.toList, c ≠ '\r' ∧ c ≠ byteOrderMark)
    (hsimple : options.simple = false) (hseparator : options.separator ≠ ":")
    (h : loadText source fileName options = .ok d) (herrors : d.errors = 0) :
    (∃ d', loadText d.save fileName options = .ok d' ∧ d'.errors = 0 ∧
        sameNodes d'.root.nodes d.root.nodes = true) ↔
      (∀ n ∈ walkOf d.root.nodes, n.isEntry = true →
        Clear options.separator.toList (n.key.getD "").toList) ∧
      ((∀ n ∈ walkOf d.root.nodes, n.isKeyless = false) ∨
        (∀ c ∈ d.indentation.toList, c = ' ') ∧ ∀ n ∈ walkOf d.root.nodes, n.isNamed = true →
          n.level = if n.isKeyless then 1 else 0) := by
  obtain ⟨unit, hd⟩ := exists_isRead hplain h herrors
  have hsep : options.separator.toList ≠ [] := by simpa using hd.someSeparator
  have hsaved : d.saveSeparator.toList = padded options.separator.toList := by
    rw [saveSeparator, hd.separator, if_neg (by simpa using hseparator)]
    simp [padded]
  have hne : d.root.nodes ≠ [] := by
    intro hnil
    have hcount := hd.length_walkOf
    rw [hnil, walkOf, List.length_nil, eq_comm, List.length_eq_zero_iff] at hcount
    exact textLines_ne_nil (mt String.toList_eq_nil_iff.1 hsource) hcount
  have hkept : ∀ n ∈ walkOf d.root.nodes,
      Kept (n.lineText d.indentation.toList d.saveSeparator.toList) := by
    intro n hn
    obtain ⟨line, hread, hclean⟩ := hd.fromLine n hn
    rw [hd.indentation, hsaved]
    exact hread.kept_padded hd.isUnit hsimple hsep hclean
  rw [hd.exists_same_iff hne hkept, exists_loadText_save_iff hd.someSeparator hd.orderly hne hkept,
    hd.indentation, hsaved]
  exact exists_readsAs_padded_iff hsimple hsep hd.isUnit hd.fromLine

/-- An entry without a key that is indented by two blanks comes back indented by three. -/
theorem loadText_save_padded_iff_longer :
    ∃ d, loadText "b:\n  =v\n" "notes" { separator := "=" } = .ok d ∧ d.errors = 0 ∧
      d.save = "b:\n   = v\n" ∧
      ∃ d', loadText d.save "notes" { separator := "=" } = .ok d' ∧ d'.errors = 0 ∧
        sameNodes d'.root.nodes d.root.nodes = true := by
  have hlines : sourceLines (Text.toBytes "b:\n  =v\n") = .ok [(1, "b:"), (2, "  =v")] := by cbv
  have h : loadText "b:\n  =v\n" "notes" { separator := "=" } = .ok _ :=
    (loadText_eq_ok hlines).2 ⟨rfl, rfl⟩
  have hunit : (ofLines "notes" { separator := "=" } [(1, "b:"), (2, "  =v")]).indentation = "  " := by cbv
  have hnodes : (walkOf (ofLines "notes" { separator := "=" } [(1, "b:"), (2, "  =v")]).root.nodes).all
      (fun n => n.isNamed && n.level == (if n.isKeyless then 1 else 0) &&
        (!n.isEntry || decide (Clear ['='] (n.key.getD "").toList))) = true := by cbv
  simp only [List.all_eq_true, Bool.and_eq_true, beq_iff_eq, Bool.or_eq_true, Bool.not_eq_true',
    decide_eq_true_eq] at hnodes
  refine ⟨_, h, by cbv, by cbv, (loadText_save_padded_iff (by decide) (by simp [byteOrderMark]) rfl
    (by decide) h (by cbv)).2 ⟨fun n hn hentry => ?_, .inr ⟨?_, fun n hn _ => (hnodes n hn).1.2⟩⟩⟩
  · exact (hnodes n hn).2.resolve_left (by simp [hentry])
  · rw [hunit]
    simp

/-- **An entry without a key does not come back:** the blank in front of its separator is read as
indentation. -/
theorem loadText_save_keyless :
    ∃ d d', loadText "=v" "notes" { separator := "=" } = .ok d ∧ d.errors = 0 ∧ d.save = " = v\n" ∧
      loadText d.save "notes" { separator := "=" } = .ok d' ∧ d'.errors = 1 ∧
      sameNodes d'.root.nodes d.root.nodes = false := by
  have hlines : sourceLines (Text.toBytes "=v") = .ok [(1, "=v")] := by cbv
  have hlines' : sourceLines (Text.toBytes " = v\n") = .ok [(1, " = v")] := by cbv
  have h : loadText "=v" "notes" { separator := "=" } = .ok _ := (loadText_eq_ok hlines).2 ⟨rfl, rfl⟩
  have h' : loadText " = v\n" "notes" { separator := "=" } = .ok _ :=
    (loadText_eq_ok hlines').2 ⟨rfl, rfl⟩
  have hsave : (ofLines "notes" { separator := "=" } [(1, "=v")]).save = " = v\n" := by cbv
  exact ⟨_, _, h, by cbv, hsave, by rw [hsave]; exact h', by cbv, by cbv⟩

end Document

end ScriptStore.Config
