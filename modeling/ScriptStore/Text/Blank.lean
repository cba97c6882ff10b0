/-!
# Blank characters

White space in the sense of the Unicode property `White_Space`, and trimming by it. Configuration
lines, timespans and unquoted fields are all trimmed this way; the journal file also needs the
narrower class of ASCII blanks, which is what decides whether a field has to be quoted.
-/

namespace ScriptStore.Text

/-- The code points with the property `White_Space`, as closed ranges. -/
def blankRanges : List (Nat × Nat) :=
  [(0x09, 0x0D), (0x20, 0x20), (0x85, 0x85), (0xA0, 0xA0), (0x1680, 0x1680), (0x2000, 0x200A),
   (0x2028, 0x2029), (0x202F, 0x202F), (0x205F, 0x205F), (0x3000, 0x3000)]

/-- Whether `n` lies in one of the closed ranges of `table`. -/
def inRanges (table : List (Nat × Nat)) (n : Nat) : Bool :=
  table.any fun r => r.1 ≤ n && n ≤ r.2

def isBlank (c : Char) : Bool := inRanges blankRanges c.toNat

/-- Blanks of ASCII: space, tab, line feed, form feed and carriage return. The vertical tab is
not among them, although it is white space. -/
def isAsciiBlank (c : Char) : Bool :=
  c == ' ' || c == '\t' || c == '\n' || c == '\x0c' || c == '\r'

/-! ## Trimming -/

def trimStart (s : List Char) : List Char := s.dropWhile isBlank

def trimEnd (s : List Char) : List Char := (s.reverse.dropWhile isBlank).reverse

def trim (s : List Char) : List Char := trimEnd (trimStart s)

/-- Trimming of a string at both ends. -/
def trimmed (s : String) : String := String.ofList (trim s.toList)

end ScriptStore.Text
