/-!
# UTF-8

Bytes read as text. The bytes are cut into pieces, each a well-formed character, a maximal part
that begins like a character and does not go on like one, or a character cut short by the end.
Strict reading wants characters only and reports the first other piece; lenient reading puts the
replacement character in its place.
-/

namespace ScriptStore.Text

abbrev Bytes := List UInt8

namespace Utf8

/-- The bytes of a text. -/
def encode (s : List Char) : Bytes := s.flatMap String.utf8EncodeChar

inductive Piece where
  | char (c : Char)
  /-- So many bytes that cannot be part of a character. -/
  | invalid (size : Nat)
  /-- The last bytes, which begin a character. -/
  | cutShort
  deriving DecidableEq

/-- What the first byte of a character promises: the bits it contributes, how many bytes follow,
and the bounds of the first of them. The bounds rule out longer spellings than necessary, the
surrogates and everything beyond the last code point. -/
structure Lead where
  bits : Nat
  more : Nat
  low : Nat
  high : Nat

def lead? (b : Nat) : Option Lead :=
  if b < 0xC2 then none
  else if b < 0xE0 then some ⟨b - 0xC0, 1, 0x80, 0xBF⟩
  else if b < 0xF0 then
    some ⟨b - 0xE0, 2, if b == 0xE0 then 0xA0 else 0x80, if b == 0xED then 0x9F else 0xBF⟩
  else if b < 0xF5 then
    some ⟨b - 0xF0, 3, if b == 0xF0 then 0x90 else 0x80, if b == 0xF4 then 0x8F else 0xBF⟩
  else none

def isContinuation (b : UInt8) : Bool := 0x80 ≤ b.toNat && b.toNat ≤ 0xBF

/-- One more group of six bits. -/
def extend (n : Nat) (b : UInt8) : Nat := n * 64 + (b.toNat - 0x80)

/-- Cuts bytes into pieces. -/
def pieces : Bytes → List Piece
  | [] => []
  | b :: rest =>
    if b.toNat < 0x80 then .char (Char.ofNat b.toNat) :: pieces rest
    else match lead? b.toNat with
      | none => .invalid 1 :: pieces rest
      | some l =>
        match rest with
        | [] => [.cutShort]
        | b₁ :: rest₁ =>
          if !(l.low ≤ b₁.toNat && b₁.toNat ≤ l.high) then .invalid 1 :: pieces (b₁ :: rest₁)
          else if l.more == 1 then .char (Char.ofNat (extend l.bits b₁)) :: pieces rest₁
          else match rest₁ with
            | [] => [.cutShort]
            | b₂ :: rest₂ =>
              if !isContinuation b₂ then .invalid 2 :: pieces (b₂ :: rest₂)
              else if l.more == 2 then
                .char (Char.ofNat (extend (extend l.bits b₁) b₂)) :: pieces rest₂
              else match rest₂ with
                | [] => [.cutShort]
                | b₃ :: rest₃ =>
                  if !isContinuation b₃ then .invalid 3 :: pieces (b₃ :: rest₃)
                  else
                    .char (Char.ofNat (extend (extend (extend l.bits b₁) b₂) b₃)) :: pieces rest₃

/-- Where bytes stop being text: after how many of them, and how many the broken part has, if it
is not merely cut short. -/
structure Fault where
  index : Nat
  size : Option Nat
  deriving DecidableEq

def Fault.message (f : Fault) : String :=
  match f.size with
  | some n => s!"invalid utf-8 sequence of {n} bytes from index {f.index}"
  | none => s!"incomplete utf-8 byte sequence from index {f.index}"

/-- The characters of the pieces, the first of which stands at `index`. -/
def collect (index : Nat) : List Piece → Except Fault (List Char)
  | [] => .ok []
  | .char c :: rest =>
    match collect (index + c.utf8Size) rest with
    | .ok s => .ok (c :: s)
    | .error f => .error f
  | .invalid n :: _ => .error ⟨index, some n⟩
  | .cutShort :: _ => .error ⟨index, none⟩

def decode (bytes : Bytes) : Except Fault (List Char) := collect 0 (pieces bytes)

def Piece.shown : Piece → Char
  | .char c => c
  | _ => Char.ofNat 0xFFFD

/-- Reading that never fails: what is not text is shown by replacement characters. -/
def decodeLossy (bytes : Bytes) : List Char := (pieces bytes).map Piece.shown

end Utf8

def toBytes (s : String) : Bytes := Utf8.encode s.toList

def ofBytes (bytes : Bytes) : Except Utf8.Fault String :=
  (Utf8.decode bytes).map String.ofList

def ofBytesLossy (bytes : Bytes) : String := String.ofList (Utf8.decodeLossy bytes)

end ScriptStore.Text
