/-!
# Cutting and joining text

Plain cuts of character lists: at every character of a class, at the first occurrence of a
separator, and back together again.
-/

namespace ScriptStore.Text

/-- The pieces between the characters that satisfy `p`. There is always one more piece than there
are cuts, so the empty text has one empty piece. -/
def splitWhere (p : Char → Bool) : List Char → List (List Char)
  | [] => [[]]
  | c :: rest =>
    if p c then [] :: splitWhere p rest
    else match splitWhere p rest with
      | [] => [[c]]
      | piece :: pieces => (c :: piece) :: pieces

/-- The text before and after the first occurrence of `sep`. The empty separator occurs at the
very start. -/
def splitOnce (sep : List Char) : List Char → Option (List Char × List Char)
  | [] => if sep.isEmpty then some ([], []) else none
  | c :: rest =>
    if sep.isPrefixOf (c :: rest) then some ([], (c :: rest).drop sep.length)
    else (splitOnce sep rest).map fun (front, back) => (c :: front, back)

/-- The text without `front`, if it starts with it. -/
def dropFront? (front s : List Char) : Option (List Char) :=
  if front.isPrefixOf s then some (s.drop front.length) else none

/-- The text without `back`, if it ends with it. -/
def dropBack? (back s : List Char) : Option (List Char) :=
  (dropFront? back.reverse s.reverse).map List.reverse

/-- The texts one after another with `sep` between neighbours. -/
def join (sep : String) (l : List String) : String := String.intercalate sep l

/-- The pieces of a string between the occurrences of the character `c`. -/
def splitAtChar (c : Char) (s : String) : List String :=
  (splitWhere (· == c) s.toList).map String.ofList

end ScriptStore.Text
