/-!
Cutting text at characters: splitting at a separator, trimming blanks, and stripping a known end.
All functions work on lists of characters; the text versions are stated beside them.
-/

namespace CilWeave.Text

variable {separator : Char} {text : List Char}

/-- Ranges of the white space characters of the universal character set, ascending. -/
def blankRanges : List (Nat × Nat) :=
  [(0x09, 0x0D), (0x20, 0x20), (0x85, 0x85), (0xA0, 0xA0), (0x1680, 0x1680), (0x2000, 0x200A),
   (0x2028, 0x2029), (0x202F, 0x202F), (0x205F, 0x205F), (0x3000, 0x3000)]

def isBlank (char : Char) : Bool :=
  blankRanges.any fun range => range.1 ≤ char.toNat && char.toNat ≤ range.2

def trimChars (text : List Char) : List Char :=
  ((text.dropWhile isBlank).reverse.dropWhile isBlank).reverse

def trim (text : String) : String := String.ofList (trimChars text.toList)

/-- The pieces between separators; a text without one is a single piece. -/
def splitChars (separator : Char) : List Char → List (List Char)
  | [] => [[]]
  | char :: rest =>
    if char = separator then [] :: splitChars separator rest
    else
      match splitChars separator rest with
      | [] => [[char]]
      | piece :: pieces => (char :: piece) :: pieces

def split (separator : Char) (text : String) : List String :=
  (splitChars separator text.toList).map String.ofList

/-- The text after the last separator, or all of it. -/
def afterLast (separator : Char) (text : List Char) : List Char :=
  (text.reverse.takeWhile (· ≠ separator)).reverse

/-- What stands before and after the last separator. -/
def splitLast? (separator : Char) (text : List Char) : Option (List Char × List Char) :=
  if separator ∈ text then
    some ((text.reverse.dropWhile (· ≠ separator)).tail.reverse, afterLast separator text)
  else none

/-- What stands before a known ending. -/
def dropEnding? (ending text : List Char) : Option (List Char) :=
  if ending.isSuffixOf text then some (text.take (text.length - ending.length)) else none

/-- What stands after a known beginning. -/
def dropBeginning? : List Char → List Char → Option (List Char)
  | [], text => some text
  | _ :: _, [] => none
  | expected :: beginning, char :: text =>
    if expected = char then dropBeginning? beginning text else none

/-- What stands before and after the first occurrence of a two-character mark. -/
def splitAtMark? (first second : Char) : List Char → Option (List Char × List Char)
  | [] => none
  | [_] => none
  | left :: right :: rest =>
    if left = first ∧ right = second then some ([], rest)
    else (splitAtMark? first second (right :: rest)).map fun (before, after) => (left :: before, after)

/-- Letters of the basic alphabet compare without regard to case, all else exactly. -/
def sameIgnoringCase (left right : String) : Bool :=
  left.toList.map Char.toLower == right.toList.map Char.toLower

end CilWeave.Text
