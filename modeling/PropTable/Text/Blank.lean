/-!
# Blank characters

The blank characters are those of the Unicode property White_Space together with the four
information separators `001C` to `001F`. They part the words of a formula file, and they are cut
from the end of a printed line.
-/

namespace PropTable.Text

/-- Whether a character is blank. -/
def isBlank (c : Char) : Bool :=
  let n := c.toNat
  (0x09 ≤ n && n ≤ 0x0d) || (0x1c ≤ n && n ≤ 0x20) || n == 0x85 || n == 0xa0 || n == 0x1680 ||
    (0x2000 ≤ n && n ≤ 0x200a) || n == 0x2028 || n == 0x2029 || n == 0x202f || n == 0x205f ||
    n == 0x3000

/-- Splits off words at blanks: `current` holds the letters of an unfinished word, last one first. -/
def wordsFrom (current : List Char) : List Char → List String
  | [] => if current.isEmpty then [] else [String.ofList current.reverse]
  | c :: cs =>
    if isBlank c then
      if current.isEmpty then wordsFrom [] cs
      else String.ofList current.reverse :: wordsFrom [] cs
    else wordsFrom (c :: current) cs

/-- The maximal runs of characters that are not blank, in order. -/
def words (text : List Char) : List String :=
  wordsFrom [] text

def trimRight (text : String) : String :=
  String.ofList (text.toList.reverse.dropWhile isBlank).reverse

/-- The text with blanks behind it up to `width` characters; longer texts stay as they are. -/
def padRight (width : Nat) (text : String) : String :=
  text ++ String.ofList (List.replicate (width - text.length) ' ')

end PropTable.Text
