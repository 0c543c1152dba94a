/-!
# Blank characters

The white space of the character standard, trimming a text on both sides and splitting it into
words. Line breaks, the no-break space and the typographic spaces are blanks.
-/

namespace ScopeScript
namespace Text

/-- Whether a character is white space. -/
def isBlank (c : Char) : Bool :=
  let code := c.toNat
  (0x09 ≤ code && code ≤ 0x0D) || code == 0x20 || code == 0x85 || code == 0xA0 ||
    code == 0x1680 || (0x2000 ≤ code && code ≤ 0x200A) || code == 0x2028 || code == 0x2029 ||
    code == 0x202F || code == 0x205F || code == 0x3000

/-- Remove leading and trailing blanks. -/
def trimmed (chars : List Char) : List Char :=
  ((chars.dropWhile isBlank).reverse.dropWhile isBlank).reverse

/-- Remove leading and trailing blanks of a text. -/
def trim (text : String) : String :=
  String.ofList (trimmed text.toList)

/-- Add a character to the front of the first word. -/
private def growWord (c : Char) : List (List Char) → List (List Char)
  | [] => [[c]]
  | word :: words => (c :: word) :: words

/-- The maximal runs of characters without a blank; the flag tells whether the preceding
character was part of a word. -/
private def wordsAfter : List Char → List (List Char) × Bool
  | [] => ([], false)
  | c :: rest =>
      let (words, joined) := wordsAfter rest
      if isBlank c then (words, false)
      else if joined then (growWord c words, true)
      else ([c] :: words, true)

/-- The words of a text, separated by runs of blanks. -/
def words (text : String) : List String :=
  (wordsAfter text.toList).1.map String.ofList

end Text
end ScopeScript
