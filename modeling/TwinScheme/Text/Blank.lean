/-!
# Blanks

Which characters separate tokens and words, and the two cuts that follow from
it: trimming a text at both ends, and splitting it into its words. Blank is
the Unicode property White_Space, twenty-five characters, and not the five of
the ASCII test; a text in which a no-break space separates two names has two
words.

Splitting works on lists of characters. `split` keeps the empty pieces, so
joining the pieces with one separator each gives the text back, and `words`
then drops the empty ones.
-/

namespace TwinScheme.Text

/-- White space, as the Unicode property White_Space has it. -/
def isBlank (c : Char) : Bool :=
  let n := c.toNat
  (9 ≤ n && n ≤ 13) || n == 0x20 || n == 0x85 || n == 0xA0 || n == 0x1680 ||
    (0x2000 ≤ n && n ≤ 0x200A) || n == 0x2028 || n == 0x2029 || n == 0x202F ||
    n == 0x205F || n == 0x3000

/-- The pieces of a text between the characters that `separates` holds of,
empty ones included. -/
def split (separates : Char → Bool) : List Char → List (List Char)
  | [] => [[]]
  | c :: cs =>
    if separates c then [] :: split separates cs
    else
      match split separates cs with
      | [] => [[c]]
      | piece :: pieces => (c :: piece) :: pieces

/-- The maximal runs of characters that are not blank. -/
def words (cs : List Char) : List (List Char) :=
  (split isBlank cs).filter (!·.isEmpty)

/-- A text without the blanks at its two ends. -/
def trim (cs : List Char) : List Char :=
  ((cs.dropWhile isBlank).reverse.dropWhile isBlank).reverse

/-- Trimming, on strings. -/
def trimmed (text : String) : String :=
  String.ofList (trim text.toList)

/-- Whether a text starts with another. -/
def startsWith (cs start : List Char) : Bool :=
  start.isPrefixOf cs

/-- Whether a text stands somewhere inside another. -/
def occurs (part : List Char) : List Char → Bool
  | [] => part.isEmpty
  | c :: cs => startsWith (c :: cs) part || occurs part cs

/-- A split has at least one piece. -/
theorem split_ne_nil (separates : Char → Bool) (cs : List Char) : split separates cs ≠ [] := by
  cases cs with
  | nil => simp [split]
  | cons c cs =>
    simp only [split]
    split
    · simp
    · split <;> simp

end TwinScheme.Text
