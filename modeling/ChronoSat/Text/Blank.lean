/-
# Blank characters and words

Formula text and clause files are both read word by word, and both take the same
characters to separate words: the code points of the Unicode property
`White_Space`. That set is a table here, because the character classes of core
know the ASCII blanks only. A word is a maximal run of characters that are not
blank; splitting a text into its words forgets the blanks and nothing else.
-/

namespace ChronoSat.Text

/-- The code points of the Unicode property `White_Space`, as inclusive ranges. -/
def blankRanges : List (Nat × Nat) :=
  [(0x09, 0x0D), (0x20, 0x20), (0x85, 0x85), (0xA0, 0xA0), (0x1680, 0x1680),
   (0x2000, 0x200A), (0x2028, 0x2029), (0x202F, 0x202F), (0x205F, 0x205F), (0x3000, 0x3000)]

/-- A character is blank when its code point lies in one of the `blankRanges`. -/
def isBlank (character : Char) : Bool :=
  blankRanges.any fun range => range.1 ≤ character.toNat && character.toNat ≤ range.2

/-- The word collected so far, last character first, as the one-word list it
stands for. Nothing collected is no word. -/
def finishWord : List Char → List String
  | [] => []
  | collected => [String.ofList collected.reverse]

@[simp] theorem finishWord_nil : finishWord [] = [] := rfl

@[simp] theorem finishWord_cons (character : Char) (collected : List Char) :
    finishWord (character :: collected) =
      [String.ofList (character :: collected).reverse] := rfl

/-- The words of a text whose current word has already collected the given
characters, last character first. -/
def wordsFrom (collected : List Char) : List Char → List String
  | [] => finishWord collected
  | character :: rest =>
    if isBlank character then finishWord collected ++ wordsFrom [] rest
    else wordsFrom (character :: collected) rest

/-- The words of a text: its maximal runs of characters that are not blank. -/
def words (text : String) : List String :=
  wordsFrom [] text.toList

end ChronoSat.Text
