/-! Blank characters, and the words between them. Blank means the Unicode property White_Space, so a
    no-break space and a line separator are blank while a zero-width space is not. -/

namespace SpriteFacts.Text

/-- The character lies in one of the ranges of code points, ends included. -/
def inRanges (ranges : List (Nat × Nat)) (c : Char) : Bool :=
  ranges.any fun r => r.1 ≤ c.toNat && c.toNat ≤ r.2

/-- The code points with the property White_Space. -/
def blankRanges : List (Nat × Nat) :=
  [(0x09, 0x0D), (0x20, 0x20), (0x85, 0x85), (0xA0, 0xA0), (0x1680, 0x1680), (0x2000, 0x200A),
   (0x2028, 0x2029), (0x202F, 0x202F), (0x205F, 0x205F), (0x3000, 0x3000)]

def isBlank (c : Char) : Bool := inRanges blankRanges c

def trimStart (cs : List Char) : List Char := cs.dropWhile isBlank

def trimEnd (cs : List Char) : List Char := (cs.reverse.dropWhile isBlank).reverse

def trim (cs : List Char) : List Char := trimEnd (trimStart cs)

/-- A word put in front of a list of words; the empty word is none. -/
def consWord (word : List Char) (words : List (List Char)) : List (List Char) :=
  if word.isEmpty then words else word :: words

/-- The word that the text starts with, empty if it starts blank, and the words after it. -/
def splitWords : List Char → List Char × List (List Char)
  | [] => ([], [])
  | c :: cs =>
    let (word, words) := splitWords cs
    if isBlank c then ([], consWord word words) else (c :: word, words)

/-- The longest runs of characters that are not blank. -/
def words (cs : List Char) : List (List Char) :=
  let (word, words) := splitWords cs
  consWord word words

/-- The words of the text, a single space between two of them. -/
def oneLine (cs : List Char) : List Char := [' '].intercalate (words cs)

end SpriteFacts.Text
