import SpriteFacts.Pattern.Basic

/-! Building blocks of patterns over source code: exact spellings, blanks, numbers and names. A number is
    a run of Unicode digits; whether it is a value is for the reader of the numeral to say. -/

namespace SpriteFacts.Pattern

def all : List Pattern → Pattern
  | [] => empty
  | [p] => p
  | p :: ps => seq p (all ps)

/-- The first of the patterns that can be completed. -/
def any : Pattern → List Pattern → Pattern
  | p, [] => p
  | p, q :: qs => alt p (any q qs)

def char (c : Char) : Pattern := one (· == c)

def literal (s : String) : Pattern := all (s.toList.map char)

/-- The pattern, or nothing if the rest cannot follow it. -/
def optional (p : Pattern) : Pattern := alt p empty

/-- Characters of a class, at least one and as many as possible. -/
def run1 (ok : Char → Bool) : Pattern := seq (one ok) (run ok)

def blanks : Pattern := run Text.isBlank

def blanks1 : Pattern := run1 Text.isBlank

/-- Spaces and tabs, if any. -/
def tabs : Pattern := run fun c => c == ' ' || c == '\t'

def digits : Pattern := run1 Text.isDigit

/-- A name: a letter or an underscore, then word characters. -/
def name : Pattern := seq (one Text.isNameStart) (run Text.isWord)

def wordStart (s : String) : Pattern := seq wordEdge (literal s)

/-- A word on its own. -/
def word (s : String) : Pattern := all [wordEdge, literal s, wordEdge]

/-- The patterns with blanks allowed between each two of them. -/
def spaced : List Pattern → Pattern
  | [] => empty
  | [p] => p
  | p :: ps => seq p (seq blanks (spaced ps))

def whole (p : Pattern) : Pattern := all [textStart, p, textEnd]

end SpriteFacts.Pattern
