import SpriteFacts.Text.Blank
import SpriteFacts.Text.WordRanges

/-! Digits and word characters. Both are Unicode properties: a fullwidth digit is a digit and an accented
    letter belongs to a word. ASCII is decided by comparison and everything else by a table of ranges,
    so a text in ASCII never reads the tables. -/

namespace SpriteFacts.Text

/-- The character has the property Decimal_Number. -/
def isDigit (c : Char) : Bool :=
  if c.toNat < 0x80 then c.isDigit else inRanges digitRanges c

def isWord (c : Char) : Bool :=
  if c.toNat < 0x80 then c.isAlphanum || c == '_'
  else if c.toNat < 0x1000 then inRanges lowWordRanges c
  else if c.toNat < 0x10000 then inRanges middleWordRanges c
  else inRanges highWordRanges c

def isNameStart (c : Char) : Bool := c.isAlpha || c == '_'

theorem isDigit_of_ascii {c : Char} (h : c.isDigit = true) : isDigit c = true := by
  have : c.toNat < 0x80 := by
    simp only [Char.isDigit, Bool.and_eq_true, decide_eq_true_eq] at h
    exact Nat.lt_of_le_of_lt (UInt32.le_iff_toNat_le.mp h.2) (by decide)
  simp [isDigit, this, h]

end SpriteFacts.Text
