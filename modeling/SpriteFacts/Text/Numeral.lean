/-! Reading numerals. A numeral is a run of ASCII digits with an optional sign, and a reader has a
    limit: a value beyond it is no value at all, never a value cut to fit. -/

namespace SpriteFacts.Text

/-- The largest sprite number, and the largest value of a field that has no sign: 2^32 - 1. -/
def maxWord : Nat := 4294967295

/-- The largest argument of a color: 2^64 - 1. -/
def maxLongWord : Nat := 18446744073709551615

/-- The largest value of a field with a sign: 2^63 - 1. -/
def maxInteger : Int := 9223372036854775807

/-- The smallest value of a field with a sign: -2^63. -/
def minInteger : Int := -9223372036854775808

/-- The value of a digit in a base up to sixteen. -/
def digitValue (c : Char) : Nat :=
  if c.isDigit then c.toNat - 48
  else if 'a' ≤ c ∧ c ≤ 'f' then c.toNat - 87
  else c.toNat - 55

def isHexDigit (c : Char) : Bool := c.isDigit || ('a' ≤ c && c ≤ 'f') || ('A' ≤ c && c ≤ 'F')

/-- The number that digits write in a base, most significant first. -/
def valueOf (base : Nat) (digits : List Char) : Nat :=
  digits.foldl (fun n c => n * base + digitValue c) 0

/-- A non-empty run of the digits that `ok` allows, read in a base. -/
def digits? (ok : Char → Bool) (base : Nat) (cs : List Char) : Option Nat :=
  if cs.isEmpty || !cs.all ok then none else some (valueOf base cs)

def dropPlus : List Char → List Char
  | '+' :: cs => cs
  | cs => cs

/-- A numeral without a sign, or with a plus sign, whose value is at most `limit`. -/
def unsigned? (ok : Char → Bool) (base limit : Nat) (cs : List Char) : Option Nat :=
  (digits? ok base (dropPlus cs)).filter (· ≤ limit)

/-- A decimal up to `maxWord`. -/
def word? (cs : List Char) : Option Nat := unsigned? Char.isDigit 10 maxWord cs

/-- A decimal up to `maxLongWord`. -/
def longWord? (cs : List Char) : Option Nat := unsigned? Char.isDigit 10 maxLongWord cs

/-- A hexadecimal numeral, without its `0x`, up to `maxWord`. -/
def hexWord? (cs : List Char) : Option Nat := unsigned? isHexDigit 16 maxWord cs

/-- The integer, if a field with a sign can hold it. -/
def fitInteger? (n : Int) : Option Int := if minInteger ≤ n ∧ n ≤ maxInteger then some n else none

/-- A decimal with an optional sign, from `minInteger` to `maxInteger`. -/
def integer? : List Char → Option Int
  | '-' :: cs => (digits? Char.isDigit 10 cs).bind fun n => fitInteger? (-(n : Int))
  | cs => (digits? Char.isDigit 10 (dropPlus cs)).bind fun n => fitInteger? n

theorem fitInteger?_eq_some {n m : Int} :
    fitInteger? n = some m ↔ n = m ∧ minInteger ≤ n ∧ n ≤ maxInteger := by
  unfold fitInteger?
  split
  · simp_all
  · simp only [reduceCtorEq, false_iff]
    rintro ⟨rfl, h⟩
    contradiction

end SpriteFacts.Text
