import SpriteFacts.Proofs.Text.Numeral

/-! Integer expressions as code writes them: literals, the tick, the sprite and calls of `abs`, joined by operators of
    two ranks and nested in parentheses. An expression is a tree that keeps the blanks between its parts, so it
    has one text. Its value is exact: a quotient is cut toward zero, and only a division by zero has none. -/

namespace SpriteFacts

open Text

/-! ### Literals and blanks -/

/-- Blanks between two parts of a text, if any. -/
@[ext] structure Gap where
  text : List Char
  blank : text.all isBlank = true

/-- A decimal literal of any size. -/
@[ext] structure Decimal where
  digits : List Char
  nonempty : digits ≠ []
  ascii : digits.all Char.isDigit = true

/-- A literal: a decimal, or a hexadecimal behind `0x` or `0X`. -/
inductive Number where
  | decimal (n : Decimal)
  | hexadecimal (upper : Bool) (digits : List Char) (nonempty : digits ≠ []) (ascii : digits.all isHexDigit = true)

def Gap.none : Gap := ⟨[], rfl⟩

def Gap.space : Gap := ⟨[' '], by decide⟩

def Decimal.value (n : Decimal) : Nat := valueOf 10 n.digits

namespace Number

def value : Number → Nat
  | decimal n => n.value
  | hexadecimal _ digits _ _ => valueOf 16 digits

def text : Number → List Char
  | decimal n => n.digits
  | hexadecimal upper digits _ _ => '0' :: (if upper then 'X' else 'x') :: digits

end Number

namespace Decimal
variable (n : Decimal)

/-- The literal with its value as limit. -/
def numeral : Numeral n.value := ⟨n.digits, n.nonempty, n.ascii, Nat.le_refl _⟩

theorem word?_eq_some {v : Nat} : word? n.digits = some v ↔ n.value = v ∧ v ≤ maxWord := by
  have hdigits : digits? Char.isDigit 10 n.digits = some n.value := n.numeral.digits?_eq
  have hplus : dropPlus n.digits = n.digits := n.numeral.dropPlus_eq
  rw [word?, unsigned?, hplus, hdigits, Option.filter_some]
  constructor
  · intro h
    split at h
    · rename_i hle
      obtain rfl := Option.some.inj h
      exact ⟨rfl, of_decide_eq_true hle⟩
    · cases h
  · rintro ⟨rfl, hle⟩
    exact if_pos (decide_eq_true hle)

theorem integer?_eq : integer? n.digits = fitInteger? n.value := by
  have hunsigned : integer? n.digits = (digits? Char.isDigit 10 (dropPlus n.digits)).bind fun k => fitInteger? k :=
    integer?.eq_2 _ fun cs => n.numeral.head_ne (by decide) cs
  have hplus : dropPlus n.digits = n.digits := n.numeral.dropPlus_eq
  have hdigits : digits? Char.isDigit 10 n.digits = some n.value := n.numeral.digits?_eq
  rw [hunsigned, hplus, hdigits, Option.bind_some]

theorem integer?_minus : integer? ('-' :: n.digits) = fitInteger? (-(n.value : Int)) := by
  have hdigits : digits? Char.isDigit 10 n.digits = some n.value := n.numeral.digits?_eq
  rw [integer?, hdigits, Option.bind_some]

theorem integer?_eq_some {v : Int} (h : integer? n.digits = some v) : v = n.value := by
  rw [integer?_eq] at h
  exact (fitInteger?_eq_some.mp h).1.symm

end Decimal

/-! ### Expressions -/

/-- How tightly operators bind. -/
inductive Rank where
  | sum
  | product

inductive Operator : Rank → Type where
  | plus : Operator .sum
  | minus : Operator .sum
  | times : Operator .product
  | divide : Operator .product
  | modulo : Operator .product

namespace Operator

def char : {r : Rank} → Operator r → Char
  | _, plus => '+'
  | _, minus => '-'
  | _, times => '*'
  | _, divide => '/'
  | _, modulo => '%'

/-- The exact result, cut toward zero; nothing is divided by zero. -/
def apply : {r : Rank} → Operator r → Int → Int → Option Int
  | _, plus, a, b => some (a + b)
  | _, minus, a, b => some (a - b)
  | _, times, a, b => some (a * b)
  | _, divide, a, b => if b = 0 then none else some (a.tdiv b)
  | _, modulo, a, b => if b = 0 then none else some (a.tmod b)

end Operator

/-- The parts that expressions are made of. -/
inductive Part where
  | atom
  /-- Operands joined by operators of one rank. -/
  | row (r : Rank)
  /-- What follows the first operand of a row. -/
  | rest (r : Rank)

/-- What operators of a rank join. -/
def Rank.operand : Rank → Part
  | sum => .row product
  | product => .atom

/-- A part of an expression. -/
inductive Expression : Part → Type where
  | number (n : Number) : Expression .atom
  | tick : Expression .atom
  | sprite : Expression .atom
  | parens (before : Gap) (inner : Expression (.row .sum)) (after : Gap) : Expression .atom
  | abs (gap before : Gap) (inner : Expression (.row .sum)) (after : Gap) : Expression .atom
  | row {r : Rank} (first : Expression r.operand) (more : Expression (.rest r)) : Expression (.row r)
  | done {r : Rank} : Expression (.rest r)
  | next {r : Rank} (before : Gap) (op : Operator r) (after : Gap) (operand : Expression r.operand)
      (more : Expression (.rest r)) : Expression (.rest r)

/-- An expression in parentheses. -/
def enclosed (before : Gap) (t : List Char) (after : Gap) : List Char := '(' :: (before.text ++ (t ++ (after.text ++ [')'])))

namespace Expression

def text : {p : Part} → Expression p → List Char
  | _, number n => n.text
  | _, tick => "attick".toList
  | _, sprite => "sprite".toList
  | _, parens before inner after => enclosed before inner.text after
  | _, abs gap before inner after => "abs".toList ++ (gap.text ++ enclosed before inner.text after)
  | _, row first more => first.text ++ more.text
  | _, done => []
  | _, next before op after operand more => before.text ++ op.char :: (after.text ++ (operand.text ++ more.text))

/-- The value of a part for a sprite and a tick. The rest of a row goes on from the value of the row so far, which no other
    part looks at. -/
def run (id now : Nat) : {p : Part} → Expression p → Int → Option Int
  | _, number n, _ => some n.value
  | _, tick, _ => some now
  | _, sprite, _ => some id
  | _, parens _ inner _, sofar => inner.run id now sofar
  | _, abs _ _ inner _, sofar => (inner.run id now sofar).map fun v => (v.natAbs : Int)
  | _, row first more, sofar => (first.run id now sofar).bind (more.run id now)
  | _, done, sofar => some sofar
  | _, next _ op _ operand more, sofar => ((operand.run id now 0).bind (op.apply sofar)).bind (more.run id now)

/-- The value of an expression for a sprite and a tick, if it has one. -/
def value (id now : Nat) (e : Expression (.row .sum)) : Option Int := e.run id now 0

def numbers : {p : Part} → Expression p → List Number
  | _, number n => [n]
  | _, tick | _, sprite | _, done => []
  | _, parens _ inner _ | _, abs _ _ inner _ => inner.numbers
  | _, row first more => first.numbers ++ more.numbers
  | _, next _ _ _ operand more => operand.numbers ++ more.numbers

end Expression

/-! ### Characters -/

/-- A character that expressions are written in. -/
def isCode (c : Char) : Bool := isBlank c || isHexDigit c || "xX attick sprite abs + - * / % ( )".toList.contains c

theorem isCode_of_isBlank {c : Char} (h : isBlank c = true) : isCode c = true := by
  rw [isCode, h]
  rfl

theorem isCode_of_isHexDigit {c : Char} (h : isHexDigit c = true) : isCode c = true := by
  rw [isCode, h, Bool.or_true]
  rfl

theorem Gap.all_isCode (g : Gap) : g.text.all isCode = true :=
  List.all_eq_true.mpr fun c hc => isCode_of_isBlank (List.all_eq_true.mp g.blank c hc)

theorem Gap.not_mem {c : Char} (hc : isBlank c = false) (g : Gap) : c ∉ g.text := not_mem_of_blank g.blank hc

theorem Decimal.not_mem {c : Char} (hc : c.isDigit = false) (n : Decimal) : c ∉ n.digits := n.numeral.not_mem hc

theorem Number.all_isCode (n : Number) : n.text.all isCode = true := by
  cases n with
  | decimal n =>
    exact List.all_eq_true.mpr fun c hc => isCode_of_isHexDigit (by simp [isHexDigit, List.all_eq_true.mp n.ascii c hc])
  | hexadecimal upper digits nonempty ascii =>
    have hdigits : digits.all isCode = true :=
      List.all_eq_true.mpr fun c hc => isCode_of_isHexDigit (List.all_eq_true.mp ascii c hc)
    have hmark : ['0', if upper then 'X' else 'x'].all isCode = true := by cases upper <;> decide
    rw [Number.text, List.all_cons, List.all_cons, hdigits]
    simpa using hmark

theorem all_isCode_enclosed {t : List Char} (ht : t.all isCode = true) (before after : Gap) :
    (enclosed before t after).all isCode = true := by
  have hopen : isCode '(' = true := by decide
  have hclose : isCode ')' = true := by decide
  simp only [enclosed, List.all_cons, List.all_append, List.all_nil, hopen, hclose, before.all_isCode, after.all_isCode, ht,
    Bool.and_self]

theorem Expression.all_isCode {p : Part} (e : Expression p) : e.text.all isCode = true := by
  induction e with
  | number n => exact n.all_isCode
  | tick | sprite => exact (by decide)
  | parens before inner after ih => exact all_isCode_enclosed ih before after
  | abs gap before inner after ih =>
    have habs : "abs".toList.all isCode = true := by decide
    simp only [text, List.all_append, habs, gap.all_isCode, all_isCode_enclosed ih, Bool.and_self]
  | row first more ihfirst ihmore => rw [text, List.all_append, ihfirst, ihmore]; rfl
  | done => rfl
  | next before op after operand more ihoperand ihmore =>
    have hop : isCode op.char = true := by cases op <;> decide
    simp only [text, List.all_append, List.all_cons, before.all_isCode, hop, after.all_isCode, ihoperand, ihmore,
      Bool.and_self]

theorem Expression.not_mem {p : Part} (e : Expression p) {c : Char} (hc : isCode c = false) : c ∉ e.text := fun h => by
  rw [List.all_eq_true.mp e.all_isCode c h] at hc
  cases hc

theorem isAscii_of_isHexDigit {c : Char} (h : isHexDigit c = true) : c.toNat < 0x80 := by
  simp only [isHexDigit, Char.isDigit, Bool.or_eq_true, Bool.and_eq_true, decide_eq_true_eq] at h
  rcases h with (⟨-, hle⟩ | ⟨-, hle⟩) | ⟨-, hle⟩ <;>
    exact Nat.lt_of_le_of_lt (UInt32.le_iff_toNat_le.mp hle) (by decide)

/-- A digit that code holds is an ASCII digit. -/
theorem isDigit_of_isCode {c : Char} (hcode : isCode c = true) (h : isDigit c = true) : c.isDigit = true := by
  have hblank : isBlank c = false := not_isBlank_of_isDigit h
  have hascii : c.toNat < 0x80 := by
    rw [isCode, hblank, Bool.false_or, Bool.or_eq_true] at hcode
    rcases hcode with hcode | hcode
    · exact isAscii_of_isHexDigit hcode
    · have hall : "xX attick sprite abs + - * / % ( )".toList.all (fun c => decide (c.toNat < 0x80)) = true := by decide
      exact of_decide_eq_true (List.all_eq_true.mp hall c (by simpa using hcode))
  rwa [isDigit, if_pos hascii] at h

/-! ### Digits of code -/

/-- Every digit of the text is an ASCII digit. -/
def PlainDigits (cs : List Char) : Prop := ∀ c ∈ cs, isDigit c = true → c.isDigit = true

theorem plainDigits_of_isCode {t : List Char} (h : t.all isCode = true) : PlainDigits t :=
  fun c hc => isDigit_of_isCode (List.all_eq_true.mp h c hc)

namespace PlainDigits
variable {c : Char} {as bs cs : List Char}

theorem cons (hc : isDigit c = false) (h : PlainDigits cs) : PlainDigits (c :: cs) := by
  intro d hd hdigit
  rcases List.mem_cons.mp hd with rfl | hd
  · rw [hc] at hdigit
    cases hdigit
  · exact h d hd hdigit

theorem append (has : PlainDigits as) (hbs : PlainDigits bs) : PlainDigits (as ++ bs) := by
  intro c hc
  rcases List.mem_append.mp hc with hc | hc
  · exact has c hc
  · exact hbs c hc

theorem left (h : PlainDigits (as ++ bs)) : PlainDigits as := fun c hc => h c (List.mem_append_left _ hc)

theorem right (h : PlainDigits (as ++ bs)) : PlainDigits bs := fun c hc => h c (List.mem_append_right _ hc)

theorem exists_decimal (h : PlainDigits cs) (hne : cs ≠ []) (hall : cs.all isDigit = true) : ∃ d : Decimal, d.digits = cs :=
  ⟨⟨cs, hne, List.all_eq_true.mpr fun c hc => h c hc (List.all_eq_true.mp hall c hc)⟩, rfl⟩

end PlainDigits

end SpriteFacts
