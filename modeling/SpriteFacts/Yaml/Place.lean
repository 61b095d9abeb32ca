import SpriteFacts.Yaml.Basic

/-! A place in the text of a YAML document: what lies ahead, and the line and column that indentation is
    measured by. Here too are the classes of characters that the format is built on, and the folding of
    line breaks: a single break becomes a space, and of several breaks the first is dropped. -/

namespace SpriteFacts.Yaml

/-- A place in a text; lines and columns count from 0. -/
structure Place where
  ahead : List Char
  line : Nat
  column : Nat
  index : Nat

def isSpace (c : Char) : Bool := c == ' ' || c == '\t'

def isBreak (c : Char) : Bool :=
  c == '\n' || c == '\r' || c == '\u0085' || c == '\u2028' || c == '\u2029'

/-- A character that ends a word: a space, a tab, or the end of the line or text. -/
def endsWord (c : Option Char) : Bool := c.all fun c => isSpace c || isBreak c

def endsLine (c : Option Char) : Bool := c.all isBreak

/-- The characters that a document may hold. -/
def isAllowed (c : Char) : Bool :=
  let n := c.toNat
  n == 0x09 || n == 0x0A || n == 0x0D || (0x20 ≤ n && n ≤ 0x7E) || n == 0x85 || (0xA0 ≤ n && n ≤ 0xFFFD) || 0x10000 ≤ n

namespace Place

def start (cs : List Char) : Place := ⟨cs, 0, 0, 0⟩

def head? (p : Place) : Option Char := p.ahead.head?

/-- The character after the next `n`. -/
def peek? (p : Place) (n : Nat) : Option Char := p.ahead[n]?

def skip (p : Place) (n : Nat) : Place := ⟨p.ahead.drop n, p.line, p.column + n, p.index + n⟩

/-- The place at the start of the next line, and the break as it counts in a scalar: as a newline, but for
    the two Unicode separators, which stay what they are. -/
def takeBreak (p : Place) : List Char × Place :=
  match p.ahead with
  | '\r' :: '\n' :: cs => (['\n'], ⟨cs, p.line + 1, 0, p.index + 2⟩)
  | c :: cs => ([if c == '\u2028' || c == '\u2029' then c else '\n'], ⟨cs, p.line + 1, 0, p.index + 1⟩)
  | [] => ([], p)

/-- A marker of three characters stands at the start of the line, as a word of its own. -/
def atMarker (p : Place) (c : Char) : Bool :=
  p.column == 0 && p.ahead.take 3 == [c, c, c] && endsWord (p.peek? 3)

def atDocumentEdge (p : Place) : Bool := p.atMarker '-' || p.atMarker '.'

end Place

/-- Blanks inside a scalar: those of the line they started on, or the breaks if there was one. -/
structure Fold where
  blanks : List Char
  first : Option (List Char)
  more : List Char

namespace Fold

def none : Fold := ⟨[], .none, []⟩

def text (f : Fold) : List Char :=
  match f.first with
  | .none => f.blanks
  | some b => if b = ['\n'] then if f.more.isEmpty then [' '] else f.more else b ++ f.more

/-- The blanks with another on the same line; after a break it only indents. -/
def addSpace (f : Fold) (c : Char) : Fold := if f.first.isSome then f else { f with blanks := f.blanks ++ [c] }

def addBreak (f : Fold) (b : List Char) : Fold :=
  if f.first.isSome then { f with more := f.more ++ b } else ⟨[], some b, []⟩

/-- All blanks from a place on, added to blanks before it. After a break a tab may not stand for
    indentation left of column `tabLimit`. -/
def gather (tabLimit : Nat) : Nat → Fold → Place → Except YamlFault (Fold × Place)
  | 0, f, p => .ok (f, p)
  | fuel + 1, f, p =>
    match p.head? with
    | .none => .ok (f, p)
    | some c =>
      if isSpace c then
        if f.first.isSome && c == '\t' && p.column < tabLimit then .error .tabIndentation
        else gather tabLimit fuel (f.addSpace c) (p.skip 1)
      else if isBreak c then
        let (b, p) := p.takeBreak
        gather tabLimit fuel (f.addBreak b) p
      else .ok (f, p)

end Fold
end SpriteFacts.Yaml
