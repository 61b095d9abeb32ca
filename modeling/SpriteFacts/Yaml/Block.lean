import SpriteFacts.Yaml.Place

/-! Block scalars: indented lines after a `|`, kept as they are, or after a `>`, folded. The header may give
    the indentation, which is otherwise that of the first line with text, and say whether the breaks
    at the end are dropped, kept, or cut to one. -/

namespace SpriteFacts.Yaml.Block

/-- What becomes of the breaks at the end of a block scalar. -/
inductive Chomp where
  | strip
  | clip
  | keep
  deriving DecidableEq

/-- The meaning of a mark in a header. -/
def chomp? : Char → Option Chomp
  | '-' => some .strip
  | '+' => some .keep
  | _ => none

/-- An explicit indentation, from 1 to 9. -/
def increment? (c : Char) : Option Nat := if '1' ≤ c ∧ c ≤ '9' then some (c.toNat - 48) else none

/-- The header, its two parts in either order, and the place behind it. -/
def header (p : Place) : Chomp × Option Nat × Place :=
  match p.head?.bind chomp?, p.head?.bind increment? with
  | some chomp, _ =>
    match (p.peek? 1).bind increment? with
    | some n => (chomp, some n, p.skip 2)
    | none => (chomp, none, p.skip 1)
  | none, some n =>
    match (p.peek? 1).bind chomp? with
    | some chomp => (chomp, some n, p.skip 2)
    | none => (.clip, some n, p.skip 1)
  | none, none => (.clip, none, p)

def afterComment (p : Place) : Place :=
  let p := p.skip (p.ahead.takeWhile isSpace).length
  if p.head? = some '#' then p.skip (p.ahead.takeWhile fun c => !isBreak c).length else p

/-- The line breaks from a place on, the deepest indentation of the lines passed, and the place at the text
    behind them. With a known indentation no line is read beyond it. -/
def breaks (indent : Option Nat) : Nat → List Char → Nat → Place → Except YamlFault (List Char × Nat × Place)
  | 0, acc, deepest, p => .ok (acc, deepest, p)
  | fuel + 1, acc, deepest, p =>
    let spaces := (p.ahead.takeWhile (· == ' ')).length
    let width := match indent with
      | some n => min spaces (n - p.column)
      | none => spaces
    let p := p.skip width
    let deepest := max deepest p.column
    if indent.all (fun n => p.column < n) && p.head? = some '\t' then .error .tabIndentation
    else if p.head?.any isBreak then
      let (b, p) := p.takeBreak
      breaks indent fuel (acc ++ b) deepest p
    else .ok (acc, deepest, p)

/-- The text of the lines of a block scalar: `before` is the break that ends the line before, `more` the breaks
    after it, and `indented` tells that the line before started with a space. -/
def lines (literal : Bool) (indent : Nat) :
    Nat → List Char → List Char → List Char → Bool → Place →
      Except YamlFault (List Char × List Char × List Char × Place)
  | 0, acc, before, more, _, p => .ok (acc, before, more, p)
  | fuel + 1, acc, before, more, indented, p =>
    if p.column = indent ∧ !p.ahead.isEmpty then do
      let indents := p.head?.any isSpace
      let joint :=
        if !literal && before = ['\n'] && !indented && !indents then if more.isEmpty then [' '] else []
        else before
      let line := p.ahead.takeWhile fun c => !isBreak c
      let (b, p) := (p.skip line.length).takeBreak
      let (more', _, p) ← breaks (some indent) p.ahead.length [] 0 p
      lines literal indent fuel (acc ++ joint ++ more ++ line) b more' indents p
    else .ok (acc, before, more, p)

/-- The text of a block scalar whose mark is next, and the place behind it. The indentation around it is
    `parent`, or none outside of all blocks. -/
def scan (literal : Bool) (parent : Option Nat) (p : Place) : Except YamlFault (List Char × Place) := do
  let (chomp, increment, p) := header (p.skip 1)
  let p := afterComment p
  if !endsLine p.head? then throw .badBlockHeader
  let (_, p) := p.takeBreak
  let fixed := increment.map fun n => (parent.getD 0) + n
  let (more, deepest, p) ← breaks fixed (p.ahead.length + 1) [] 0 p
  let least := parent.elim 1 (· + 1)
  let indent := fixed.getD (max deepest least)
  let (text, before, more, p) ← lines literal indent (p.ahead.length + 1) [] [] more false p
  pure (match chomp with
    | .strip => text
    | .clip => text ++ before
    | .keep => text ++ before ++ more, p)

end SpriteFacts.Yaml.Block
