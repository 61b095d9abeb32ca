import SpriteFacts.Text.Numeral
import SpriteFacts.Yaml.Block
import SpriteFacts.Yaml.Plain
import SpriteFacts.Yaml.Quoted

/-! The tokens of a YAML document. Indentation becomes tokens of its own: a block opens where the first
    entry stands further right than the block around it and closes at the first token left of it. A
    colon makes a key of what stands before it on its line, so a key is marked only once its colon is
    seen, in front of tokens that are already there. -/

namespace SpriteFacts.Yaml

/-- A token. -/
inductive Token where
  | version (major minor : Nat)
  | tagHandle (handle expansion : String)
  | documentStart
  | documentEnd
  | blockSeq
  | blockMap
  | blockEnd
  | flowSeqStart
  | flowSeqEnd
  | flowMapStart
  | flowMapEnd
  | entry
  | comma
  | key
  | value
  | alias (name : String)
  | anchor (name : String)
  | tag (handle suffix : String)
  | scalar (text : List Char) (plain : Bool)
  deriving DecidableEq, Repr

/-- A token that turns out to be a key if a colon follows: its number among the tokens and its place. One
    that starts a line of a block mapping has to turn out so. -/
structure KeyStart where
  number : Nat
  line : Nat
  column : Nat
  index : Nat
  required : Bool

/-- The state of the scan. -/
structure Scan where
  place : Place
  tokens : Array Token
  /-- The columns of the open blocks, the innermost first. -/
  indents : List Nat
  /-- A key may start here. -/
  keyAllowed : Bool
  /-- The possible keys, one for each open bracket and one for the text around them. -/
  keys : List (Option KeyStart)

namespace Scan

def start (cs : List Char) : Scan := ⟨Place.start cs, #[], [], true, [none]⟩

def inFlow (s : Scan) : Bool := 1 < s.keys.length

def indent? (s : Scan) : Option Nat := s.indents.head?

def emit (s : Scan) (t : Token) : Scan := { s with tokens := s.tokens.push t }

def take (s : Scan) (n : Nat) (t : Token) : Scan := { s.emit t with place := s.place.skip n }

def setKey (s : Scan) (k : Option KeyStart) : Scan := { s with keys := k :: s.keys.tail }

/-- The scan without the innermost possible key, which may not have been required. -/
def dropKey (s : Scan) : Except YamlFault Scan :=
  match s.keys.head?.join with
  | some k => if k.required then .error .missingColon else .ok (s.setKey none)
  | none => .ok s

/-- The scan with a possible key at this place, if keys are allowed here. -/
def startKey (s : Scan) : Except YamlFault Scan :=
  if s.keyAllowed then
    let p := s.place
    let required := !s.inFlow && s.indent? == some p.column
    s.dropKey.map fun s => s.setKey (some ⟨s.tokens.size, p.line, p.column, p.index, required⟩)
  else .ok s

/-- The scan without the possible keys that are on an earlier line or too far back. -/
def dropStale (s : Scan) : Except YamlFault Scan := do
  let keys ← s.keys.mapM fun k =>
    match k with
    | some k =>
      if k.line < s.place.line || k.index + 1024 < s.place.index then
        if k.required then throw YamlFault.missingColon else pure none
      else pure (some k)
    | none => pure none
  pure { s with keys := keys }

/-- The scan with every block closed that starts right of a column. -/
def closeBlocks (s : Scan) (keep : Nat → Bool) : Scan :=
  if s.inFlow then s else
    let closed := s.indents.takeWhile fun n => !keep n
    { s with
      indents := s.indents.dropWhile fun n => !keep n
      tokens := s.tokens ++ (closed.map fun _ => Token.blockEnd).toArray }

/-- The scan with a block opened at a column, its token at a place among the tokens, unless the innermost block
    is already there. -/
def openBlock (s : Scan) (column number : Nat) (t : Token) : Scan :=
  if s.inFlow || s.indent?.any (fun n => column ≤ n) then s
  else { s with indents := column :: s.indents, tokens := s.tokens.insertIdxIfInBounds number t }

/-! ### Blanks between tokens -/

/-- The scan at the next token: blanks, comments and line breaks are passed over, and a byte order mark that
    starts a line, which then starts one column further right. -/
def toNextToken : Nat → Scan → Scan
  | 0, s => s
  | fuel + 1, s =>
    let p := if s.place.column = 0 && s.place.head? = some '\uFEFF' then s.place.skip 1 else s.place
    let tabs := s.inFlow || !s.keyAllowed
    let p := p.skip (p.ahead.takeWhile fun c => c == ' ' || (tabs && c == '\t')).length
    let p := if p.head? = some '#' then p.skip (p.ahead.takeWhile fun c => !isBreak c).length else p
    if p.head?.any isBreak then
      toNextToken fuel { s with place := p.takeBreak.2, keyAllowed := s.keyAllowed || !s.inFlow }
    else { s with place := p }

/-! ### Directives, anchors and tags -/

def isNameChar (c : Char) : Bool := c.isAlphanum || c == '_' || c == '-'

/-- The name of an anchor behind its mark, and the place behind the name. -/
def anchorName (p : Place) : Except YamlFault (String × Place) :=
  let name := p.ahead.takeWhile isNameChar
  let p := p.skip name.length
  if name.isEmpty || !(endsWord p.head? || p.head?.any fun c => "?:,]\x7d%@`".toList.contains c) then .error .badAnchor
  else .ok (String.ofList name, p)

/-- A character of an address. Some stand in one only between angle brackets. -/
def isAddressChar (verbatim : Bool) (c : Char) : Bool :=
  isNameChar c || ";/?:@&=+$.!~*'()%".toList.contains c || (verbatim && (c == ',' || c == '[' || c == ']'))

/-- The characters of an address with its `%` escapes read as bytes. -/
def addressBytes : List Char → Option (List UInt8)
  | [] => some []
  | '%' :: a :: b :: cs => do
    let n ← Text.digits? Text.isHexDigit 16 [a, b]
    let rest ← addressBytes cs
    some (UInt8.ofNat n :: rest)
  | '%' :: _ => none
  | c :: cs => (addressBytes cs).map fun rest => (String.singleton c).toUTF8.data.toList ++ rest

def address (verbatim : Bool) (p : Place) : Except YamlFault (String × Place) :=
  let cs := p.ahead.takeWhile (isAddressChar verbatim)
  match (addressBytes cs).bind fun bytes => String.fromUTF8? ⟨bytes.toArray⟩ with
  | some s => .ok (s, p.skip cs.length)
  | none => .error .badTag

/-- The handle of a tag and its suffix, and the place behind them. -/
def tagParts (p : Place) : Except YamlFault (String × String × Place) := do
  let (handle, suffix, p) ←
    if p.peek? 1 = some '<' then do
      let (suffix, p) ← address true (p.skip 2)
      if p.head? = some '>' && suffix != "" then pure ("", suffix, p.skip 1) else throw YamlFault.badTag
    else do
      let name := (p.ahead.drop 1).takeWhile isNameChar
      if (p.ahead.drop (1 + name.length)).head? = some '!' then do
        let (suffix, p) ← address false (p.skip (2 + name.length))
        if suffix = "" then throw YamlFault.badTag else pure ("!" ++ String.ofList name ++ "!", suffix, p)
      else do
        let (suffix, p) ← address false (p.skip 1)
        pure (if suffix = "" then ("", "!", p) else ("!", suffix, p))
  pure (handle, suffix, p)

/-- The tag at a place as a token. A tag is a word of its own. -/
def tagToken (inFlow : Bool) (p : Place) : Except YamlFault (Token × Place) := do
  let (handle, suffix, p) ← tagParts p
  if endsWord p.head? || (inFlow && p.head? = some ',') then pure (.tag handle suffix, p) else throw .badTag

def afterSpaces (p : Place) : Place := p.skip (p.ahead.takeWhile isSpace).length

def directiveNumber (p : Place) : Except YamlFault (Nat × Place) :=
  let ds := p.ahead.takeWhile Char.isDigit
  if ds.isEmpty || 9 < ds.length then .error .badDirective else .ok (Text.valueOf 10 ds, p.skip ds.length)

/-- A directive whose mark is next, as a token, and the place behind its line. -/
def directive (p : Place) : Except YamlFault (Token × Place) := do
  let name := (p.ahead.drop 1).takeWhile isNameChar
  let p := p.skip (1 + name.length)
  if !endsWord p.head? then throw .badDirective
  let p := afterSpaces p
  let (t, p) ←
    if name = "YAML".toList then do
      let (major, p) ← directiveNumber p
      if p.head? ≠ some '.' then throw YamlFault.badDirective
      let (minor, p) ← directiveNumber (p.skip 1)
      pure (Token.version major minor, p)
    else if name = "TAG".toList then do
      let inner := (p.ahead.drop 1).takeWhile isNameChar
      if p.head? ≠ some '!' then throw YamlFault.badDirective
      let closed := (p.ahead.drop (1 + inner.length)).head? = some '!'
      if !closed && !inner.isEmpty then throw YamlFault.badDirective
      let handle := "!" ++ String.ofList inner ++ if closed then "!" else ""
      let p := p.skip (1 + inner.length + if closed then 1 else 0)
      if !p.head?.any isSpace then throw YamlFault.badDirective
      let (expansion, p) ← address true (afterSpaces p)
      if !endsWord p.head? || expansion = "" then throw YamlFault.badDirective
      pure (Token.tagHandle handle expansion, p)
    else throw YamlFault.badDirective
  let p := afterSpaces p
  let p := if p.head? = some '#' then p.skip (p.ahead.takeWhile fun c => !isBreak c).length else p
  if endsLine p.head? then pure (t, p.takeBreak.2) else throw .badDirective

/-! ### Tokens -/

/-- The scan after a token that closes all blocks and allows no key before it or after it. -/
def atEdge (s : Scan) : Except YamlFault Scan := do
  let s ← (s.closeBlocks fun _ => false).dropKey
  pure { s with keyAllowed := false }

def openFlow (s : Scan) (t : Token) : Except YamlFault Scan := do
  let s ← s.startKey
  pure { s.take 1 t with keys := none :: s.keys, keyAllowed := true }

def closeFlow (s : Scan) (t : Token) : Except YamlFault Scan := do
  let s ← s.dropKey
  pure { s.take 1 t with keys := if s.inFlow then s.keys.tail else s.keys, keyAllowed := false }

def node (s : Scan) (read : Scan → Except YamlFault (Token × Place)) : Except YamlFault Scan := do
  let s ← s.startKey
  let (t, p) ← read s
  pure { s.emit t with place := p, keyAllowed := false }

def blockEntry (s : Scan) : Except YamlFault Scan := do
  if !s.inFlow && !s.keyAllowed then throw .misplacedIndicator
  let s ← (s.openBlock s.place.column s.tokens.size .blockSeq).dropKey
  pure { s.take 1 .entry with keyAllowed := true }

def explicitKey (s : Scan) : Except YamlFault Scan := do
  if !s.inFlow && !s.keyAllowed then throw .misplacedIndicator
  let s ← (s.openBlock s.place.column s.tokens.size .blockMap).dropKey
  pure { s.take 1 .key with keyAllowed := !s.inFlow }

/-- The scan after the mark of a value. The possible key before it becomes one; in its block mapping it
    stands where the mapping opens. -/
def valueMark (s : Scan) : Except YamlFault Scan :=
  match s.keys.head?.join with
  | some k =>
    let s := { s with tokens := s.tokens.insertIdxIfInBounds k.number .key }
    let s := (s.openBlock k.column k.number .blockMap).setKey none
    .ok { s.take 1 .value with keyAllowed := false }
  | none =>
    if !s.inFlow && !s.keyAllowed then .error .misplacedIndicator
    else
      let s := s.openBlock s.place.column s.tokens.size .blockMap
      .ok { s.take 1 .value with keyAllowed := !s.inFlow }

def blockScalar (s : Scan) (literal : Bool) : Except YamlFault Scan := do
  let s ← s.dropKey
  let (text, p) ← Block.scan literal s.indent? s.place
  pure { s.emit (.scalar text false) with place := p, keyAllowed := true }

/-- The scan after a plain scalar. A line break behind it allows a key again. -/
def plainScalar (s : Scan) : Except YamlFault Scan := do
  let s ← s.startKey
  let (text, onLater, p) ← Plain.scan s.inFlow (s.indent?.elim 0 (· + 1)) s.place
  pure { s.emit (.scalar text true) with place := p, keyAllowed := onLater }

def quotedScalar (s : Scan) (double : Bool) : Except YamlFault Scan :=
  s.node fun s => (Quoted.scan double s.place).map fun (text, p) => (.scalar text false, p)

def startsPlain (inFlow : Bool) (c : Char) (next : Option Char) : Bool :=
  !(isSpace c || isBreak c || "-?:,[]\x7b\x7d#&*!|>'\"%@`".toList.contains c)
    || (c == '-' && !next.any isSpace)
    || (!inFlow && (c == '?' || c == ':') && !endsWord next)

def tokenAt (s : Scan) (c : Char) : Except YamlFault Scan :=
  let p := s.place
  let next := p.peek? 1
  if p.column = 0 && c = '%' then do
    let s ← s.atEdge
    let (t, p) ← directive p
    pure { s.emit t with place := p }
  else if p.atMarker '-' then s.atEdge.map fun s => s.take 3 .documentStart
  else if p.atMarker '.' then s.atEdge.map fun s => s.take 3 .documentEnd
  else if c = '[' then s.openFlow .flowSeqStart
  else if c = '{' then s.openFlow .flowMapStart
  else if c = ']' then s.closeFlow .flowSeqEnd
  else if c = '}' then s.closeFlow .flowMapEnd
  else if c = ',' then s.dropKey.map fun s => { s.take 1 .comma with keyAllowed := true }
  else if c = '-' && endsWord next then s.blockEntry
  else if c = '?' && (s.inFlow || endsWord next) then s.explicitKey
  else if c = ':' && (s.inFlow || endsWord next) then s.valueMark
  else if c = '*' then s.node fun s => (anchorName (s.place.skip 1)).map fun (name, p) => (.alias name, p)
  else if c = '&' then s.node fun s => (anchorName (s.place.skip 1)).map fun (name, p) => (.anchor name, p)
  else if c = '!' then s.node fun s => tagToken s.inFlow s.place
  else if c = '|' && !s.inFlow then s.blockScalar true
  else if c = '>' && !s.inFlow then s.blockScalar false
  else if c = '\'' then s.quotedScalar false
  else if c = '"' then s.quotedScalar true
  else if startsPlain s.inFlow c next then s.plainScalar
  else .error .unexpectedCharacter

def run : Nat → Scan → Except YamlFault (List Token)
  | 0, s => .ok s.tokens.toList
  | fuel + 1, s => do
    let s ← (s.toNextToken (s.place.ahead.length + 1)).dropStale
    let s := s.closeBlocks fun n => n ≤ s.place.column
    match s.place.head? with
    | none =>
      let s ← (s.closeBlocks fun _ => false).dropKey
      pure s.tokens.toList
    | some c => run fuel (← s.tokenAt c)

end Scan

def tokens (cs : List Char) : Except YamlFault (List Token) :=
  if cs.all isAllowed then (Scan.start cs).run (cs.length + 1) else .error .controlCharacter

end SpriteFacts.Yaml
