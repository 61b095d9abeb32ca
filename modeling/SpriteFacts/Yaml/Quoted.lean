import SpriteFacts.Text.Numeral
import SpriteFacts.Yaml.Place

/-! Quoted scalars. Single quotes keep everything but a doubled quote; double quotes know escapes, and an
    escaped break joins two lines without a space. A quoted scalar may span lines but not documents. -/

namespace SpriteFacts.Yaml.Quoted

def escaped? : Char → Option Char
  | '0' => some '\x00'
  | 'a' => some '\x07'
  | 'b' => some '\x08'
  | 't' => some '\t'
  | '\t' => some '\t'
  | 'n' => some '\n'
  | 'v' => some '\x0b'
  | 'f' => some '\x0c'
  | 'r' => some '\r'
  | 'e' => some '\x1b'
  | ' ' => some ' '
  | '"' => some '"'
  | '/' => some '/'
  | '\\' => some '\\'
  | 'N' => some '\u0085'
  | '_' => some '\u00a0'
  | 'L' => some '\u2028'
  | 'P' => some '\u2029'
  | _ => none

def escapeWidth? : Char → Option Nat
  | 'x' => some 2
  | 'u' => some 4
  | 'U' => some 8
  | _ => none

/-- The character of an escape whose letter is next, and the place after it. -/
def escape (p : Place) : Except YamlFault (Char × Place) :=
  match p.head? with
  | none => .error .badEscape
  | some c =>
    match escaped? c, escapeWidth? c with
    | some e, _ => .ok (e, p.skip 1)
    | none, some width =>
      let digits := (p.ahead.drop 1).take width
      match if digits.length = width then Text.digits? Text.isHexDigit 16 digits else none with
      | none => .error .badEscape
      | some n => if n.isValidChar then .ok (Char.ofNat n, p.skip (1 + width)) else .error .badEscape
    | none, none => .error .badEscape

/-- The characters up to a blank, an escaped break or the closing quote, the place there, and whether an
    escaped break was passed. -/
def chunk (double : Bool) : Nat → List Char → Place → Except YamlFault (List Char × Place × Bool)
  | 0, acc, p => .ok (acc, p, false)
  | fuel + 1, acc, p =>
    match p.head? with
    | none => .ok (acc, p, false)
    | some c =>
      if endsWord (some c) then .ok (acc, p, false)
      else if !double && c == '\'' then
        if p.peek? 1 = some '\'' then chunk double fuel (acc ++ ['\'']) (p.skip 2) else .ok (acc, p, false)
      else if double && c == '"' then .ok (acc, p, false)
      else if double && c == '\\' then
        if (p.peek? 1).any isBreak then .ok (acc, (p.skip 1).takeBreak.2, true)
        else
          match escape (p.skip 1) with
          | .error e => .error e
          | .ok (e, p) => chunk double fuel (acc ++ [e]) p
      else chunk double fuel (acc ++ [c]) (p.skip 1)

/-- The text of a quoted scalar from behind its opening quote, and the place behind the closing one. -/
def scanFrom (double : Bool) : Nat → List Char → Place → Except YamlFault (List Char × Place)
  | 0, _, _ => .error .unclosedQuote
  | fuel + 1, acc, p =>
    if p.atDocumentEdge || p.ahead.isEmpty then .error .unclosedQuote
    else do
      let (acc, p, joined) ← chunk double p.ahead.length acc p
      if p.head? = some (if double then '"' else '\'') then pure (acc, p.skip 1)
      else
        let before : Fold := if joined then ⟨[], some [], []⟩ else .none
        let (blanks, p) ← Fold.gather 0 p.ahead.length before p
        scanFrom double fuel (acc ++ blanks.text) p

/-- The text of a quoted scalar whose opening quote is next, and the place behind it. -/
def scan (double : Bool) (p : Place) : Except YamlFault (List Char × Place) :=
  scanFrom double p.ahead.length [] (p.skip 1)

end SpriteFacts.Yaml.Quoted
