import SpriteFacts.Yaml.Place

/-! Plain scalars: words without quotes, up to a comment, a colon that ends a word, or less indentation.
    Inside brackets the brackets and commas end them too. A plain scalar may span lines. -/

namespace SpriteFacts.Yaml.Plain

def isFlowMark (c : Char) : Bool := c == ',' || c == '[' || c == ']' || c == '{' || c == '}'

/-- The characters up to a blank or the end of the scalar. -/
def chunk (inFlow : Bool) : Nat → List Char → Place → Except YamlFault (List Char × Place)
  | 0, acc, p => .ok (acc, p)
  | fuel + 1, acc, p =>
    match p.head? with
    | none => .ok (acc, p)
    | some c =>
      let next := p.peek? 1
      if endsWord (some c) then .ok (acc, p)
      else if inFlow && c == ':' && next.any (fun d => isFlowMark d || d == '?') then .error .unexpectedCharacter
      else if (c == ':' && endsWord next) || (inFlow && isFlowMark c) then .ok (acc, p)
      else chunk inFlow fuel (acc ++ [c]) (p.skip 1)

/-- The text of a plain scalar from a place on, given the text and the blanks before it, the place behind
    it, and whether that place is on a later line. -/
def scanFrom (inFlow : Bool) (indent : Nat) :
    Nat → List Char → Fold → Place → Except YamlFault (List Char × Bool × Place)
  | 0, acc, blanks, p => .ok (acc, blanks.first.isSome, p)
  | fuel + 1, acc, blanks, p =>
    if p.atDocumentEdge || p.head? = some '#' then .ok (acc, blanks.first.isSome, p)
    else do
      let (word, p) ← chunk inFlow p.ahead.length [] p
      let acc := if word.isEmpty then acc else acc ++ blanks.text ++ word
      let blanks := if word.isEmpty then blanks else .none
      if p.head?.any fun c => isSpace c || isBreak c then
        let (blanks, p) ← Fold.gather indent p.ahead.length blanks p
        if !inFlow && p.column < indent then pure (acc, blanks.first.isSome, p)
        else scanFrom inFlow indent fuel acc blanks p
      else pure (acc, blanks.first.isSome, p)

/-- The text of a plain scalar, whether a line break follows it, and the place behind it. -/
def scan (inFlow : Bool) (indent : Nat) (p : Place) : Except YamlFault (List Char × Bool × Place) :=
  scanFrom inFlow indent (p.ahead.length + 1) [] .none p

end SpriteFacts.Yaml.Plain
