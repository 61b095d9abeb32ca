import SpriteFacts.Yaml.Token

/-! The nodes of a YAML document, read from its tokens. A node is a scalar, a collection of nodes, or the
    name of an earlier node that it repeats; names and tags mark nodes but do not change their shape.
    A document that says nothing is a scalar without text. -/

namespace SpriteFacts.Yaml

/-- The marks of a node: the name that other nodes repeat it by, and its tag written out. -/
structure Marks where
  anchor : Option String := none
  tag : Option String := none
  deriving DecidableEq, Repr

/-- A node of a document. Nodes are repeated by what `ρ` knows them by: by their names in the text, by numbers later. -/
inductive Node (ρ : Type) where
  | repeated (ref : ρ)
  | scalar (marks : Marks) (text : List Char) (plain : Bool)
  | seq (marks : Marks) (items : List (Node ρ))
  | map (marks : Marks) (entries : List (Node ρ × Node ρ))

/-- Where a node stands, which decides the collections that may stand there. -/
inductive Spot where
  /-- Inside brackets: no collection by indentation. -/
  | flow
  /-- The document, or an entry of a block sequence. -/
  | entry
  /-- A key or a value of a block mapping: a block sequence may stand in its column. -/
  | member
  deriving DecidableEq

/-- The handles of tags and what they stand for. -/
abbrev Handles := List (String × String)

namespace Handles

/-- The handles that need no directive. -/
def builtIn : Handles := [("!", "!"), ("!!", "tag:yaml.org,2002:")]

/-- A tag written out. One without a handle is written out already. -/
def expand (handles : Handles) (handle suffix : String) : Except YamlFault String :=
  if handle = "" then .ok suffix else
    match handles.lookup handle with
    | some start => .ok (start ++ suffix)
    | none => .error .badTag

end Handles

namespace Node

def empty : Node String := scalar {} [] true

/-- The marks at the start of a node, at most one of each kind, and the tokens behind them. -/
def marks (handles : Handles) : List Token → Except YamlFault (Marks × List Token)
  | .anchor name :: .tag handle suffix :: ts =>
    (handles.expand handle suffix).map fun tag => (⟨some name, some tag⟩, ts)
  | .tag handle suffix :: .anchor name :: ts =>
    (handles.expand handle suffix).map fun tag => (⟨some name, some tag⟩, ts)
  | .tag handle suffix :: ts => (handles.expand handle suffix).map fun tag => (⟨none, some tag⟩, ts)
  | .anchor name :: ts => .ok (⟨some name, none⟩, ts)
  | ts => .ok ({}, ts)

/-- The marks of a scalar that is written out, on which the tag `!` means no tag. -/
def scalarMarks (m : Marks) : Marks := if m.tag = some "!" then { m with tag := none } else m

/-- The node that `read` finds, or the empty one if one of the tokens `stops` is next. -/
def unlessNext (stops : List Token) (read : List Token → Except YamlFault (Node String × List Token)) (ts : List Token) :
    Except YamlFault (Node String × List Token) :=
  if ts.head?.any stops.contains then .ok (empty, ts) else read ts

/-- The value behind its mark, or the empty node if there is no mark. -/
def valueOf (stops : List Token) (read : List Token → Except YamlFault (Node String × List Token)) :
    List Token → Except YamlFault (Node String × List Token)
  | .value :: ts => unlessNext stops read ts
  | ts => .ok (empty, ts)

/-- The tokens behind the comma that separates an item from those before it. -/
def afterComma (isFirst : Bool) : List Token → Except YamlFault (List Token)
  | .comma :: ts => if isFirst then .error .unexpectedToken else .ok ts
  | ts => if isFirst then .ok ts else .error .unexpectedToken

mutual

/-- The node at the start of the tokens, and the tokens behind it. -/
def read (handles : Handles) : Nat → Spot → List Token → Except YamlFault (Node String × List Token)
  | 0, _, _ => .error .unexpectedToken
  | _ + 1, _, .alias name :: ts => .ok (repeated name, ts)
  | fuel + 1, spot, ts => do
    let (m, ts) ← marks handles ts
    match ts with
    | .scalar text plain :: ts => pure (scalar (scalarMarks m) text plain, ts)
    | .flowSeqStart :: ts => (flowItems handles fuel true ts).map fun (items, ts) => (seq m items, ts)
    | .flowMapStart :: ts => (flowEntries handles fuel true ts).map fun (entries, ts) => (map m entries, ts)
    | t :: rest =>
      if t = .blockSeq && spot ≠ .flow then
        (blockItems handles fuel rest).map fun (items, ts) => (seq m items, ts)
      else if t = .blockMap && spot ≠ .flow then
        (blockEntries handles fuel rest).map fun (entries, ts) => (map m entries, ts)
      else if t = .entry && spot = .member then
        (looseItems handles fuel ts).map fun (items, ts) => (seq m items, ts)
      else if m = {} then throw .unexpectedToken
      else pure (scalar m [] true, ts)
    | [] => if m = {} then throw .unexpectedToken else pure (scalar m [] true, [])

def blockItems (handles : Handles) : Nat → List Token → Except YamlFault (List (Node String) × List Token)
  | fuel + 1, .entry :: ts => do
    let (item, ts) ← unlessNext [.entry, .blockEnd] (read handles fuel .entry) ts
    let (items, ts) ← blockItems handles fuel ts
    pure (item :: items, ts)
  | _ + 1, .blockEnd :: ts => .ok ([], ts)
  | _, _ => .error .unexpectedToken

/-- The items of a block sequence in the column of the mapping around it, which ends with its last item. -/
def looseItems (handles : Handles) : Nat → List Token → Except YamlFault (List (Node String) × List Token)
  | fuel + 1, .entry :: ts => do
    let (item, ts) ← unlessNext [.entry, .key, .value, .blockEnd] (read handles fuel .entry) ts
    let (items, ts) ← looseItems handles fuel ts
    pure (item :: items, ts)
  | _ + 1, ts => .ok ([], ts)
  | 0, _ => .error .unexpectedToken

def blockEntries (handles : Handles) : Nat → List Token → Except YamlFault (List (Node String × Node String) × List Token)
  | fuel + 1, .key :: ts => do
    let (key, ts) ← unlessNext [.key, .value, .blockEnd] (read handles fuel .member) ts
    let (value, ts) ← valueOf [.key, .value, .blockEnd] (read handles fuel .member) ts
    let (entries, ts) ← blockEntries handles fuel ts
    pure ((key, value) :: entries, ts)
  | _ + 1, .blockEnd :: ts => .ok ([], ts)
  | _, _ => .error .unexpectedToken

/-- The items of a sequence in brackets up to the closing one. A key among them is a mapping of one entry; if
    the key is empty, the token that shows it to be so is dropped. -/
def flowItems (handles : Handles) : Nat → Bool → List Token → Except YamlFault (List (Node String) × List Token)
  | 0, _, _ => .error .unexpectedToken
  | _ + 1, _, .flowSeqEnd :: ts => .ok ([], ts)
  | fuel + 1, isFirst, ts => do
    match ← afterComma isFirst ts with
    | .flowSeqEnd :: ts => pure ([], ts)
    | .key :: ts => do
      let (key, ts) ←
        if ts.head?.any [Token.value, .comma, .flowSeqEnd].contains then pure (empty, ts.tail)
        else read handles fuel .flow ts
      let (value, ts) ← valueOf [.comma, .flowSeqEnd] (read handles fuel .flow) ts
      let (items, ts) ← flowItems handles fuel false ts
      pure (map {} [(key, value)] :: items, ts)
    | ts => do
      let (item, ts) ← read handles fuel .flow ts
      let (items, ts) ← flowItems handles fuel false ts
      pure (item :: items, ts)

/-- The entries of a mapping in braces up to the closing one. A node that is no key has an empty value. -/
def flowEntries (handles : Handles) :
    Nat → Bool → List Token → Except YamlFault (List (Node String × Node String) × List Token)
  | 0, _, _ => .error .unexpectedToken
  | _ + 1, _, .flowMapEnd :: ts => .ok ([], ts)
  | fuel + 1, isFirst, ts => do
    match ← afterComma isFirst ts with
    | .flowMapEnd :: ts => pure ([], ts)
    | .key :: ts => do
      let (key, ts) ← unlessNext [.value, .comma, .flowMapEnd] (read handles fuel .flow) ts
      let (value, ts) ← valueOf [.comma, .flowMapEnd] (read handles fuel .flow) ts
      let (entries, ts) ← flowEntries handles fuel false ts
      pure ((key, value) :: entries, ts)
    | ts => do
      let (key, ts) ← read handles fuel .flow ts
      let (entries, ts) ← flowEntries handles fuel false ts
      pure ((key, empty) :: entries, ts)

end

/-- The tokens behind the directives of a document, and the handles that these declare. A directive is given
    once, and the version is 1.1 or 1.2. -/
def directives : Bool → Handles → List Token → Except YamlFault (Handles × List Token)
  | versioned, handles, .version major minor :: ts =>
    if versioned || major ≠ 1 || (minor ≠ 1 && minor ≠ 2) then .error .badDirective else directives true handles ts
  | versioned, handles, .tagHandle handle start :: ts =>
    if (handles.lookup handle).isSome then .error .badDirective
    else directives versioned ((handle, start) :: handles) ts
  | _, handles, ts => .ok (handles, ts)

def endsDocument : Token → Bool
  | .version .. | .tagHandle .. | .documentStart | .documentEnd => true
  | _ => false

/-- The node of a document whose directives have been read, and the tokens behind it. -/
def content (handles : Handles) (ts : List Token) : Except YamlFault (Node String × List Token) :=
  read (handles ++ Handles.builtIn) (4 * ts.length + 4) .entry ts

/-- The node of the only document among the tokens. -/
def ofTokens? (ts : List Token) : Except YamlFault (Node String) := do
  let (declared, rest) ← directives false [] ts
  let (node, rest) ←
    match rest with
    | .documentStart :: rest =>
      if rest.head?.all endsDocument then pure (empty, rest) else content declared rest
    | [] => if ts.isEmpty then pure (empty, []) else throw .unexpectedToken
    | rest => if rest.length = ts.length then content [] rest else throw .unexpectedToken
  if (rest.dropWhile (· = .documentEnd)).isEmpty then pure node else throw .severalDocuments

end Node
end SpriteFacts.Yaml
