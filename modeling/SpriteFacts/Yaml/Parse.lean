import SpriteFacts.Yaml.Anchor
import SpriteFacts.Yaml.Scalar

/-! The value of a YAML document, read from its nodes. `parse` stands for the library that reads configuration
    files, `serde_yml`, whose code is not part of the program: these modules follow what it is known to do. A
    repetition has the value of the node that its number stands for; one that stands inside that very node would
    never end. No mapping holds two keys that are the same, and collections are bounded in depth and repetitions
    in number. -/

namespace SpriteFacts.Yaml

/-- The part of a tag that belongs to the document; none for a tag that YAML defines. -/
def localTag? (tag : String) : Option String :=
  match tag.toList with
  | '!' :: cs => some (String.ofList cs)
  | _ => none

def ofScalar (tag : Option String) (cs : List Char) (plain : Bool) : Except YamlFault Yaml :=
  let untagged := if plain then ofPlain cs else .ok (.str (String.ofList cs))
  match tag with
  | none => untagged
  | some tag =>
    match localTag? tag with
    | none => ofTagged tag cs
    | some name => if name = "" then .error .badTag else untagged.map (.tagged name)

/-- A collection under its tag; a tag that YAML defines says nothing more. -/
def withTag (tag : Option String) (v : Yaml) : Except YamlFault Yaml :=
  match tag.bind localTag? with
  | none => .ok v
  | some name => if name = "" then .error .badTag else .ok (.tagged name v)

def keysDiffer : List (Yaml × Yaml) → Bool
  | [] => true
  | e :: es => !es.any (fun f => same e.1 f.1) && keysDiffer es

/-- The mapping with these entries, whose keys must differ. -/
def ofEntries (entries : List (Yaml × Yaml)) : Except YamlFault Yaml :=
  if keysDiffer entries then .ok (.map entries) else .error .duplicateKey

def maxDepth : Nat := 128

/-- Reading within a number of repetitions, of which some are left. -/
abbrev Reading := StateT Nat (Except YamlFault)

/-- The node that is meant. One that stands elsewhere costs a repetition. -/
def resolve (named : Numbered) : Node Nat → Reading (Node Nat)
  | .repeated n => do
    match ← get with
    | 0 => throw .repeatedTooOften
    | left + 1 =>
      set left
      match named.node? n with
      | some node => pure node
      | none => throw .unknownAnchor
  | node => pure node

/-- The value of a node, given how to read the nodes of a collection if it may hold any. -/
def valueWith (named : Numbered) (inner : Option (Node Nat → Reading Yaml)) (node : Node Nat) : Reading Yaml := do
  match ← resolve named node, inner with
  | .scalar m text plain, _ => ofScalar m.tag text plain
  | .seq m items, some read => withTag m.tag (.seq (← items.mapM read))
  | .map m entries, some read =>
    let entries ← entries.mapM fun e => do pure (← read e.1, ← read e.2)
    withTag m.tag (← ofEntries entries)
  | .repeated _, _ => throw .unknownAnchor
  | _, none => throw .nestedTooDeep

/-- The value of a node with at most that many collections inside one another. -/
def value (named : Numbered) : Nat → Node Nat → Reading Yaml
  | 0 => valueWith named none
  | depth + 1 => valueWith named (some (value named depth))

mutual

/-- The number of places in a document where something starts or ends. -/
def eventCount {ρ : Type} : Node ρ → Nat
  | .repeated _ | .scalar .. => 1
  | .seq _ items => 2 + eventCountItems items
  | .map _ entries => 2 + eventCountEntries entries

def eventCountItems {ρ : Type} : List (Node ρ) → Nat
  | [] => 0
  | n :: ns => eventCount n + eventCountItems ns

def eventCountEntries {ρ : Type} : List (Node ρ × Node ρ) → Nat
  | [] => 0
  | (k, v) :: es => eventCount k + eventCount v + eventCountEntries es

end

def parse (cs : List Char) : Except YamlFault Yaml := do
  let (node, named, _) ← (← Node.ofTokens? (← tokens cs)).number []
  (value named maxDepth node).run' (100 * eventCount node)

end SpriteFacts.Yaml
