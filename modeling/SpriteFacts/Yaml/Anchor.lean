import SpriteFacts.Association
import SpriteFacts.Yaml.Node

/-! The numbers of named nodes. A node that has a name takes the number of names given before it, and the name
    stands for it from there on. A name that is given again is counted once, so the next named node takes the
    number of the one that has it now. Which node a number stands for is settled at the end of the document: it is
    the last to start of those that took it, also for repetitions in front of that node. -/

namespace SpriteFacts.Yaml

/-- The names given so far, and the numbers that they stand for. -/
abbrev Names := List (String × Nat)

/-- Nodes with their numbers, in the order in which they start. -/
abbrev Numbered := List (Nat × Node Nat)

/-- The names behind the start of a node. -/
def Names.enter (names : Names) (name : Option String) : Names :=
  match name with
  | some name => Association.put name names.length names
  | none => names

/-- The named nodes of a node that starts behind `names`: itself, if it has a name, and those inside. -/
def Names.named (names : Names) (name : Option String) (node : Node Nat) (inner : Numbered) : Numbered :=
  if name.isSome then (names.length, node) :: inner else inner

/-- The node that a number stands for. -/
def Numbered.node? (nodes : Numbered) (number : Nat) : Option (Node Nat) := nodes.reverse.lookup number

namespace Node

mutual

/-- The node with numbers for names, the named nodes in it, and the names behind it. -/
def number : Node String → Names → Except YamlFault (Node Nat × Numbered × Names)
  | .repeated name, names =>
    match names.lookup name with
    | some n => .ok (.repeated n, [], names)
    | none => .error .unknownAnchor
  | .scalar m text plain, names =>
    let node := .scalar m text plain
    .ok (node, names.named m.anchor node [], names.enter m.anchor)
  | .seq m items, names => do
    let (items, inner, behind) ← numberItems items (names.enter m.anchor)
    let node := .seq m items
    pure (node, names.named m.anchor node inner, behind)
  | .map m entries, names => do
    let (entries, inner, behind) ← numberEntries entries (names.enter m.anchor)
    let node := .map m entries
    pure (node, names.named m.anchor node inner, behind)

def numberItems : List (Node String) → Names → Except YamlFault (List (Node Nat) × Numbered × Names)
  | [], names => .ok ([], [], names)
  | item :: items, names => do
    let (item, first, names) ← number item names
    let (items, rest, names) ← numberItems items names
    pure (item :: items, first ++ rest, names)

def numberEntries : List (Node String × Node String) → Names → Except YamlFault (List (Node Nat × Node Nat) × Numbered × Names)
  | [], names => .ok ([], [], names)
  | (key, value) :: entries, names => do
    let (key, first, names) ← number key names
    let (value, second, names) ← number value names
    let (entries, rest, names) ← numberEntries entries names
    pure ((key, value) :: entries, first ++ second ++ rest, names)

end

end Node
end SpriteFacts.Yaml
