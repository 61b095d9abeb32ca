/-! Values of a YAML document, and the reasons why a text is not one. Two values are the same if they are
    written alike up to the order of a mapping; a mapping never holds two keys that are the same. -/

namespace SpriteFacts

/-- A YAML value. -/
inductive Yaml where
  | null
  | bool (value : Bool)
  | int (value : Int)
  | float (value : Float)
  | str (value : String)
  | seq (items : List Yaml)
  | map (entries : List (Yaml × Yaml))
  /-- A value under a tag of the document's own. -/
  | tagged (tag : String) (value : Yaml)
  deriving Repr

/-- Why a text cannot be read as one YAML document. -/
inductive YamlFault where
  | controlCharacter
  | unexpectedCharacter
  | missingColon
  | misplacedIndicator
  | tabIndentation
  | unclosedQuote
  | badEscape
  | badBlockHeader
  | badAnchor
  | badTag
  | badDirective
  | unexpectedToken
  | severalDocuments
  | unknownAnchor
  | duplicateKey
  | numberTooLarge
  | wrongTag
  | nestedTooDeep
  | repeatedTooOften
  deriving DecidableEq, Repr

namespace Yaml

def untagged : Yaml → Yaml
  | tagged _ v => v.untagged
  | v => v

def str? (v : Yaml) : Option String :=
  match v.untagged with
  | str s => some s
  | _ => none

def int? (v : Yaml) : Option Int :=
  match v.untagged with
  | int n => some n
  | _ => none

/-- The entries of a mapping that have a string for a key; nothing for any other value. -/
def stringEntries : Yaml → List (String × Yaml)
  | map entries => entries.filterMap fun e => e.1.str?.map fun key => (key, e.2)
  | _ => []

mutual

/-- Two values are the same. -/
def same : Yaml → Yaml → Bool
  | null, null => true
  | bool a, bool b => a == b
  | int a, int b => a == b
  | float a, float b => a == b || (a.isNaN && b.isNaN)
  | str a, str b => a == b
  | seq as, seq bs => sameItems as bs
  | map as, map bs => as.length == bs.length && sameEntries as bs
  | tagged s a, tagged t b => s == t && same a b
  | _, _ => false

def sameItems : List Yaml → List Yaml → Bool
  | [], [] => true
  | a :: as, b :: bs => same a b && sameItems as bs
  | _, _ => false

/-- Every entry of the first list is the same as one of the second. -/
def sameEntries : List (Yaml × Yaml) → List (Yaml × Yaml) → Bool
  | [], _ => true
  | (k, v) :: as, bs => bs.any (fun e => same k e.1 && same v e.2) && sameEntries as bs

end

end Yaml
end SpriteFacts
