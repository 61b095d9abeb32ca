import SpriteFacts.Pattern.Build
import SpriteFacts.Pattern.Search
import SpriteFacts.Text.Numeral

/-! Idioms and chains of them. An idiom recognises one shape of code and gives its value. A chain lists
    the idioms of one field from the most specific to the least, and the first that gives a value
    decides the field; if none does, the field stays unset. -/

namespace SpriteFacts

/-- The code that an idiom reads, and the number of the sprite that the code belongs to. -/
structure Scope where
  id : Nat
  code : List Char

/-- One shape of code with its value. -/
structure Idiom (α : Type) where
  name : String
  read : Scope → Option α

def Idiom.ofPattern {α : Type} (name : String) (pattern : Pattern) (value : Match → Scope → Option α) : Idiom α :=
  ⟨name, fun s => (pattern.find? s.code).bind fun m => value m s⟩

/-- The idioms of one field, in order of preference. -/
structure IdiomChain (α : Type) where
  field : String
  idioms : List (Idiom α)

namespace IdiomChain

variable {α : Type}

/-- The name and the value of the first idiom that gives one. -/
def firstMatch? (chain : IdiomChain α) (s : Scope) : Option (String × α) :=
  chain.idioms.findSome? fun idiom => (idiom.read s).map fun v => (idiom.name, v)

def value? (chain : IdiomChain α) (s : Scope) : Option α := (chain.firstMatch? s).map (·.2)

def names (chain : IdiomChain α) : List String := chain.idioms.map (·.name)

end IdiomChain

namespace Match

/-- The text kept under a number, read as a decimal up to `maxWord`. -/
def word? (m : Match) (number : Nat) : Option Nat := (m.group? number).bind Text.word?

/-- The text kept under a number, read as an integer. -/
def integer? (m : Match) (number : Nat) : Option Int := (m.group? number).bind Text.integer?

end Match

namespace Pattern

def signedDigits : Pattern := seq (optional (char '-')) digits

/-- A variable at the edge of a word, and the sign of an assignment. -/
def assignTo (variableName : String) : Pattern := spaced [wordStart variableName, char '=']

def valueEnd : Pattern := one fun c => c == ';' || c == ',' || c == ')'

end Pattern
end SpriteFacts
