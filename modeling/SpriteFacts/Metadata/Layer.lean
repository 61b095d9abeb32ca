import SpriteFacts.Association
import SpriteFacts.Idiom.Chain

/-! The render layer of a sprite: a literal, or a named constant less a literal. Constants are looked up
    in a table that starts with the built-in ones; a name that the table lacks, and a difference that
    leaves the range of integers, are errors and never a value. -/

namespace SpriteFacts

/-- Values of named layer constants, each name at most once. -/
structure LayerConstants where
  entries : List (String × Int)
  deriving DecidableEq, Repr

namespace LayerConstants

/-- The built-in constants. -/
def builtIn : LayerConstants := ⟨[("GND_LAY", 100), ("GME_LAY", 110), ("GME_LAY2", 111)]⟩

def value? (t : LayerConstants) (name : String) : Option Int := t.entries.lookup name

def size (t : LayerConstants) : Nat := t.entries.length

def insert (t : LayerConstants) (name : String) (value : Int) : LayerConstants :=
  ⟨Association.put name value t.entries⟩

theorem value?_insert (t : LayerConstants) (name : String) (value : Int) (n : String) :
    (t.insert name value).value? n = if n = name then some value else t.value? n :=
  Association.lookup_put name value t.entries n

end LayerConstants

/-- A layer expression as it is written. -/
inductive LayerExpr where
  | literal (value : Int)
  /-- The constant `name` less `minus`; a bare constant has `minus` 0. -/
  | constant (name : String) (minus : Int)
  deriving DecidableEq, Repr

/-- Why a layer expression has no value. -/
inductive LayerError where
  | unknownConstant (name : String)
  | outOfRange (name : String)
  deriving DecidableEq, Repr

def LayerError.message : LayerError → String
  | unknownConstant name => "unknown layer constant `" ++ name ++ "`"
  | outOfRange name => "layer constant `" ++ name ++ "` out of range"

def LayerExpr.resolve (constants : LayerConstants) : LayerExpr → Except LayerError Int
  | literal value => .ok value
  | constant name minus =>
    match constants.value? name with
    | none => .error (.unknownConstant name)
    | some base =>
      match Text.fitInteger? (base - minus) with
      | none => .error (.outOfRange name)
      | some value => .ok value

namespace Layer

open Pattern

def chain : IdiomChain LayerExpr where
  field := "layer"
  idioms :=
    [ .ofPattern "literal" (whole (group 1 signedDigits)) fun m _ => (m.integer? 1).map .literal,
      .ofPattern "constant-minus-literal" (whole (spaced [group 1 name, char '-', group 2 digits])) fun m _ =>
        (m.integer? 2).map fun minus => .constant (String.ofList (m.group 1)) minus,
      .ofPattern "constant" (whole (group 1 name)) fun m _ => some (.constant (String.ofList (m.group 1)) 0) ]

end Layer
end SpriteFacts
