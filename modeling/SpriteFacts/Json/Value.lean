/-! Values of the JSON data format. An object keeps its members in order, which is the order of print. -/

namespace SpriteFacts

/-- A JSON value whose numbers are integers. -/
inductive Json where
  | null
  | bool (value : Bool)
  | int (value : Int)
  | str (value : String)
  | arr (items : List Json)
  | obj (members : List (String × Json))
  deriving Repr

namespace Json

/-- A number without a sign. -/
def nat (n : Nat) : Json := int n

/-- A member that is only there if its value is. -/
def member? {α : Type} (key : String) (toJson : α → Json) (value : Option α) : List (String × Json) :=
  value.toList.map fun v => (key, toJson v)

/-- A member that is only there if its value is `true`. -/
def flag? (key : String) (value : Option Bool) : List (String × Json) :=
  if value = some true then [(key, bool true)] else []

end Json
end SpriteFacts
