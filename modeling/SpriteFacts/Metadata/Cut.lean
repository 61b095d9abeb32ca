import SpriteFacts.Idiom.Chain

/-! The cut counterpart of a sprite: either an offset from the sprite's own number, perhaps negated as a
    whole, or the number of another sprite. Each pattern covers the whole return expression, so a loose
    form never matches inside a more specific one. -/

namespace SpriteFacts

/-- The counterpart that a cut sprite is drawn with. -/
inductive CutValue where
  /-- The sprite's number plus `offset`, with the sign of the sum turned if `negated`. -/
  | relative (offset : Int) (negated : Bool)
  /-- This very sprite; 0 stands for no cut and is still a value. -/
  | sprite (number : Nat)
  deriving DecidableEq, Repr

namespace CutValue

def resolve (id : Nat) : CutValue → Int
  | relative offset false => id + offset
  | relative offset true => -(id + offset)
  | sprite number => number

end CutValue

namespace Cut

open Pattern

def sum (operator : Char) : Pattern := spaced [literal "sprite", char operator, group 1 digits]

def inParens (p : Pattern) : Pattern := spaced [char '(', p, char ')']

def intCast : Pattern := inParens (literal "int")

/-- The value of a sum: the literal counts against the sprite if the operator is a minus. -/
def sumValue (operator : Char) (negated : Bool) (m : Match) (_ : Scope) : Option CutValue :=
  (m.integer? 1).map fun n => .relative (if operator = '-' then -n else n) negated

def chain : IdiomChain CutValue where
  field := "cut"
  idioms :=
    [ .ofPattern "neg-cast-plus" (whole (spaced [char '-', intCast, inParens (sum '+')])) (sumValue '+' true),
      .ofPattern "neg-cast-minus" (whole (spaced [char '-', intCast, inParens (sum '-')])) (sumValue '-' true),
      .ofPattern "cast-plus" (whole (spaced [intCast, inParens (sum '+')])) (sumValue '+' false),
      .ofPattern "cast-minus" (whole (spaced [intCast, inParens (sum '-')])) (sumValue '-' false),
      .ofPattern "plus" (whole (sum '+')) (sumValue '+' false),
      .ofPattern "minus" (whole (sum '-')) (sumValue '-' false),
      .ofPattern "neg-paren-plus" (whole (spaced [char '-', inParens (sum '+')])) (sumValue '+' true),
      .ofPattern "neg-paren-minus" (whole (spaced [char '-', inParens (sum '-')])) (sumValue '-' true),
      .ofPattern "literal" (whole (group 1 digits)) fun m _ => (m.word? 1).map .sprite ]

end Cut
end SpriteFacts
