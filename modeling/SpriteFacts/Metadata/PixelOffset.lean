import SpriteFacts.Idiom.Chain

/-! The pixel offset of a sprite: two assignments, one for each axis and each optional. An axis is
    assigned through its pointer or as a variable of its own. -/

namespace SpriteFacts

/-- A shift of the picture in pixels. -/
structure PixelOffset where
  x : Int
  y : Int
  deriving DecidableEq, Repr

namespace PixelOffset

open Pattern

def assignment (axis : Char) : Pattern :=
  seq (alt (spaced [char '*', char 'p']) wordEdge) (spaced [char axis, char '=', group 1 signedDigits, char ';'])

def axisValue? (axis : Char) (code : List Char) : Option Int :=
  ((assignment axis).find? code).bind fun m => m.integer? 1

/-- The offset that code assigns; an axis without a value is 0 if the other has one. -/
def read (s : Scope) : Option PixelOffset :=
  match axisValue? 'x' s.code, axisValue? 'y' s.code with
  | none, none => none
  | x, y => some ⟨x.getD 0, y.getD 0⟩

def chain : IdiomChain PixelOffset := ⟨"offset", [⟨"pair-assignment", read⟩]⟩

end PixelOffset
end SpriteFacts
