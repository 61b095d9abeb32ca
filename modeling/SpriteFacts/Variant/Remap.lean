import SpriteFacts.Idiom.Chain
import SpriteFacts.Variant.Animation

/-! The sprite that a variant is drawn from. The variant functions assign their sprite variable; code that
    never assigns it draws the sprite itself. An assignment that no idiom reads gives no base at all,
    and sums that leave the range of integers give none either. -/

namespace SpriteFacts

/-- The sprite that a variant is drawn from, and the cycle of frames that starts at it. -/
structure Remap where
  base : Int
  animation : Option Animation
  deriving DecidableEq, Repr

namespace Remap

open Pattern

def tickDivision : Pattern :=
  all [optional (char '('), wordStart "attick", optional (char ')'), blanks, char '/', blanks, group 1 digits]

def mapPosition : Pattern := spaced [wordStart "mn", char '%', literal "MAPDX"]

/-- A base that cycles over a number of frames. The code's first division of the tick gives the divisor,
    which is 1 if there is none. -/
def cycling (base : Int) (frames : Nat) (code : List Char) : Remap :=
  let divisor := ((tickDivision.find? code).bind fun m => m.word? 1).getD 1
  ⟨base, some (.ofCycle frames divisor (mapPosition.occursIn code))⟩

/-- The variable assigned to itself with one literal counted in and one counted out. -/
def shifted (v : String) (first second : Char) : Pattern :=
  spaced [wordStart v, char '=', literal v, char first, group 1 digits, char second, group 2 digits, char ';']

/-- The modulus after more of the statement, its literal kept under a number. -/
def laterModulus (number : Nat) : Pattern :=
  all [lazyRun (· != ';'), char '%', blanks, group number digits]

/-- The variable changed by an assignment, whatever is assigned. -/
def anyAssignment (v : String) : Pattern :=
  all [wordStart v, blanks, optional (one fun c => "-+*/%&|".toList.contains c), char '=', one (· != '=')]

def chain (v : String) : IdiomChain Remap where
  field := "base_sprite"
  idioms :=
    [ .ofPattern "offset-plus-minus" (shifted v '+' '-') fun m s => do
        let a ← m.integer? 1
        let b ← m.integer? 2
        let up ← Text.fitInteger? (s.id + a)
        let base ← Text.fitInteger? (up - b)
        some ⟨base, none⟩,
      .ofPattern "offset-minus-plus" (shifted v '-' '+') fun m s => do
        let a ← m.integer? 1
        let b ← m.integer? 2
        let down ← Text.fitInteger? (s.id - a)
        let base ← Text.fitInteger? (down + b)
        some ⟨base, none⟩,
      .ofPattern "base-cycle" (seq (spaced [assignTo v, group 1 digits, char '+']) (laterModulus 2)) fun m s => do
        let base ← m.integer? 1
        let frames ← m.word? 2
        some (cycling base frames s.code),
      .ofPattern "self-cycle" (seq (spaced [assignTo v, literal v, char '+']) (laterModulus 1)) fun m s => do
        let frames ← m.word? 1
        some (cycling s.id frames s.code),
      .ofPattern "direct" (spaced [assignTo v, group 1 digits, char ';']) fun m _ =>
        (m.integer? 1).map fun base => ⟨base, none⟩,
      ⟨"identity", fun s => if (anyAssignment v).occursIn s.code then none else some ⟨s.id, none⟩⟩ ]

def characterChain : IdiomChain Remap := chain "csprite"

def animatedChain : IdiomChain Remap := chain "sprite"

end Remap
end SpriteFacts
