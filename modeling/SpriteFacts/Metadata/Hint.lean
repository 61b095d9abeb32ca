import SpriteFacts.Idiom.Chain

/-! Hints that are a single literal: the movement hint, which has a sign, and the vertical offset, which
    has none. -/

namespace SpriteFacts

open Pattern

/-- The return expressions of the movement function. Blanks may stand between the sign and the digits. -/
def Movement.chain : IdiomChain Int where
  field := "mov"
  idioms :=
    [ .ofPattern "literal" (whole (group 1 (all [optional (char '-'), blanks, digits]))) fun m _ =>
        Text.integer? ((m.group 1).filter fun c => !Text.isBlank c) ]

def VerticalOffset.chain : IdiomChain Nat where
  field := "yadd"
  idioms := [.ofPattern "literal" (whole (group 1 digits)) fun m _ => m.word? 1]

end SpriteFacts
