/-! What moves in the look of a sprite: the frame that is drawn, one packed color, or the light. Every
    animation is driven by a tick that counts up. -/

namespace SpriteFacts

/-- How the frame or the red channel of a sprite changes with the tick. -/
inductive Animation where
  /-- Frame `base + (tick / divisor) % frames`. -/
  | cycle (frames divisor : Nat)
  /-- A cycle with the position on the map mixed into the frame. -/
  | positionCycle (frames divisor : Nat)
  /-- A channel that swings with a period, from a base and by an amplitude if they are known. -/
  | pulse (period : Nat) (affects : String) (base amplitude : Option Int)
  deriving DecidableEq, Repr

/-- The cycle over a number of frames, mixed with the position or not. -/
def Animation.ofCycle (frames divisor : Nat) (positional : Bool) : Animation :=
  if positional then positionCycle frames divisor else cycle frames divisor

/-- The three packed colors of a sprite. -/
inductive ColorSlot where
  | c1
  | c2
  | c3
  deriving DecidableEq, Repr

namespace ColorSlot

def all : List ColorSlot := [c1, c2, c3]

def name : ColorSlot → String
  | c1 => "c1"
  | c2 => "c2"
  | c3 => "c3"

def ofName? (name : String) : Option ColorSlot := all.find? fun slot => slot.name == name

end ColorSlot

/-- A packed color whose blue is `|maxBlue - tick % period| / divisor + offset`, red and green held. -/
structure ColorPulse where
  target : ColorSlot
  r : Nat
  g : Nat
  maxBlue : Nat
  period : Nat
  divisor : Nat
  offset : Nat
  deriving DecidableEq, Repr

/-- A light level of `|max - tick % period| / divisor + offset`. -/
structure LightPulse where
  max : Nat
  period : Nat
  divisor : Nat
  offset : Nat
  deriving DecidableEq, Repr

end SpriteFacts
