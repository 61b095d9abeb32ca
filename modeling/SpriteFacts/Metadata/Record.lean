import SpriteFacts.Json.Value
import SpriteFacts.Metadata.Cut
import SpriteFacts.Metadata.PixelOffset
import SpriteFacts.Record.Roster

/-! The metadata of a sprite. Every field is stated or absent on its own, but for the three fields of a
    cut, which are taken over together: a record that states a cut replaces the whole cut below it. A
    field that is stated false counts as stated and is not printed. -/

namespace SpriteFacts

/-- The metadata of one sprite. -/
structure Metadata where
  id : Nat
  cutOffset : Option Int := none
  cutNegative : Option Bool := none
  cutSprite : Option Nat := none
  door : Option Bool := none
  mov : Option Int := none
  yadd : Option Nat := none
  layer : Option Int := none
  offsetX : Option Int := none
  offsetY : Option Int := none
  noLighting : Option Bool := none
  deriving DecidableEq, Repr

namespace Metadata

/-- The record cut at an offset, which replaces any cut. -/
def setCutOffset (r : Metadata) (offset : Int) (negative : Bool) : Metadata :=
  { r with cutOffset := some offset, cutNegative := if negative then some true else none, cutSprite := none }

/-- The record cut at a sprite, which replaces any cut. -/
def setCutSprite (r : Metadata) (sprite : Nat) : Metadata :=
  { r with cutOffset := none, cutNegative := none, cutSprite := some sprite }

def setCut (r : Metadata) : CutValue → Metadata
  | .relative offset negated => r.setCutOffset offset negated
  | .sprite number => r.setCutSprite number

def hasCut (r : Metadata) : Bool := r.cutOffset.isSome || r.cutSprite.isSome

def hasOffset (r : Metadata) : Bool := r.offsetX.isSome || r.offsetY.isSome

/-- The earlier record with every field that the later one states; a cut is taken over as one. -/
def overlay (earlier later : Metadata) : Metadata where
  id := earlier.id
  cutOffset := if later.hasCut then later.cutOffset else earlier.cutOffset
  cutNegative := if later.hasCut then later.cutNegative else earlier.cutNegative
  cutSprite := if later.hasCut then later.cutSprite else earlier.cutSprite
  door := later.door.or earlier.door
  mov := later.mov.or earlier.mov
  yadd := later.yadd.or earlier.yadd
  layer := later.layer.or earlier.layer
  offsetX := later.offsetX.or earlier.offsetX
  offsetY := later.offsetY.or earlier.offsetY
  noLighting := later.noLighting.or earlier.noLighting

/-- The record states no field; a negative sign without an offset is none. -/
def isEmpty (r : Metadata) : Bool :=
  !r.hasCut && r.door.isNone && r.mov.isNone && r.yadd.isNone && r.layer.isNone && !r.hasOffset &&
    r.noLighting.isNone

instance : SpriteRecord Metadata where
  number := Metadata.id
  overlay := overlay
  isEmpty := isEmpty
  number_overlay _ _ := rfl

/-- The record as JSON, its fields in order and the absent ones left out. -/
def toJson (r : Metadata) : Json :=
  .obj <| [("id", .nat r.id)]
    ++ Json.member? "cut_offset" .int r.cutOffset
    ++ Json.flag? "cut_negative" r.cutNegative
    ++ Json.member? "cut_sprite" .nat r.cutSprite
    ++ Json.flag? "door" r.door
    ++ Json.member? "mov" .int r.mov
    ++ Json.member? "yadd" .nat r.yadd
    ++ Json.member? "layer" .int r.layer
    ++ Json.member? "offset_x" .int r.offsetX
    ++ Json.member? "offset_y" .int r.offsetY
    ++ Json.flag? "no_lighting" r.noLighting

end Metadata
end SpriteFacts
