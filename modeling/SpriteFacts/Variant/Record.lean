import SpriteFacts.Json.Value
import SpriteFacts.Record.Roster
import SpriteFacts.Variant.Channel
import SpriteFacts.Variant.PackedColor

/-! The look of a sprite variant. A record keeps the code that a human should look at, but that text is
    for reports and never printed in a document; nor do it and a comment make a record worth keeping. -/

namespace SpriteFacts

/-- The look of one sprite variant. -/
structure Variant where
  id : Nat
  baseSprite : Option Int := none
  channels : Channels := {}
  colors : PackedColors := {}
  animation : Option Animation := none
  colorPulse : Option ColorPulse := none
  lightPulse : Option LightPulse := none
  comment : Option String := none
  needsReview : Option String := none
  deriving DecidableEq, Repr

def Channels.overlay (earlier later : Channels) : Channels := ofGet fun c => (later.get c).or (earlier.get c)

def PackedColors.overlay (earlier later : PackedColors) : PackedColors :=
  ⟨later.c1.or earlier.c1, later.c2.or earlier.c2, later.c3.or earlier.c3⟩

namespace Variant

def hasAnimation (r : Variant) : Bool := r.animation.isSome || r.colorPulse.isSome || r.lightPulse.isSome

/-- The earlier record with every field that the later one states. -/
def overlay (earlier later : Variant) : Variant where
  id := earlier.id
  baseSprite := later.baseSprite.or earlier.baseSprite
  channels := earlier.channels.overlay later.channels
  colors := earlier.colors.overlay later.colors
  animation := later.animation.or earlier.animation
  colorPulse := later.colorPulse.or earlier.colorPulse
  lightPulse := later.lightPulse.or earlier.lightPulse
  comment := later.comment.or earlier.comment
  needsReview := later.needsReview.or earlier.needsReview

/-- The record states no field but perhaps a comment and a text to review. -/
def isEmpty (r : Variant) : Bool :=
  r.baseSprite.isNone && r.channels = {} && r.colors = {} && !r.hasAnimation

instance : SpriteRecord Variant where
  number := Variant.id
  overlay := overlay
  isEmpty := isEmpty
  number_overlay _ _ := rfl

end Variant

def Animation.toJson : Animation → Json
  | cycle frames divisor => .obj [("type", .str "cycle"), ("frames", .nat frames), ("divisor", .nat divisor)]
  | positionCycle frames divisor =>
    .obj [("type", .str "position_cycle"), ("frames", .nat frames), ("divisor", .nat divisor)]
  | pulse period affects base amplitude =>
    .obj <| [("type", .str "pulse"), ("period", .nat period), ("affects", .str affects)]
      ++ Json.member? "base" .int base
      ++ Json.member? "amplitude" .int amplitude

def ColorPulse.toJson (p : ColorPulse) : Json :=
  .obj [("target", .str p.target.name), ("r", .nat p.r), ("g", .nat p.g), ("max_blue", .nat p.maxBlue),
    ("period", .nat p.period), ("divisor", .nat p.divisor), ("offset", .nat p.offset)]

def LightPulse.toJson (p : LightPulse) : Json :=
  .obj [("max", .nat p.max), ("period", .nat p.period), ("divisor", .nat p.divisor), ("offset", .nat p.offset)]

/-- The record as JSON, its fields in order and the absent ones left out. -/
def Variant.toJson (r : Variant) : Json :=
  .obj <| [("id", .nat r.id)]
    ++ Json.member? "base_sprite" .int r.baseSprite
    ++ Channel.all.flatMap (fun c => Json.member? c.field .int (r.channels.get c))
    ++ ColorSlot.all.flatMap (fun slot => Json.member? slot.name .nat (r.colors.get slot))
    ++ Json.member? "animation" Animation.toJson r.animation
    ++ Json.member? "color_pulse" ColorPulse.toJson r.colorPulse
    ++ Json.member? "light_pulse" LightPulse.toJson r.lightPulse
    ++ Json.member? "comment" .str r.comment

end SpriteFacts
