import SpriteFacts.Idiom.Chain

/-! Static channels: seven variables of the variant functions that code sets to a literal. Only a literal
    that ends its statement or argument counts, so a literal that begins a longer expression does not. -/

namespace SpriteFacts

/-- A static channel. -/
inductive Channel where
  | scale
  | cr
  | cg
  | cb
  | light
  | saturation
  | shine
  deriving DecidableEq, Repr

/-- The values of the static channels. -/
structure Channels where
  scale : Option Int := none
  cr : Option Int := none
  cg : Option Int := none
  cb : Option Int := none
  light : Option Int := none
  saturation : Option Int := none
  shine : Option Int := none
  deriving DecidableEq, Repr

namespace Channel

open Pattern

def all : List Channel := [scale, cr, cg, cb, light, saturation, shine]

def field : Channel → String
  | scale => "scale"
  | cr => "cr"
  | cg => "cg"
  | cb => "cb"
  | light => "light"
  | saturation => "saturation"
  | shine => "shine"

def variableName : Channel → String
  | saturation => "sat"
  | c => c.field

def assignment (c : Channel) : Pattern := spaced [assignTo c.variableName, group 1 signedDigits, valueEnd]

def chain (c : Channel) : IdiomChain Int where
  field := c.field
  idioms := [.ofPattern "literal-assignment" c.assignment fun m _ => m.integer? 1]

end Channel

namespace Channels

def get (v : Channels) : Channel → Option Int
  | .scale => v.scale
  | .cr => v.cr
  | .cg => v.cg
  | .cb => v.cb
  | .light => v.light
  | .saturation => v.saturation
  | .shine => v.shine

def ofGet (f : Channel → Option Int) : Channels :=
  ⟨f .scale, f .cr, f .cg, f .cb, f .light, f .saturation, f .shine⟩

@[simp] theorem get_ofGet (f : Channel → Option Int) (c : Channel) : (ofGet f).get c = f c := by
  cases c <;> rfl

@[simp] theorem ofGet_get (v : Channels) : ofGet v.get = v := rfl

def set (v : Channels) (c : Channel) (value : Int) : Channels :=
  ofGet fun d => if d = c then some value else v.get d

def read (s : Scope) : Channels := ofGet fun c => c.chain.value? s

end Channels
end SpriteFacts
