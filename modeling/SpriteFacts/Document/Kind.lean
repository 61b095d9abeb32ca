/-! The documents of a run and the passes that feed them. Every pass reads one function of the source and
    states the fields of one family; a document is what its passes state together. -/

namespace SpriteFacts

/-- A pass over one function of the source. -/
inductive Pass where
  | cut
  | door
  | mov
  | yadd
  | layer
  | offset
  | noLighting
  | character
  | animated
  deriving DecidableEq, Repr

namespace Pass

def all : List Pass := [cut, door, mov, yadd, layer, offset, noLighting, character, animated]

def key : Pass → String
  | cut => "cut"
  | door => "door"
  | mov => "mov"
  | yadd => "yadd"
  | layer => "layer"
  | offset => "offset"
  | noLighting => "no_lighting"
  | character => "character"
  | animated => "animated"

def ofKey? (key : String) : Option Pass := all.find? fun p => p.key == key

/-- The function that a pass reads unless the settings name another. -/
def defaultFunction : Pass → String
  | cut => "_is_cut_sprite"
  | door => "_is_door_sprite"
  | mov => "_is_mov_sprite"
  | yadd => "_is_yadd_sprite"
  | layer => "_get_lay_sprite"
  | offset => "_get_offset_sprite"
  | noLighting => "_no_lighting_sprite"
  | character => "_trans_charno"
  | animated => "_trans_asprite"

end Pass

/-- A document of a run. -/
inductive DocumentKind where
  | metadata
  | character
  | animated
  deriving DecidableEq, Repr

namespace DocumentKind

/-- All documents, in the order in which they are produced. -/
def all : List DocumentKind := [metadata, character, animated]

def name : DocumentKind → String
  | metadata => "metadata"
  | character => "character"
  | animated => "animated"

def ofName? (name : String) : Option DocumentKind := all.find? fun k => k.name == name

def fileName : DocumentKind → String
  | metadata => "sprite_metadata.json"
  | character => "character_variants.json"
  | animated => "animated_variants.json"

def key : DocumentKind → String
  | metadata => "sprite_metadata"
  | character => "character_variants"
  | animated => "animated_variants"

/-- The passes that feed a document, in the order in which their records are merged. -/
def passes : DocumentKind → List Pass
  | metadata => [.cut, .door, .mov, .yadd, .layer, .offset, .noLighting]
  | character => [.character]
  | animated => [.animated]

end DocumentKind
end SpriteFacts
