import SpriteFacts.Document.Kind
import SpriteFacts.Metadata.Layer

/-! Settings of an extraction: the values of layer constants, the functions that the passes read, and
    where the documents go. Whatever is not set has its default. -/

namespace SpriteFacts

/-- What an extraction can be told. -/
structure Settings where
  outputDir : Option String := none
  constants : LayerConstants := .builtIn
  /-- Names of functions that replace the default ones. -/
  functions : List (Pass × String) := []
  deriving Repr

namespace Settings

def functionFor (s : Settings) (p : Pass) : String := (s.functions.lookup p).getD p.defaultFunction

def setFunction (s : Settings) (p : Pass) (name : String) : Settings := { s with functions := (p, name) :: s.functions }

def setConstant (s : Settings) (name : String) (value : Int) : Settings :=
  { s with constants := s.constants.insert name value }

end Settings
end SpriteFacts
