import SpriteFacts.Document.Kind
import SpriteFacts.Summary.Format
import SpriteFacts.Text.Blank

/-! What a run is asked to do. -/

namespace SpriteFacts

/-- The options of a run. -/
structure Options where
  input : String := "src/game/sprite.c"
  outputDir : Option String := none
  config : Option String := none
  format : SummaryFormat := .text
  /-- The names of the documents to produce; all documents if there are none. -/
  only : List String := []
  dryRun : Bool := false
  listIdioms : Bool := false
  debug : Bool := false
  deriving DecidableEq, Repr

namespace Options

/-- The document with a name, blanks around it aside, or else the name itself. -/
def documentNamed (name : String) : Except String DocumentKind :=
  match DocumentKind.ofName? (String.ofList (Text.trim name.toList)) with
  | some kind => .ok kind
  | none => .error name

/-- The documents to produce, each once and in the order of all documents, or the first name that no document
    has. -/
def documents (o : Options) : Except String (List DocumentKind) :=
  if o.only.isEmpty then .ok DocumentKind.all
  else (o.only.mapM documentNamed).map fun named => DocumentKind.all.filter named.contains

end Options
end SpriteFacts
