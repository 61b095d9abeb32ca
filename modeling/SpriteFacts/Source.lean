import SpriteFacts.Text.Encoding
import SpriteFacts.Text.Line

/-! A source file: its text, how it was decoded, and the path it is known by. The path is only shown,
    never opened. -/

namespace SpriteFacts

/-- A decoded source file. -/
structure Source where
  path : String
  text : List Char
  encoding : Text.Encoding
  deriving Repr

namespace Source

def ofBytes (path : String) (bytes : ByteArray) : Source :=
  let (text, encoding) := Text.decode bytes
  ⟨path, text, encoding⟩

def ofString (path text : String) : Source := ⟨path, text.toList, .utf8⟩

def lineCount (s : Source) : Nat := Text.lineCount s.text

/-- The line, from 1, that holds a byte offset. -/
def lineAt (s : Source) (offset : Nat) : Nat := Text.lineAt (Text.lineStarts s.text) offset

end Source
end SpriteFacts
