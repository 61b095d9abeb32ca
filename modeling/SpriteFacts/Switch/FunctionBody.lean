import SpriteFacts.Pattern.Build
import SpriteFacts.Pattern.Search

/-! The body of a function. A definition is recognised by its signature up to the opening brace, so a
    declaration and a variable of function type never count as one, and the body runs to the brace
    that closes it. A body that is never closed runs to the end of the source and says so. -/

namespace SpriteFacts.Switch

/-- The signature of a function that gives an `int`, up to and with its opening brace. Group 1 is its name. -/
def signature : Pattern :=
  .all [.optional (.seq (.wordStart "DLL_EXPORT") .blanks1), .optional (.seq (.wordStart "unsigned") .blanks1),
    .wordStart "int", .blanks1, .group 1 .name, .blanks, .char '(', .run (· != ')'), .char ')', .blanks, .char '{']

/-- The text between the braces of a definition. -/
structure FunctionBody where
  text : List Char
  /-- The byte offset of the text in the source. -/
  offset : Nat
  /-- The source holds the closing brace. -/
  complete : Bool
  deriving DecidableEq, Repr

/-- The text up to the brace that closes `depth` blocks and the one around them, and whether it is there. -/
def untilClosed : Nat → List Char → List Char × Bool
  | _, [] => ([], false)
  | depth, c :: cs =>
    if c = '{' then
      let (text, complete) := untilClosed (depth + 1) cs
      (c :: text, complete)
    else if c = '}' then
      match depth with
      | 0 => ([], true)
      | inner + 1 =>
        let (text, complete) := untilClosed inner cs
        (c :: text, complete)
    else
      let (text, complete) := untilClosed depth cs
      (c :: text, complete)

def FunctionBody.find? (source : List Char) (name : String) : Option FunctionBody :=
  ((signature.findAll source).find? fun m => String.ofList (m.group 1) == name).map fun m =>
    let (text, complete) := untilClosed 0 (Text.dropBytes m.stop source)
    ⟨text, m.stop, complete⟩

end SpriteFacts.Switch
