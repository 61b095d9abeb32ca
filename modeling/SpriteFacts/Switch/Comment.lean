import SpriteFacts.Pattern.Build
import SpriteFacts.Pattern.Search

/-! Comments of the source code. A block comment runs to the first closing mark after it and a line
    comment to the end of its line; a block that is never closed is no comment. Comments are blanked
    out rather than removed, byte for byte and line for line, so a position in the code is the same
    position in the source. -/

namespace SpriteFacts.Switch

/-- A comment from `//` to the end of the line. -/
def lineComment : Pattern := .seq (.literal "//") (.run (· != '\n'))

/-- A comment between `/*` and the next `*/`. -/
def blockComment : Pattern := .all [.literal "/*", .lazyRun fun _ => true, .literal "*/"]

def comment : Pattern := .alt blockComment lineComment

/-- As many spaces as the character has bytes; a newline stays. -/
def blankOut (c : Char) : List Char := if c = '\n' then ['\n'] else List.replicate c.utf8Size ' '

def withoutComments (text : List Char) : List Char :=
  comment.replaceAll (fun m => m.text.flatMap blankOut) text

/-- The text holds nothing but blanks and comments. -/
def holdsNoCode (text : List Char) : Bool := (withoutComments text).all Text.isBlank

/-- Two texts are the same code: they differ in blanks and comments only. -/
def sameCode (a b : List Char) : Bool := Text.words (withoutComments a) == Text.words (withoutComments b)

end SpriteFacts.Switch
