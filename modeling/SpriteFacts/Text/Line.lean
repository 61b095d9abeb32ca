import SpriteFacts.Text.Bytes

/-! Lines of a text. A line starts at the start of the text and after every newline but a final one, so
    a text that ends in a newline has no empty line after it. The line of a byte offset is the number
    of lines that start at it or before it. -/

namespace SpriteFacts.Text

/-- The byte offsets just after the newlines of a text that stands at byte offset `n`, but for a
    newline that ends the text. -/
def lineStartsAfter : Nat → List Char → List Nat
  | _, [] => []
  | n, c :: cs =>
    if c = '\n' ∧ cs ≠ [] then (n + 1) :: lineStartsAfter (n + 1) cs
    else lineStartsAfter (n + c.utf8Size) cs

/-- The byte offsets at which the lines of a text start, in ascending order. -/
def lineStarts (cs : List Char) : List Nat := 0 :: lineStartsAfter 0 cs

def lineCount (cs : List Char) : Nat := (lineStarts cs).length

/-- The number, from 1, of the line that holds a byte offset, given the starts of the lines. -/
def lineAt (starts : List Nat) (offset : Nat) : Nat := (starts.takeWhile (· ≤ offset)).length

theorem lineAt_le_lineCount (cs : List Char) (offset : Nat) : lineAt (lineStarts cs) offset ≤ lineCount cs :=
  (List.takeWhile_sublist _).length_le

/-- The first line starts at offset 0, so every offset has a line. -/
theorem lineAt_pos (cs : List Char) (offset : Nat) : 0 < lineAt (lineStarts cs) offset := by
  simp [lineAt, lineStarts]

end SpriteFacts.Text
