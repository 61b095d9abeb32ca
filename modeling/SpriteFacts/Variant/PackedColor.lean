import SpriteFacts.Idiom.Chain
import SpriteFacts.Variant.Animation

/-! Packed colors: fifteen bits, five for each of red, green and blue, red highest. A color is written as a
    triple of arguments, each cut to its low five bits, or as one number in base sixteen or ten. -/

namespace SpriteFacts

namespace PackedColor

open Pattern

/-- The color with the low five bits of red, green and blue. -/
def pack (r g b : Nat) : Nat := r % 32 * 1024 + g % 32 * 32 + b % 32

/-- Red, green and blue of a color. -/
def unpack (color : Nat) : Nat × Nat × Nat := (color / 1024 % 32, color / 32 % 32, color % 32)

theorem pack_lt (r g b : Nat) : pack r g b < 32768 := by unfold pack; omega

theorem unpack_pack (r g b : Nat) : unpack (pack r g b) = (r % 32, g % 32, b % 32) := by
  simp only [unpack, pack, Prod.mk.injEq]
  omega

def triple (argument : Nat → Pattern) : Pattern :=
  spaced [literal "IRGB", char '(', argument 1, char ',', argument 2, char ',', argument 3, char ')']

def argument? (m : Match) (number : Nat) : Option Nat := (m.group? number).bind Text.longWord?

/-- The number after `0x` or `0X`, if the text starts so. -/
def afterHexMark? : List Char → Option (List Char)
  | '0' :: 'x' :: cs => some cs
  | '0' :: 'X' :: cs => some cs
  | _ => none

def read? (text : List Char) : Option Nat :=
  let text := Text.trim text
  match (whole (triple fun n => group n digits)).find? text with
  | some m => do
    let r ← argument? m 1
    let g ← argument? m 2
    let b ← argument? m 3
    some (pack r g b)
  | none =>
    match afterHexMark? text with
    | some cs => Text.hexWord? cs
    | none => Text.word? text

/-- A color that ends its statement or argument. Group 1 is the color. -/
def written : Pattern :=
  all [group 1 (any (triple fun _ => digits)
      [all [char '0', one fun c => c == 'x' || c == 'X', run1 Text.isHexDigit], digits]), blanks, valueEnd]

end PackedColor

/-- The packed colors that code sets. -/
structure PackedColors where
  c1 : Option Nat := none
  c2 : Option Nat := none
  c3 : Option Nat := none
  deriving DecidableEq, Repr

namespace PackedColors

open Pattern

def get (colors : PackedColors) : ColorSlot → Option Nat
  | .c1 => colors.c1
  | .c2 => colors.c2
  | .c3 => colors.c3

/-- One color assigned to all three slots in a single statement. -/
def chained : Pattern := spaced [assignTo "c1", literal "c2", char '=', literal "c3", char '=', PackedColor.written]

/-- The color of the first assignment to a slot that ends after it. -/
def assigned? (slot : ColorSlot) (code : List Char) : Option Nat :=
  ((spaced [assignTo slot.name, PackedColor.written]).find? code).bind fun m => PackedColor.read? (m.group 1)

def readEach (s : Scope) : Option PackedColors :=
  let colors : PackedColors := ⟨assigned? .c1 s.code, assigned? .c2 s.code, assigned? .c3 s.code⟩
  if colors = {} then none else some colors

def chain : IdiomChain PackedColors where
  field := "c1/c2/c3"
  idioms :=
    [ .ofPattern "chained-assignment" chained fun m _ =>
        (PackedColor.read? (m.group 1)).map fun color => ⟨some color, some color, some color⟩,
      ⟨"per-channel", readEach⟩ ]

end PackedColors
end SpriteFacts
