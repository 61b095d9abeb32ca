import SpriteFacts.Pattern.Build
import SpriteFacts.Pattern.Search
import SpriteFacts.Text.Numeral

/-! Case labels of a switch. Every label owns the code from its colon up to the next label or the next
    default section, so the spans of the labels lie in order and never overlap. A label whose number
    is no sprite number is not listed; its text then belongs to the label before it. -/

namespace SpriteFacts.Switch

def casePattern : Pattern :=
  .all [.wordStart "case", .blanks1, .group 1 .digits, .blanks, .char ':']

def defaultPattern : Pattern := .all [.wordStart "default", .blanks, .char ':']

/-- A case label: its number, the byte offsets of its keyword and of its code, and the end of its code. -/
structure CaseLabel where
  id : Nat
  start : Nat
  codeStart : Nat
  stop : Nat
  deriving DecidableEq, Repr

/-- The text that a label owns. -/
def CaseLabel.code (l : CaseLabel) (body : List Char) : List Char := Text.slice l.codeStart l.stop body

/-- A label that owns nothing yet, from a match that has a sprite number. -/
def labelOf? (m : Match) : Option CaseLabel :=
  (Text.word? (m.group 1)).map fun id => ⟨id, m.start, m.stop, m.stop⟩

/-- Where the first default section at or after an offset starts, or the end of the body. -/
def nextDefault (defaults : List Nat) (total offset : Nat) : Nat :=
  (defaults.find? fun d => offset ≤ d).getD total

/-- The labels with their spans: up to the next label, the next default section or the end of the body. -/
def spanLabels (defaults : List Nat) (total : Nat) : List CaseLabel → List CaseLabel
  | [] => []
  | l :: ls =>
    let next := (ls.head?.map (·.start)).getD total
    { l with stop := min next (nextDefault defaults total l.codeStart) } :: spanLabels defaults total ls

/-- The case labels of a body, in source order. -/
def caseLabels (body : List Char) : List CaseLabel :=
  spanLabels ((defaultPattern.findAll body).map (·.start)) (Text.byteLength body)
    ((casePattern.findAll body).filterMap labelOf?)

end SpriteFacts.Switch
