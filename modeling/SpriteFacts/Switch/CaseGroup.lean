import SpriteFacts.Switch.CaseLabel
import SpriteFacts.Switch.Comment

/-! Case groups: labels that share one outcome, together with the code that decides it. A group always
    ends at a terminator, a `return` or a `break;`. Code that is decided label by label groups labels
    whose own span is blank with the label after them; code that falls through groups neighbouring
    labels that run the same code up to the same terminator. -/

namespace SpriteFacts.Switch

def breakStatement : Pattern := .all [.wordStart "break", .blanks, .char ';']

def returnWord : Pattern := .word "return"

/-- Either terminator, whichever comes first. -/
def breakOrReturn : Pattern := .alt breakStatement returnWord

/-- Labels that share one outcome. -/
structure CaseGroup where
  /-- The numbers of the labels, in source order. -/
  ids : List Nat
  /-- The shared code, without the labels inside it. -/
  text : List Char
  /-- The byte offset of the terminator in `text`. -/
  terminator : Nat
  /-- The byte offset of the first label in the body. -/
  offset : Nat
  /-- The part of the body that the group was cut from. -/
  spanStart : Nat
  spanStop : Nat
  deriving DecidableEq, Repr

namespace CaseGroup

/-- The statements before the terminator. -/
def code (g : CaseGroup) : List Char := Text.takeBytes g.terminator g.text

/-- The terminator and what follows it. -/
def ending (g : CaseGroup) : List Char := Text.dropBytes g.terminator g.text

/-- The part of a text that stands where the group was cut from. -/
def spanOf (g : CaseGroup) (text : List Char) : List Char := Text.slice g.spanStart g.spanStop text

end CaseGroup

/-- How a label without a terminator of its own is treated. -/
inductive Reach where
  /-- A blank label joins the next label; one with code and no terminator has no outcome. -/
  | ownSpan
  /-- A label takes all code up to the first terminator after it. -/
  | fallThrough
  deriving DecidableEq, Repr

/-! ### Labels with a terminator of their own -/

/-- The group of labels that wait for a terminator and the label that has it. -/
def groupOf (waiting : List CaseLabel) (l : CaseLabel) (text : List Char) (m : Match) : CaseGroup :=
  { ids := (waiting ++ [l]).map (·.id)
    text := text
    terminator := m.start
    offset := (waiting.head?.getD l).start
    spanStart := l.codeStart
    spanStop := l.stop }

/-- The groups of the labels, given the blank labels just before them that still wait for an outcome. -/
def ownSpanGroups (terminator : Pattern) (body : List Char) (waiting : List CaseLabel) :
    List CaseLabel → List CaseGroup
  | [] => []
  | l :: ls =>
    let text := l.code body
    match terminator.find? text with
    | some m => groupOf waiting l text m :: ownSpanGroups terminator body [] ls
    | none =>
      if holdsNoCode text then ownSpanGroups terminator body (waiting ++ [l]) ls
      else ownSpanGroups terminator body [] ls

/-! ### Labels that fall through -/

def withoutLabels (text : List Char) : List Char := casePattern.replaceAll (fun _ => []) text

/-- The group of one label, given the label whose span holds the first terminator after it. There is
    none if the code is blank up to the terminator. -/
def chainOf? (terminator : Pattern) (body : List Char) (l last : CaseLabel) : Option CaseGroup :=
  let text := withoutLabels (Text.slice l.codeStart last.stop body)
  match terminator.find? text with
  | some m =>
    if holdsNoCode (Text.takeBytes m.start text) then none
    else some ⟨[l.id], text, m.start, l.start, l.codeStart, last.stop⟩
  | none => none

/-- A group for each label whose chain is terminated. A label comes with the answer to the question
    whether its own span holds a terminator. -/
def chains (terminator : Pattern) (body : List Char) : List (CaseLabel × Bool) → List CaseGroup
  | [] => []
  | l :: ls =>
    let chain := ((l :: ls).find? (·.2)).bind fun last => chainOf? terminator body l.1 last.1
    chain.toList ++ chains terminator body ls

/-- The group with every group after it that ends at the same place and runs the same code. -/
def joinNext (current : CaseGroup) : List CaseGroup → List CaseGroup
  | [] => [current]
  | g :: gs =>
    if g.spanStop = current.spanStop ∧ sameCode current.text g.text then
      joinNext { current with ids := current.ids ++ g.ids } gs
    else current :: joinNext g gs

def joinChains : List CaseGroup → List CaseGroup
  | [] => []
  | g :: gs => joinNext g gs

def caseGroups (reach : Reach) (terminator : Pattern) (body : List Char) : List CaseGroup :=
  match reach with
  | .ownSpan => ownSpanGroups terminator body [] (caseLabels body)
  | .fallThrough =>
    joinChains (chains terminator body ((caseLabels body).map fun l => (l, terminator.occursIn (l.code body))))

end SpriteFacts.Switch
