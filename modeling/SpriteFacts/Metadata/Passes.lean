import SpriteFacts.Metadata.Hint
import SpriteFacts.Metadata.Layer
import SpriteFacts.Metadata.Record
import SpriteFacts.Report.Phase

/-! The passes of the metadata document. Three kinds of function are read: one whose case labels alone
    state the fact, one that returns a value for each case group, and one that assigns pixel offsets.
    A case group gives the same fact for all its numbers, or one warning, or nothing. -/

namespace SpriteFacts

open Switch

/-- A fact that a pass recovers for a sprite. -/
inductive Fact where
  | cut (value : CutValue)
  | door
  | mov (value : Int)
  | yadd (value : Nat)
  | layer (value : Int)
  | offset (value : PixelOffset)
  | noLighting
  deriving DecidableEq, Repr

/-- The record that states a fact about a sprite and nothing else. -/
def Fact.record (id : Nat) : Fact → Metadata
  | cut value => ({ id := id } : Metadata).setCut value
  | door => { id := id, door := some true }
  | mov value => { id := id, mov := some value }
  | yadd value => { id := id, yadd := some value }
  | layer value => { id := id, layer := some value }
  | offset value => { id := id, offsetX := some value.x, offsetY := some value.y }
  | noLighting => { id := id, noLighting := some true }

/-- Why a case group gives no fact. -/
inductive FactError where
  | noValue
  | unrecognized (expr : String)
  | layer (cause : LayerError) (expr : String)
  | noOffset (code : String)
  deriving DecidableEq, Repr

def FactError.message : FactError → String
  | noValue => "return without a value"
  | unrecognized expr => "unrecognized return expression `" ++ expr ++ "`"
  | layer cause expr => cause.message ++ " in `" ++ expr ++ "`"
  | noOffset code => "no pixel offset assignment in `" ++ code ++ "`"

/-- What a case group gives: a fact, or nothing at all, or an error. -/
abbrev GroupFact := Except FactError (Option Fact)

namespace Metadata

open Pattern in
def returnStatement : Pattern :=
  all [textStart, literal "return", blanks, group 1 (run (· != ';')), char ';']

/-- The expression of the `return` that ends a group, on one line; none if it is blank or not closed. -/
def returnExpression? (g : CaseGroup) : Option (List Char) :=
  (returnStatement.find? g.ending).bind fun m =>
    let expr := Text.oneLine (m.group 1)
    if expr.isEmpty then none else some expr

/-- The fact that a return expression states in a pass, if one of the pass's idioms reads it. -/
def readReturn (constants : LayerConstants) (pass : Pass) (s : Scope) : Except LayerError (Option Fact) :=
  match pass with
  | .cut => .ok ((Cut.chain.value? s).map .cut)
  | .mov => .ok ((Movement.chain.value? s).map .mov)
  | .yadd => .ok ((VerticalOffset.chain.value? s).map .yadd)
  | .layer =>
    match Layer.chain.value? s with
    | none => .ok none
    | some e => (e.resolve constants).map fun value => some (.layer value)
  | _ => .ok none

def returnFact (constants : LayerConstants) (pass : Pass) (g : CaseGroup) : GroupFact :=
  match returnExpression? g with
  | none => .error .noValue
  | some expr =>
    match readReturn constants pass ⟨g.ids.headD 0, expr⟩ with
    | .error cause => .error (.layer cause (String.ofList expr))
    | .ok none => .error (.unrecognized (String.ofList expr))
    | .ok (some fact) => .ok (some fact)

/-- What the assignments of a group give; a group without code gives nothing. -/
def offsetFact (g : CaseGroup) : GroupFact :=
  match PixelOffset.chain.value? ⟨g.ids.headD 0, g.code⟩ with
  | some value => .ok (some (.offset value))
  | none => if holdsNoCode g.code then .ok none else .error (.noOffset (String.ofList (Text.oneLine g.code)))

/-- The records of a group: its fact for each of its numbers. -/
def groupRecords (g : CaseGroup) : GroupFact → List Metadata
  | .ok (some fact) => g.ids.map fact.record
  | _ => []

/-- The diagnostics of a group: a warning if it is in error. -/
def groupDiagnostics (l : Located) (g : CaseGroup) : GroupFact → List Diagnostic
  | .error e => [l.diagnostic g .warning e.message]
  | .ok _ => []

/-- The records of a pass for which the case labels alone state the fact. -/
def presence (l : Located) (fact : Fact) : List Metadata := (caseLabels l.code).map fun label => fact.record label.id

/-- The records and the report of a pass that reads each case group. -/
def readGroups (l : Located) (pass : Pass) (terminator : Pattern) (read : CaseGroup → GroupFact) :
    List Metadata × PhaseReport :=
  let groups := caseGroups .ownSpan terminator l.code
  let records := groups.flatMap fun g => groupRecords g (read g)
  (records, l.report pass none records.length (groups.flatMap fun g => groupDiagnostics l g (read g)))

/-- The records and the report of a pass over a function that the source defines. -/
def readLocated (settings : Settings) (pass : Pass) (l : Located) : List Metadata × PhaseReport :=
  match pass with
  | .door =>
    let records := presence l .door
    (records, l.report pass none records.length [])
  | .noLighting =>
    let records := presence l .noLighting
    (records, l.report pass none records.length [])
  | .offset => readGroups l pass breakOrReturn offsetFact
  | _ => readGroups l pass returnWord (returnFact settings.constants pass)

def runPass (source : Source) (settings : Settings) (pass : Pass) : List Metadata × PhaseReport :=
  let function := settings.functionFor pass
  match Located.find? source function with
  | none => ([], .missing pass function)
  | some l => readLocated settings pass l

end Metadata
end SpriteFacts
