import SpriteFacts.Document.Settings
import SpriteFacts.Report.Diagnostic
import SpriteFacts.Source
import SpriteFacts.Switch.CaseGroup
import SpriteFacts.Switch.FunctionBody

/-! What one pass reports: the function it read, how many records it gave, and its diagnostics in the
    order in which they arose. A function that is missing, and one whose body is not closed, are
    reported the same way by every pass. -/

namespace SpriteFacts

open Switch

/-- The outcome of one pass. -/
structure PhaseReport where
  pass : Pass
  function : String
  /-- The size of the function's body in bytes, if the source defines the function. -/
  bodyBytes : Option Nat
  /-- The number of case groups that the pass looked at, if it counts them. -/
  groups : Option Nat
  entries : Nat
  diagnostics : List Diagnostic
  deriving DecidableEq, Repr

namespace PhaseReport

def found (r : PhaseReport) : Bool := r.bodyBytes.isSome

def count (r : PhaseReport) (severity : Severity) : Nat := r.diagnostics.countP fun d => d.severity = severity

def missing (pass : Pass) (function : String) : PhaseReport :=
  ⟨pass, function, none, none, 0, [.ofFunction function "function not found"]⟩

end PhaseReport

/-- A function that a pass reads: its source, its name and its body. -/
structure Located where
  source : Source
  function : String
  body : FunctionBody

namespace Located

def find? (source : Source) (function : String) : Option Located :=
  (FunctionBody.find? source.text function).map fun body => ⟨source, function, body⟩

def code (l : Located) : List Char := withoutComments l.body.text

/-- A diagnostic about one case group, at the line of its first label. -/
def diagnostic (l : Located) (g : CaseGroup) (severity : Severity) (message : String) : Diagnostic :=
  ⟨l.function, some (l.source.lineAt (l.body.offset + g.offset)), g.ids, severity, message⟩

def unclosed (l : Located) : List Diagnostic :=
  if l.body.complete then [] else
    [{ Diagnostic.ofFunction l.function
        "no closing brace before end of file; using the rest of the file as the body" with
      line := some (l.source.lineAt l.body.offset) }]

def report (l : Located) (pass : Pass) (groups : Option Nat) (entries : Nat) (diagnostics : List Diagnostic) :
    PhaseReport :=
  ⟨pass, l.function, some (Text.byteLength l.body.text), groups, entries, l.unclosed ++ diagnostics⟩

end Located
end SpriteFacts
