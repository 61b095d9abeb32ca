/-! Diagnostics: what a pass could not recover, or recovered only in part. They are values, so that one
    unknown expression never stops anything else, and they have one printed form. -/

namespace SpriteFacts

/-- How serious a diagnostic is. -/
inductive Severity where
  /-- Some fields were recovered, but the code needs a human look. -/
  | review
  /-- A field could not be recovered. -/
  | warning
  deriving DecidableEq, Repr

namespace Severity

def letter : Severity → String
  | review => "R"
  | warning => "W"

def rank : Severity → Nat
  | review => 0
  | warning => 1

def max (a b : Severity) : Severity := if a.rank ≤ b.rank then b else a

end Severity

/-- A problem with the code of one function. -/
structure Diagnostic where
  function : String
  /-- The line of the first case label involved, if any. -/
  line : Option Nat
  /-- The numbers of the case group. -/
  ids : List Nat
  severity : Severity
  message : String
  deriving DecidableEq, Repr

namespace Diagnostic

def ofFunction (function message : String) : Diagnostic := ⟨function, none, [], .warning, message⟩

/-- The printed form: function, line, severity, numbers and message, on one line. -/
def render (d : Diagnostic) : String :=
  d.function ++ (match d.line with | some n => ":" ++ toString n | none => "") ++ ": " ++ d.severity.letter ++ ":"
    ++ (if d.ids.isEmpty then "" else " case " ++ ", ".intercalate (d.ids.map toString) ++ ":")
    ++ " " ++ d.message

/-- The order of a report: by line, those without one first, then by the bytes of the function's name. -/
def sortsBefore (a b : Diagnostic) : Bool :=
  let lineA := a.line.getD 0
  let lineB := b.line.getD 0
  lineA < lineB || (lineA == lineB && !(b.function < a.function))

/-- The diagnostics in the order of a report; those that sort equal stay in the order they arose. -/
def sort (ds : List Diagnostic) : List Diagnostic := ds.mergeSort sortsBefore

def maxSeverity? (ds : List Diagnostic) : Option Severity :=
  ds.foldl (fun s d => some (s.elim d.severity d.severity.max)) none

end Diagnostic
end SpriteFacts
