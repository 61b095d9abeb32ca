import SpriteFacts.Document.Basic

/-! The summary of a run: for each document its size, its passes, its tallies and its diagnostics in the
    order of a report. Counting diagnostics over the summary counts each of them once. -/

namespace SpriteFacts

/-- What a run did for one document. -/
structure DocumentSummary where
  file : String
  size : Nat
  phases : List PhaseReport
  tallies : List (String × Nat)
  diagnostics : List Diagnostic
  /-- Where the document was written, if it was. -/
  written : Option String
  deriving Repr

def DocumentSummary.ofDocument (d : Document) (written : Option String) : DocumentSummary :=
  ⟨d.kind.fileName, d.records.size, d.phases, d.tallies, Diagnostic.sort d.diagnostics, written⟩

/-- What a run did, in the order in which it did it. -/
structure RunSummary where
  input : String
  dryRun : Bool
  documents : List DocumentSummary
  deriving Repr

namespace RunSummary

def diagnostics (s : RunSummary) : List Diagnostic := s.documents.flatMap (·.diagnostics)

def count (s : RunSummary) (severity : Severity) : Nat := s.diagnostics.countP fun d => d.severity = severity

end RunSummary

def counted (n : Nat) (one many : String) : String := toString n ++ " " ++ if n = 1 then one else many

def RunSummary.countLine (s : RunSummary) : String :=
  counted (s.count .warning) "warning" "warnings" ++ ", " ++ toString (s.count .review) ++ " needing review"

end SpriteFacts
