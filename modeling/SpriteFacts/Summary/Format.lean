import SpriteFacts.Json.Print
import SpriteFacts.Summary.Basic

/-! The three forms of a summary. The text form follows the run pass by pass and ends in the counts, the
    JSON form holds everything, and the quiet form is the counts alone, or nothing if there is nothing
    to report. -/

namespace SpriteFacts

/-- The form of a summary. -/
inductive SummaryFormat where
  | text
  | json
  | quiet
  deriving DecidableEq, Repr

namespace SummaryFormat

/-- All forms, in the order in which the command line names them. -/
def all : List SummaryFormat := [text, json, quiet]

def name : SummaryFormat → String
  | text => "text"
  | json => "json"
  | quiet => "quiet"

def ofName? (name : String) : Option SummaryFormat := all.find? fun f => f.name == name

end SummaryFormat

namespace RunSummary

/-! ### Text -/

def phaseLines (r : PhaseReport) : List String :=
  ["Extracting " ++ r.function ++ "...",
   if r.found then "  Found " ++ counted r.entries "entry" "entries" else "  Function not found"]

/-- The lines about the passes of a document and where it was written. -/
def progressLines (dryRun : Bool) (d : DocumentSummary) : List String :=
  d.phases.flatMap phaseLines ++
    match d.written with
    | some path => ["Wrote " ++ path]
    | none => if dryRun then ["Skipped " ++ d.file ++ " (dry run)"] else []

def tallyLines (d : DocumentSummary) : List String :=
  (d.file ++ ": " ++ counted d.size "sprite" "sprites")
    :: d.tallies.map fun (label, n) => "  " ++ label ++ ": " ++ toString n

def textLines (s : RunSummary) : List String :=
  ["Reading " ++ s.input ++ "..."] ++ s.documents.flatMap (progressLines s.dryRun)
    ++ ["", "=== Summary ==="] ++ s.documents.flatMap tallyLines ++ [s.countLine]

def unlines (lines : List String) : String := String.join (lines.map (· ++ "\n"))

/-! ### JSON -/

def phaseJson (r : PhaseReport) : Json :=
  .obj [("pass", .str r.pass.key), ("function", .str r.function), ("found", .bool r.found), ("entries", .nat r.entries)]

def diagnosticJson (d : Diagnostic) : Json :=
  .obj [("function", .str d.function), ("line", d.line.elim .null .nat), ("ids", .arr (d.ids.map .nat)),
    ("severity", .str d.severity.letter), ("message", .str d.message)]

def documentJson (d : DocumentSummary) : Json :=
  .obj <| [("file", .str d.file), ("records", .nat d.size)]
    ++ Json.member? "written" .str d.written
    ++ [("phases", .arr (d.phases.map phaseJson)),
        ("tallies", .arr (d.tallies.map fun (label, n) => .obj [("category", .str label), ("count", .nat n)])),
        ("diagnostics", .arr (d.diagnostics.map diagnosticJson))]

def toJson (s : RunSummary) : Json :=
  .obj [("input", .str s.input), ("dry_run", .bool s.dryRun), ("warning_count", .nat (s.count .warning)),
    ("review_count", .nat (s.count .review)), ("documents", .arr (s.documents.map documentJson))]

/-! ### All forms -/

def render (s : RunSummary) : SummaryFormat → String
  | .text => unlines s.textLines
  | .json => s.toJson.toText
  | .quiet => if s.count .warning = 0 ∧ s.count .review = 0 then "" else unlines [s.countLine]

end RunSummary
end SpriteFacts
