import SpriteFacts.CommandLine.Options
import SpriteFacts.Config
import SpriteFacts.Files.Access
import SpriteFacts.Idiom.Catalog
import SpriteFacts.Run.Log
import SpriteFacts.Summary.Format
import SpriteFacts.Text.Path

/-! A run: it reads the configuration and the source, extracts the documents, writes them one after another
    and ends with a summary. It stops at the first thing that goes wrong; what it wrote before stays. -/

namespace SpriteFacts

/-- Why a run stops before its end. -/
inductive RunFault where
  | config (path : String) (fault : ConfigFault)
  | unknownDocument (name : String)
  | inputMissing (path : String)
  | inputUnreadable (path : String)
  | outputDir (path : String)
  | output (path : String)
  deriving DecidableEq, Repr

def RunFault.message : RunFault → String
  | config path fault => fault.message path
  | unknownDocument name => "unknown document `" ++ name ++ "` (expected metadata, character or animated)"
  | inputMissing path => path ++ " not found"
  | inputUnreadable path => "failed to read " ++ path
  | outputDir path => "failed to create output directory " ++ path
  | output path => "failed to write " ++ path

/-- What a run leaves besides files: the text it prints, its log, and the fault that stopped it. -/
structure Outcome where
  printed : String := ""
  log : List LogLine := []
  fault : Option RunFault := none
  deriving DecidableEq, Repr

namespace Run

def defaultOutputDir : String := "res/config"

/-- The directory of a run: the one on the command line, or else the one in the settings. -/
def outputDir (o : Options) (s : Settings) : String := (o.outputDir.or s.outputDir).getD defaultOutputDir

def outputPath (dir : String) (kind : DocumentKind) : String := Path.join dir kind.fileName

/-- The lines of the log up to the level that is wanted. -/
def visible (o : Options) (log : List LogLine) : List LogLine := log.filter fun l => o.debug || l.level ≠ .debug

/-- The log of an extraction: first all passes, then all diagnostics. -/
def extractionLog (source : Source) (settings : Settings) (documents : List Document) : List LogLine :=
  LogLine.ofSource source settings.constants.size
    ++ (documents.flatMap (·.phases)).flatMap LogLine.ofPhase
    ++ (documents.flatMap (·.diagnostics)).map LogLine.ofDiagnostic

def idiomList : String := String.join (catalog.map fun e => e.line ++ "\n")

variable {m : Type → Type} [Monad m]

/-- The settings of a run. A configuration file that is not there sets nothing. -/
def loadSettings (files : FileAccess m) (config : Option String) : m (Except RunFault Settings) := do
  let path := config.getD defaultConfigPath
  if ← files.isThere path then
    match ← files.read? path with
    | none => pure (.error (.config path .unreadable))
    | some bytes => pure ((Settings.ofBytes bytes).mapError (.config path))
  else pure (.ok {})

def loadSource (files : FileAccess m) (path : String) : m (Except RunFault Source) := do
  if ← files.isThere path then
    match ← files.read? path with
    | none => pure (.error (.inputUnreadable path))
    | some bytes => pure (.ok (Source.ofBytes path bytes))
  else pure (.error (.inputMissing path))

/-- Writes documents in order up to the first that cannot be written. -/
def writeAll (files : FileAccess m) (dir : String) : List Document → m (Option RunFault)
  | [] => pure none
  | d :: ds => do
    if ← files.makeDirs dir then
      if ← files.write (outputPath dir d.kind) d.render then writeAll files dir ds
      else pure (some (.output (outputPath dir d.kind)))
    else pure (some (.outputDir dir))

/-- The summary of a run whose documents went to a directory, or nowhere. -/
def summary (o : Options) (dir : Option String) (documents : List Document) : RunSummary :=
  ⟨o.input, o.dryRun, documents.map fun d => DocumentSummary.ofDocument d (dir.map fun dir => outputPath dir d.kind)⟩

def finish (files : FileAccess m) (o : Options) (settings : Settings) (source : Source)
    (documents : List Document) : m Outcome := do
  let log := visible o (extractionLog source settings documents)
  if o.dryRun then pure { printed := (summary o none documents).render o.format, log }
  else
    let dir := outputDir o settings
    match ← writeAll files dir documents with
    | some fault => pure { log, fault := some fault }
    | none => pure { printed := (summary o (some dir) documents).render o.format, log }

end Run

/-- Does what the options ask for. -/
def run {m : Type → Type} [Monad m] (files : FileAccess m) (o : Options) : m Outcome := do
  match ← Run.loadSettings files o.config with
  | .error fault => pure { fault := some fault }
  | .ok settings =>
    if o.listIdioms then pure { printed := Run.idiomList }
    else
      match o.documents with
      | .error name => pure { fault := some (.unknownDocument name) }
      | .ok kinds =>
        match ← Run.loadSource files o.input with
        | .error fault => pure { fault := some fault }
        | .ok source => Run.finish files o settings source (kinds.map (Document.extract source settings))

end SpriteFacts
