import SpriteFacts.CommandLine.Reader
import SpriteFacts.Run.Basic

/-! The command line program: a run on the files of the system. The summary goes to standard output, the
    log and a fault to standard error. -/

namespace SpriteFacts

def attempt {α : Type} (act : IO α) : IO (Option α) := do
  try
    return some (← act)
  catch _ => return none

/-- The path leads to something, which perhaps cannot be opened. -/
def isThere (path : String) : IO Bool := do return (← attempt (IO.FS.realPath path)).isSome

def systemFiles : FileAccess IO where
  isThere := isThere
  read? path := attempt (IO.FS.readBinFile path)
  makeDirs path := do
    if path = "" then return true
    return (← attempt (IO.FS.createDirAll path)).isSome
  write path text := do return (← attempt (IO.FS.writeFile path text)).isSome

def OptionsFault.message : OptionsFault → String
  | unknownArgument => "unknown argument"
  | invalidValue => "invalid value"
  | repeatedArgument => "argument given more than once"
  | needlessValue => "value for an argument that takes none"
  | helpWanted => "usage: spritemeta [--output-dir DIR] [--config FILE] [--format text|json|quiet] [--only NAMES] "
      ++ "[--dry-run] [--list-idioms] [--debug] [INPUT]"
  | versionWanted => "spritemeta 0.1.0"

/-- Refuses a command line; a wish for help or the version is granted. -/
def refuse (fault : OptionsFault) : IO UInt32 := do
  if fault = .helpWanted ∨ fault = .versionWanted then
    IO.println fault.message
    return 0
  else
    IO.eprintln ("error: " ++ fault.message)
    return 2

def runWith (o : Options) : IO UInt32 := do
  let outcome ← run systemFiles o
  for line in outcome.log do
    IO.eprintln line.render
  IO.print outcome.printed
  match outcome.fault with
  | none => return 0
  | some fault =>
    IO.eprintln ("error: " ++ fault.message)
    return 1

end SpriteFacts

def main (args : List String) : IO UInt32 :=
  match SpriteFacts.Options.ofWords args with
  | .error fault => SpriteFacts.refuse fault
  | .ok o => SpriteFacts.runWith o
