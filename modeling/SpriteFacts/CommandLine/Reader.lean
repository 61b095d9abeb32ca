import SpriteFacts.CommandLine.Options

/-! Reading options from the words of a command line. A word with two hyphens names an argument, one with a
    single hyphen names arguments by letters, and any other word is a value or the input. A value is
    examined when the next argument has been recognised, so a word that is no argument at all is
    refused before the value in front of it. -/

namespace SpriteFacts

/-- Why a command line gives no options to run with. -/
inductive OptionsFault where
  | unknownArgument
  /-- A value is missing, empty where a path is wanted, or not among those allowed. -/
  | invalidValue
  /-- An argument that can be given once is given again. -/
  | repeatedArgument
  /-- A value is attached to an argument that takes none. -/
  | needlessValue
  | helpWanted
  | versionWanted
  deriving DecidableEq, Repr

/-- An argument of the command line. -/
inductive Argument where
  | input
  | outputDir
  | config
  | format
  | only
  | dryRun
  | listIdioms
  | debug
  | help
  | version
  deriving DecidableEq, Repr

namespace Argument

def longNames : List (String × Argument) :=
  [("output-dir", outputDir), ("config", config), ("format", format), ("only", only), ("dry-run", dryRun),
   ("list-idioms", listIdioms), ("debug", debug), ("help", help), ("version", version)]

def letters : List (Char × Argument) :=
  [('o', outputDir), ('c', config), ('f', format), ('h', help), ('V', version)]

def takesValue : Argument → Bool
  | input | outputDir | config | format | only => true
  | dryRun | listIdioms | debug | help | version => false

end Argument

/-- The state of reading a command line. -/
structure OptionsReader where
  options : Options := {}
  /-- The arguments that have taken effect. -/
  given : List Argument := []
  /-- The last argument that takes a value, and the value once it is there; neither has been examined. -/
  pending : Option (Argument × Option String) := none
  /-- The input has been given. -/
  hasInput : Bool := false

namespace OptionsReader

def assign (o : Options) (value : String) : Argument → Except OptionsFault Options
  | .input => if value = "" then .error .invalidValue else .ok { o with input := value }
  | .outputDir => if value = "" then .error .invalidValue else .ok { o with outputDir := some value }
  | .config => if value = "" then .error .invalidValue else .ok { o with config := some value }
  | .format =>
    match SummaryFormat.ofName? value with
    | some format => .ok { o with format := format }
    | none => .error .invalidValue
  | .only => .ok { o with only := o.only ++ value.splitOn "," }
  | _ => .error .needlessValue

def raise (o : Options) : Argument → Except OptionsFault Options
  | .dryRun => .ok { o with dryRun := true }
  | .listIdioms => .ok { o with listIdioms := true }
  | .debug => .ok { o with debug := true }
  | .help => .error .helpWanted
  | .version => .error .versionWanted
  | _ => .error .invalidValue

/-- The reader with a change to its options by an argument, which may be repeated only if it is a list. -/
def effect (r : OptionsReader) (a : Argument) (change : Options → Except OptionsFault Options) :
    Except OptionsFault OptionsReader :=
  if a ≠ .only ∧ a ∈ r.given then .error .repeatedArgument
  else (change r.options).map fun o => { r with options := o, given := a :: r.given }

def settle (r : OptionsReader) : Except OptionsFault OptionsReader :=
  match r.pending with
  | none => .ok r
  | some (_, none) => .error .invalidValue
  | some (a, some value) => { r with pending := none }.effect a fun o => assign o value a

/-- The reader after an argument and the value attached to it, if any. -/
def named (r : OptionsReader) (a : Argument) (attached : Option String) : Except OptionsFault OptionsReader :=
  match a.takesValue, attached with
  | true, some value => do (← r.settle).effect a fun o => assign o value a
  | true, none => r.settle.map fun r => { r with pending := some (a, none) }
  | false, some _ => .error .needlessValue
  | false, none => do (← r.settle).effect a fun o => raise o a

def positional (r : OptionsReader) (word : String) : Except OptionsFault OptionsReader :=
  if r.hasInput then .error .unknownArgument
  else r.settle.map fun r => { r with pending := some (.input, some word), hasInput := true }

/-- The reader after a word of two hyphens and more; a value may follow an equals sign. -/
def long (r : OptionsReader) (cs : List Char) : Except OptionsFault OptionsReader :=
  match Argument.longNames.lookup (String.ofList (cs.takeWhile (· ≠ '='))) with
  | none => .error .unknownArgument
  | some a =>
    match cs.dropWhile (· ≠ '=') with
    | _ :: value => r.named a (some (String.ofList value))
    | [] => r.named a none

/-- The reader after letters behind a single hyphen. What follows the letter of an argument that takes a
    value is its value, with or without an equals sign between them. -/
def short (r : OptionsReader) : List Char → Except OptionsFault OptionsReader
  | [] => .ok r
  | c :: cs =>
    match Argument.letters.lookup c with
    | none => .error .unknownArgument
    | some a =>
      if a.takesValue then
        match cs with
        | [] => r.named a none
        | '=' :: value => r.named a (some (String.ofList value))
        | value => r.named a (some (String.ofList value))
      else do (← r.named a none).short cs

/-- The reader after a word that names no argument: a value that is waited for, or the input. -/
def plain (r : OptionsReader) (word : String) : Except OptionsFault OptionsReader :=
  match r.pending with
  | some (a, none) => .ok { r with pending := some (a, some word) }
  | _ => r.positional word

/-- The reader after all words; behind the word `--` no word names an argument. -/
def words (r : OptionsReader) : Bool → List String → Except OptionsFault OptionsReader
  | _, [] => r.settle
  | true, word :: rest => do (← r.positional word).words true rest
  | false, word :: rest =>
    match word.toList with
    | ['-', '-'] => r.words true rest
    | '-' :: '-' :: cs => do (← r.long cs).words false rest
    | '-' :: c :: cs => do (← r.short (c :: cs)).words false rest
    | _ => do (← r.plain word).words false rest

end OptionsReader

def Options.ofWords (words : List String) : Except OptionsFault Options :=
  (({} : OptionsReader).words false words).map (·.options)

end SpriteFacts
