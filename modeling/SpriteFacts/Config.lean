import SpriteFacts.Document.Settings
import SpriteFacts.Yaml.Parse

/-! Settings from a configuration file, which is a YAML document. Every entry is optional and an entry of
    another kind than expected says nothing, but a layer constant has to be an integer. -/

namespace SpriteFacts

def defaultConfigPath : String := "spritemeta.yml"

/-- What is wrong with a configuration file. -/
inductive ConfigFault where
  | unreadable
  | unparsable
  | notInteger (constant : String)
  deriving DecidableEq, Repr

def ConfigFault.message (path : String) : ConfigFault → String
  | unreadable => "failed to read config " ++ path
  | unparsable => "failed to parse " ++ path
  | notInteger constant => path ++ ": layer constant " ++ constant ++ " is not an integer"

namespace Settings

def constantValue? (v : Yaml) : Option Int := v.int?.bind Text.fitInteger?

def withConstant (s : Settings) (e : String × Yaml) : Except ConfigFault Settings :=
  match constantValue? e.2 with
  | some n => .ok (s.setConstant e.1 n)
  | none => .error (.notInteger e.1)

/-- The settings with one function of the file; passes that do not exist and names that are no strings are
    passed over. -/
def withFunction (s : Settings) (e : String × Yaml) : Settings :=
  match Pass.ofKey? e.1, e.2.str? with
  | some pass, some name => s.setFunction pass name
  | _, _ => s

def withEntry (s : Settings) (e : String × Yaml) : Except ConfigFault Settings :=
  match e.1 with
  | "output_dir" => .ok { s with outputDir := e.2.str?.or s.outputDir }
  | "layer_constants" => e.2.stringEntries.foldlM withConstant s
  | "functions" => .ok (e.2.stringEntries.foldl withFunction s)
  | _ => .ok s

def ofYaml (v : Yaml) : Except ConfigFault Settings := v.stringEntries.foldlM withEntry {}

def ofBytes (bytes : ByteArray) : Except ConfigFault Settings :=
  match String.fromUTF8? bytes with
  | none => .error .unreadable
  | some s =>
    match Yaml.parse s.toList with
    | .error _ => .error .unparsable
    | .ok v => ofYaml v

end Settings
end SpriteFacts
