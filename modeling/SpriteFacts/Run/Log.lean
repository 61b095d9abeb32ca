import SpriteFacts.Report.Phase

/-! The log of a run: what it loaded, what each pass found, and the diagnostics. A line has a level, a
    message and named values. -/

namespace SpriteFacts

/-- The level of a line in the log. -/
inductive LogLevel where
  | debug
  | info
  | warn
  deriving DecidableEq, Repr

/-- The name of a level, five characters wide. -/
def LogLevel.column : LogLevel → String
  | debug => "DEBUG"
  | info => " INFO"
  | warn => " WARN"

/-- A line of the log. -/
structure LogLine where
  level : LogLevel
  message : String
  values : List (String × String) := []
  deriving DecidableEq, Repr

namespace LogLine

def hex (n : Nat) : String := String.ofList (Nat.toDigits 16 n)

/-- A character of a message, where those that could steer a terminal are written out. -/
def shown (c : Char) : String :=
  if c = '\x07' then "\\x07"
  else if c = '\x08' then "\\x08"
  else if c = '\x0c' then "\\x0c"
  else if c = '\x1b' then "\\x1b"
  else if c = '\x7f' then "\\x7f"
  else if 0x80 ≤ c.toNat ∧ c.toNat ≤ 0x9F then "\\u\x7b" ++ hex c.toNat ++ "\x7d"
  else String.singleton c

def render (l : LogLine) : String :=
  l.level.column ++ " " ++ String.join (l.message.toList.map shown)
    ++ String.join (l.values.map fun (name, value) => " " ++ name ++ "=" ++ value)

def ofSource (s : Source) (constants : Nat) : List LogLine :=
  (match s.encoding with
    | .latin1 => [⟨.warn, "input is not valid UTF-8; decoded as Latin-1", [("path", s.path)]⟩]
    | .utf8 => [])
  ++ [⟨.debug, "loaded source",
        [("path", s.path), ("lines", toString s.lineCount), ("constants", toString constants)]⟩]

/-- The lines about one pass: the body it read, and then its case groups if it counts them and otherwise, for a
    pass that never does, its records. -/
def ofPhase (r : PhaseReport) : List LogLine :=
  (match r.bodyBytes with
    | some n => [⟨.debug, "located function body", [("function", r.function), ("bytes", toString n)]⟩]
    | none => [])
  ++ match r.pass, r.groups with
    | _, some n => [⟨.debug, "segmented variant cases", [("function", r.function), ("groups", toString n)]⟩]
    | .character, none | .animated, none => []
    | _, none => [⟨.debug, "metadata pass done", [("function", r.function), ("entries", toString r.entries)]⟩]

def ofDiagnostic (d : Diagnostic) : LogLine :=
  ⟨match d.severity with
    | .warning => .warn
    | .review => .info, d.render, []⟩

end LogLine
end SpriteFacts
