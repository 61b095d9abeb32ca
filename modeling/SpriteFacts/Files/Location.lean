import SpriteFacts.Text.Bytes

/-! Where a path leads. A path is a row of steps from the working directory, or from the root if it starts
    with a slash: a name leads down, `..` leads up and `.` stays. Nothing leads above the root. Where a link
    stands, the path goes on along the target of the link. So links alone tell the route of a path; whether the
    way is there is another matter. -/

namespace SpriteFacts

/-- A place in the tree of files: the names on the way down to it. -/
abbrev Location := List String

/-- The way of a path: the locations that it comes through, each with the step from there, and where it leads. -/
structure Route where
  stops : List (Location × String)
  last : Location

namespace Path

/-- The path can be looked up: it has no zero character and at most 4095 bytes. -/
def isPath (p : String) : Bool := p ≠ "" && !p.toList.contains '\x00' && Text.byteLength p.toList ≤ 4095

/-- A file can have the name: it has at most 255 bytes. -/
def isName (step : String) : Bool := Text.byteLength step.toList ≤ 255

/-- The parts of a path between slashes that are not empty. -/
def parts (p : String) : List String := ((p.toList.splitOn '/').filter (· ≠ [])).map String.ofList

/-- The steps of a path. A slash at its end is a step without a name, which only a directory allows. -/
def steps (p : String) : List String := parts p ++ if p.toList.getLast? = some '/' then [""] else []

def isAbsolute (p : String) : Bool := p.toList.head? == some '/'

def origin (workingDir : Location) (p : String) : Location := if isAbsolute p then [] else workingDir

def follow (l : Location) (step : String) : Location :=
  if step = "" ∨ step = "." then l else if step = ".." then l.dropLast else l ++ [step]

/-- The route of steps from a location on, given the targets of links and how to go on behind a link. -/
def routeVia (link? : Location → Option String) (behind : Location → List String → Option Route) :
    Location → List String → Option Route
  | l, [] => some ⟨[], l⟩
  | l, step :: steps =>
    let next := follow l step
    let rest :=
      match link? next with
      | some target => if isPath target then behind (origin l target) (Path.steps target ++ steps) else none
      | none => routeVia link? behind next steps
    rest.map fun r => ⟨(l, step) :: r.stops, r.last⟩

/-- The route of steps from a location on, unless it comes through more links than that. -/
def route? (link? : Location → Option String) : Nat → Location → List String → Option Route
  | 0 => routeVia link? fun _ _ => none
  | links + 1 => routeVia link? (route? link? links)

/-- As many links as a path may come through. -/
def maxLinks : Nat := 40

end Path
end SpriteFacts
