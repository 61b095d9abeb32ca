import SpriteFacts.Association
import SpriteFacts.Files.Access
import SpriteFacts.Files.Location

/-! A tree of files and directories as a value, with a working directory. A file may have several names, and a
    link stands for the path that is its target. Devices take what is written to them and keep nothing. A
    directory may be closed: nobody comes past it, and what lies behind it is as good as missing. -/

namespace SpriteFacts

/-- What stands at a location. -/
inductive FileEntry where
  | directory (isOpen : Bool)
  /-- The file of a number, which may stand at other locations too. -/
  | file (number : Nat)
  | device
  | link (target : String)
  deriving DecidableEq

namespace FileEntry

def isDirectory : FileEntry → Bool
  | directory _ => true
  | _ => false

def number? : FileEntry → Option Nat
  | file n => some n
  | _ => none

end FileEntry

/-- The entries below the root, the contents of files by their numbers, and the location that paths start from. A
    file without contents is empty. -/
structure FileTree where
  entries : List (Location × FileEntry)
  contents : List (Nat × ByteArray)
  workingDir : Location

namespace FileTree

def ofWorkingDir (dir : Location) : FileTree :=
  ⟨(List.range dir.length).map fun n => (dir.take (n + 1), .directory true), [], dir⟩

/-- The entry at a location; the root is a directory. -/
def at? (t : FileTree) (l : Location) : Option FileEntry :=
  if l = [] then some (.directory true) else t.entries.lookup l

def link? (t : FileTree) (l : Location) : Option String :=
  match t.at? l with
  | some (.link target) => some target
  | _ => none

def content (t : FileTree) (number : Nat) : ByteArray := (t.contents.lookup number).getD .empty

/-- The content of the file at a location. -/
def fileAt? (t : FileTree) (l : Location) : Option ByteArray :=
  match t.at? l with
  | some (.file n) => some (t.content n)
  | _ => none

/-! ### Finding -/

/-- The step is possible: it starts in a directory, and a name is only looked up in one that is open. -/
def allows (t : FileTree) (stop : Location × String) : Bool :=
  match t.at? stop.1 with
  | some (.directory isOpen) => stop.2 = "" || isOpen && Path.isName stop.2
  | _ => false

/-- Where steps lead, if each of them is possible. The last one may lead to where nothing is. -/
def walk? (t : FileTree) (start : Location) (steps : List String) : Option Location :=
  (Path.route? t.link? Path.maxLinks start steps).bind fun r => if r.stops.all t.allows then some r.last else none

/-- Where a path leads, if the way is there. -/
def reach? (t : FileTree) (p : String) : Option Location :=
  if Path.isPath p then t.walk? (Path.origin t.workingDir p) (Path.steps p) else none

def find? (t : FileTree) (p : String) : Option FileEntry := (t.reach? p).bind t.at?

/-- The content of the file that a path leads to. -/
def read? (t : FileTree) (p : String) : Option ByteArray :=
  match t.find? p with
  | some (.file n) => some (t.content n)
  | _ => none

/-! ### Making and writing -/

def put (t : FileTree) (l : Location) (e : FileEntry) : FileTree :=
  { t with entries := Association.put l e t.entries }

/-- The tree with a content for the file of a number, under all its names. -/
def fill (t : FileTree) (number : Nat) (bytes : ByteArray) : FileTree :=
  { t with contents := Association.put number bytes t.contents }

/-- A number above those of all files. -/
def newNumber (t : FileTree) : Nat := (t.entries.filterMap (·.2.number?)).foldr (fun n m => max (n + 1) m) 0

/-- The tree with directories at the end of every row of steps from `done` on, and whether all could be made. What
    was made before a failure stays. -/
def makeDirsOn (t : FileTree) (start : Location) (done : List String) : List String → Bool × FileTree
  | [] => (true, t)
  | step :: steps =>
    match t.walk? start done with
    | none => (false, t)
    | some l =>
      if !t.allows (l, step) then (false, t)
      else if (t.at? (Path.follow l step)).isNone then
        (t.put (Path.follow l step) (.directory true)).makeDirsOn start (done ++ [step]) steps
      else if ((t.walk? start (done ++ [step])).bind t.at?).any (·.isDirectory) then
        t.makeDirsOn start (done ++ [step]) steps
      else (false, t)

/-- The tree with a directory at a path, and whether it could be made. The empty path asks for nothing. A path that
    ends in `.` is not made itself: it has to be there once the way to it is made. -/
def makeDirs (t : FileTree) (p : String) : Bool × FileTree :=
  let parts := Path.parts p
  let start := Path.origin t.workingDir p
  if p = "" then (true, t)
  else if !Path.isPath p then (false, t)
  else if parts.getLast? = some "." then
    let way := t.makeDirsOn start [] (parts.reverse.dropWhile (· = ".")).tail.reverse
    (way.1 && (way.2.find? p).any (·.isDirectory), way.2)
  else t.makeDirsOn start [] parts

/-- The tree with a content for the file that a path leads to, and whether it could be written. Where nothing is, a
    file is made. -/
def write (t : FileTree) (p : String) (bytes : ByteArray) : Bool × FileTree :=
  match t.reach? p with
  | none => (false, t)
  | some l =>
    match t.at? l with
    | none => (true, (t.put l (.file t.newNumber)).fill t.newNumber bytes)
    | some (.file n) => (true, t.fill n bytes)
    | some .device => (true, t)
    | some (.directory _) | some (.link _) => (false, t)

def access : FileAccess (StateM FileTree) where
  isThere p := fun t => ((t.find? p).isSome, t)
  read? p := fun t => (t.read? p, t)
  makeDirs p := fun t => t.makeDirs p
  write p text := fun t => t.write p text.toUTF8

theorem at?_put (t : FileTree) {l : Location} (hl : l ≠ []) (e : FileEntry) (k : Location) :
    (t.put l e).at? k = if k = l then some e else t.at? k := by
  by_cases hk : k = []
  · subst hk
    simp [at?, Ne.symm hl]
  · simp [at?, put, hk, Association.lookup_put]

theorem content_fill (t : FileTree) (n : Nat) (bytes : ByteArray) (m : Nat) :
    (t.fill n bytes).content m = if m = n then bytes else t.content m := by
  rw [content, fill, Association.lookup_put]
  split <;> rfl

end FileTree
end SpriteFacts
