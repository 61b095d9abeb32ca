import SpriteFacts.Pattern.Basic

/-! Searching a text for a pattern. The first match is the one that starts first; all matches are found
    from left to right, each search beginning where the match before it ended, so matches never
    overlap. Everything between two matches is passed over one character at a time, and `pieces` keeps
    both, so that nothing of the text is lost. -/

namespace SpriteFacts

/-- A match: the byte offsets where it starts and stops, its text, and the texts it kept. -/
structure Match where
  start : Nat
  stop : Nat
  text : List Char
  kept : List (Nat × List Char)
  deriving Repr

/-- The text kept under a number, if that part of the pattern took part in the match. -/
def Match.group? (m : Match) (number : Nat) : Option (List Char) :=
  (m.kept.find? fun k => k.1 == number).map (·.2)

/-- The text kept under a number, empty if there is none. -/
def Match.group (m : Match) (number : Nat) : List Char := (m.group? number).getD []

/-- A part of a searched text: a match, or one character that no match covers. -/
inductive Piece where
  | plain (c : Char)
  | found (m : Match)

namespace Piece

def match? : Piece → Option Match
  | plain _ => none
  | found m => some m

end Piece

namespace Pattern

def matchAt (p : Pattern) (b : Trail) (ahead : List Char) : Option Match :=
  p.tryAt (fun b' _ => some ⟨b.offset, b'.offset, Text.takeBytes (b'.offset - b.offset) ahead, b'.kept⟩) b ahead

def findFrom (p : Pattern) (b : Trail) : List Char → Option Match
  | [] => p.matchAt b []
  | c :: cs =>
    match p.matchAt b (c :: cs) with
    | some m => some m
    | none => p.findFrom (b.push c) cs

def find? (p : Pattern) (text : List Char) : Option Match := p.findFrom Trail.start text

def occursIn (p : Pattern) (text : List Char) : Bool := (p.find? text).isSome

/-- The pieces of a text from a place on; up to byte offset `resume` it belongs to a match already found. -/
def piecesFrom (p : Pattern) (resume : Nat) (b : Trail) : List Char → List Piece
  | [] =>
    if b.offset < resume then [] else
      match p.matchAt b [] with
      | some m => [.found m]
      | none => []
  | c :: cs =>
    if b.offset < resume then p.piecesFrom resume (b.push c) cs else
      match p.matchAt b (c :: cs) with
      | some m =>
        if m.stop = m.start then .found m :: .plain c :: p.piecesFrom resume (b.push c) cs
        else .found m :: p.piecesFrom m.stop (b.push c) cs
      | none => .plain c :: p.piecesFrom resume (b.push c) cs

/-- The matches in a text and the characters between them, in order. -/
def pieces (p : Pattern) (text : List Char) : List Piece := p.piecesFrom 0 Trail.start text

/-- All matches in a text, from left to right and without overlap. -/
def findAll (p : Pattern) (text : List Char) : List Match := (p.pieces text).filterMap Piece.match?

def replaceAll (p : Pattern) (replacement : Match → List Char) (text : List Char) : List Char :=
  (p.pieces text).flatMap fun
    | .plain c => [c]
    | .found m => replacement m

end Pattern
end SpriteFacts
