import SpriteFacts.Text.Bytes
import SpriteFacts.Text.Word

/-! Patterns over text. A pattern is tried at one place of a text and prefers its choices in order: the
    left of two alternatives, an optional part present, a greedy run as long as possible and a lazy run
    as short as possible. The first choice from which the rest of the pattern can be completed is the
    match. A run repeats one class of characters, so trying a pattern always ends with the text. -/

namespace SpriteFacts

/-- A shape of text. -/
inductive Pattern where
  /-- Nothing, which is always there. -/
  | empty
  /-- One character of a class. -/
  | one (ok : Char → Bool)
  /-- Characters of a class, as many as possible. -/
  | run (ok : Char → Bool)
  /-- Characters of a class, as few as possible. -/
  | lazyRun (ok : Char → Bool)
  /-- The edge of a word: a word character on exactly one side. -/
  | wordEdge
  /-- The start of the text. -/
  | textStart
  /-- The end of the text. -/
  | textEnd
  /-- One pattern and then another. -/
  | seq (first second : Pattern)
  /-- One pattern or else another. -/
  | alt (first second : Pattern)
  /-- A pattern whose text is kept under a number. -/
  | group (number : Nat) (inner : Pattern)

namespace Pattern

/-- What lies behind a place of a text: the character just before it, its byte offset, and the texts kept
    on the way to it, the latest first. -/
structure Trail where
  last : Option Char
  offset : Nat
  kept : List (Nat × List Char)

namespace Trail

def start : Trail := ⟨none, 0, []⟩

def push (b : Trail) (c : Char) : Trail := { b with last := some c, offset := b.offset + c.utf8Size }

def keep (b : Trail) (number : Nat) (text : List Char) : Trail := { b with kept := (number, text) :: b.kept }

end Trail

/-- What is tried after a pattern: it sees the place that the pattern ends at and the text ahead of it. -/
abbrev Rest (α : Type) := Trail → List Char → Option α

/-- There is a word character on exactly one side of the place. -/
def atWordEdge (b : Trail) (ahead : List Char) : Bool :=
  b.last.any Text.isWord != ahead.head?.any Text.isWord

/-- A greedy run: take one more character if the rest can then be completed, else stop here. -/
def tryRun {α : Type} (ok : Char → Bool) (k : Rest α) (b : Trail) : List Char → Option α
  | [] => k b []
  | c :: cs =>
    if ok c then
      match tryRun ok k (b.push c) cs with
      | some r => some r
      | none => k b (c :: cs)
    else k b (c :: cs)

/-- A lazy run: stop here if the rest can then be completed, else take one more character. -/
def tryLazyRun {α : Type} (ok : Char → Bool) (k : Rest α) (b : Trail) : List Char → Option α
  | [] => k b []
  | c :: cs =>
    match k b (c :: cs) with
    | some r => some r
    | none => if ok c then tryLazyRun ok k (b.push c) cs else none

/-- The answer of the first choice of the pattern, in order of preference, from which the rest gives one. -/
def tryAt {α : Type} : Pattern → Rest α → Trail → List Char → Option α
  | empty, k, b, ahead => k b ahead
  | one _, _, _, [] => none
  | one ok, k, b, c :: cs => if ok c then k (b.push c) cs else none
  | run ok, k, b, ahead => tryRun ok k b ahead
  | lazyRun ok, k, b, ahead => tryLazyRun ok k b ahead
  | wordEdge, k, b, ahead => if atWordEdge b ahead then k b ahead else none
  | textStart, k, b, ahead => if b.last.isNone then k b ahead else none
  | textEnd, k, b, ahead => if ahead.isEmpty then k b ahead else none
  | seq p q, k, b, ahead => p.tryAt (q.tryAt k) b ahead
  | alt p q, k, b, ahead =>
    match p.tryAt k b ahead with
    | some r => some r
    | none => q.tryAt k b ahead
  | group n p, k, b, ahead =>
    p.tryAt (fun b' ahead' => k (b'.keep n (Text.takeBytes (b'.offset - b.offset) ahead)) ahead') b ahead

end Pattern
end SpriteFacts
