import SpriteFacts.Json.Value
import SpriteFacts.Text.Numeral

/-! A reader of JSON whose numbers are integers. It takes one character after another and keeps the lists and objects
    around the value at hand as frames. It reads every escape of a string, pairs of code units among them, and it
    stops at a control character in a string, at a leading zero and at a comma with nothing behind it. -/

namespace SpriteFacts.Json

open Text

/-- A list or an object around the value at hand, with what has been read of it, the latest first. -/
inductive Frame where
  | items (read : List Json)
  | members (read : List (String × Json)) (key : String)

/-- Where a string stands with its escapes. -/
inductive Escape where
  | plain
  /-- Behind a backslash. -/
  | backslash
  /-- Within the four digits of a code unit, perhaps with the first unit of a pair in front of them. -/
  | unit (first : Option Nat) (count value : Nat)
  /-- Behind the first unit of a pair. -/
  | first (value : Nat)
  /-- Behind the first unit of a pair and a backslash. -/
  | second (value : Nat)
  deriving DecidableEq

/-- What the reader expects or is in the middle of. -/
inductive Mode where
  | value
  | firstItem
  | firstKey
  /-- A key behind other members. -/
  | key (read : List (String × Json))
  | colon (read : List (String × Json)) (key : String)
  /-- A string with its characters so far, the latest first. It is a key if it belongs to members. -/
  | text (members : Option (List (String × Json))) (chars : List Char) (escape : Escape)
  | number (negative : Bool) (value : Option Nat)
  /-- The rest of a word and the value it stands for. -/
  | word (rest : List Char) (value : Json)
  | done (value : Json)

structure Reader where
  mode : Mode
  frames : List Frame

namespace Reader

def isSpace (c : Char) : Bool := c == ' ' || c == '\t' || c == '\n' || c == '\r'

/-- The first character of a value. -/
def begin (frames : List Frame) (c : Char) : Option Reader :=
  if c = '"' then some ⟨.text none [] .plain, frames⟩
  else if c = '[' then some ⟨.firstItem, frames⟩
  else if c = '\x7b' then some ⟨.firstKey, frames⟩
  else if c = '-' then some ⟨.number true none, frames⟩
  else if c.isDigit then some ⟨.number false (some (digitValue c)), frames⟩
  else if c = 'n' then some ⟨.word "ull".toList .null, frames⟩
  else if c = 't' then some ⟨.word "rue".toList (.bool true), frames⟩
  else if c = 'f' then some ⟨.word "alse".toList (.bool false), frames⟩
  else none

/-- A character behind a value. -/
def after (v : Json) (frames : List Frame) (c : Char) : Option Reader :=
  if isSpace c then some ⟨.done v, frames⟩ else
    match frames, c with
    | .items read :: frames, ',' => some ⟨.value, .items (v :: read) :: frames⟩
    | .items read :: frames, ']' => some ⟨.done (.arr (v :: read).reverse), frames⟩
    | .members read key :: frames, ',' => some ⟨.key ((key, v) :: read), frames⟩
    | .members read key :: frames, '\x7d' => some ⟨.done (.obj ((key, v) :: read).reverse), frames⟩
    | _, _ => none

def escaped? (c : Char) : Option Char :=
  [('"', '"'), ('\\', '\\'), ('/', '/'), ('b', '\x08'), ('f', '\x0c'), ('n', '\n'), ('r', '\r'), ('t', '\t')].lookup c

/-- The end of a string. -/
def closeText (members : Option (List (String × Json))) (chars : List Char) (frames : List Frame) : Reader :=
  match members with
  | none => ⟨.done (.str (String.ofList chars.reverse)), frames⟩
  | some read => ⟨.colon read (String.ofList chars.reverse), frames⟩

/-- What a code unit adds to a string: a character, or half of one. -/
def closeUnit (first : Option Nat) (value : Nat) (chars : List Char) : Option (List Char × Escape) :=
  let isFirst := 0xd800 ≤ value ∧ value < 0xdc00
  let isSecond := 0xdc00 ≤ value ∧ value < 0xe000
  match first with
  | none =>
    if isFirst then some (chars, .first value)
    else if isSecond then none
    else some (Char.ofNat value :: chars, .plain)
  | some high =>
    if isSecond then some (Char.ofNat (0x10000 + (high - 0xd800) * 0x400 + (value - 0xdc00)) :: chars, .plain) else none

/-- A character within a string, but for the quote at its end. -/
def inText (chars : List Char) (c : Char) : Escape → Option (List Char × Escape)
  | .plain =>
    if c = '\\' then some (chars, .backslash) else if c.toNat < 0x20 then none else some (c :: chars, .plain)
  | .backslash =>
    if c = 'u' then some (chars, .unit none 0 0) else (escaped? c).map fun d => (d :: chars, .plain)
  | .unit first count value =>
    if !isHexDigit c then none
    else if count = 3 then closeUnit first (value * 16 + digitValue c) chars
    else some (chars, .unit first (count + 1) (value * 16 + digitValue c))
  | .first value => if c = '\\' then some (chars, .second value) else none
  | .second value => if c = 'u' then some (chars, .unit (some value) 0 0) else none

def signed (negative : Bool) (n : Nat) : Json := if negative then .int (-n) else .nat n

/-- The reader after one more character. -/
def step (r : Reader) (c : Char) : Option Reader :=
  match r.mode with
  | .value => if isSpace c then some r else begin r.frames c
  | .firstItem =>
    if isSpace c then some r else if c = ']' then some ⟨.done (.arr []), r.frames⟩ else begin (.items [] :: r.frames) c
  | .firstKey =>
    if isSpace c then some r
    else if c = '"' then some ⟨.text (some []) [] .plain, r.frames⟩
    else if c = '\x7d' then some ⟨.done (.obj []), r.frames⟩
    else none
  | .key read =>
    if isSpace c then some r else if c = '"' then some ⟨.text (some read) [] .plain, r.frames⟩ else none
  | .colon read key =>
    if isSpace c then some r else if c = ':' then some ⟨.value, .members read key :: r.frames⟩ else none
  | .text members chars escape =>
    if c = '"' ∧ escape = .plain then some (closeText members chars r.frames)
    else (inText chars c escape).map fun (chars, escape) => ⟨.text members chars escape, r.frames⟩
  | .number negative value =>
    if c.isDigit then
      if value = some 0 then none else some ⟨.number negative (some (value.getD 0 * 10 + digitValue c)), r.frames⟩
    else value.bind fun n => after (signed negative n) r.frames c
  | .word rest value =>
    match rest with
    | [] => none
    | [d] => if c = d then some ⟨.done value, r.frames⟩ else none
    | d :: rest => if c = d then some ⟨.word rest value, r.frames⟩ else none
  | .done value => after value r.frames c

def run (r : Reader) (cs : List Char) : Option Reader := cs.foldlM step r

/-- The value that has been read, if it is complete and nothing is around it. -/
def result? (r : Reader) : Option Json :=
  match r.mode, r.frames with
  | .done v, [] => some v
  | .number negative (some n), [] => some (signed negative n)
  | _, _ => none

end Reader

/-- The value that a text writes. -/
def parse? (cs : List Char) : Option Json := (Reader.run ⟨.value, []⟩ cs).bind Reader.result?

end SpriteFacts.Json
