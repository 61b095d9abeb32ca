import SpriteFacts.Json.Value

/-! The printed form of JSON: two spaces for each level, a member or an item on each line, and an empty
    list or object on one. In a string only the quote, the backslash and the characters below U+0020
    are escaped. -/

namespace SpriteFacts.Json

def hexDigit (n : Nat) : Char := Nat.digitChar (n % 16)

def escape (c : Char) : List Char :=
  if c = '"' then ['\\', '"']
  else if c = '\\' then ['\\', '\\']
  else if c = '\x08' then ['\\', 'b']
  else if c = '\x0c' then ['\\', 'f']
  else if c = '\n' then ['\\', 'n']
  else if c = '\r' then ['\\', 'r']
  else if c = '\t' then ['\\', 't']
  else if c.toNat < 0x20 then ['\\', 'u', '0', '0', hexDigit (c.toNat / 16), hexDigit c.toNat]
  else [c]

def quoted (cs : List Char) : List Char := '"' :: (cs.flatMap escape ++ ['"'])

def newline (level : Nat) : List Char := '\n' :: List.replicate (2 * level) ' '

mutual

def print (level : Nat) : Json → List Char
  | null => "null".toList
  | bool true => "true".toList
  | bool false => "false".toList
  | int n => (toString n).toList
  | str s => quoted s.toList
  | arr [] => ['[', ']']
  | arr (v :: vs) => '[' :: (newline (level + 1) ++ print (level + 1) v ++ printItems level vs)
  | obj [] => ['{', '}']
  | obj ((k, v) :: ms) =>
    '{' :: (newline (level + 1) ++ quoted k.toList ++ [':', ' '] ++ print (level + 1) v ++ printMembers level ms)

/-- The items after the first, and the end of the list. -/
def printItems (level : Nat) : List Json → List Char
  | [] => newline level ++ [']']
  | v :: vs => ',' :: (newline (level + 1) ++ print (level + 1) v ++ printItems level vs)

/-- The members after the first, and the end of the object. -/
def printMembers (level : Nat) : List (String × Json) → List Char
  | [] => newline level ++ ['}']
  | (k, v) :: ms =>
    ',' :: (newline (level + 1) ++ quoted k.toList ++ [':', ' '] ++ print (level + 1) v ++ printMembers level ms)

end

def toText (v : Json) : String := String.ofList (print 0 v ++ ['\n'])

end SpriteFacts.Json
