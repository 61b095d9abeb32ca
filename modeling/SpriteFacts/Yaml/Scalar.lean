import SpriteFacts.Text.Numeral
import SpriteFacts.Yaml.Basic

/-! The values of scalars. A plain scalar is null, a truth value, an integer, a float or else a string,
    tried in this order; a quoted or block scalar is a string. Leading zeros make a string of digits a
    string, and an integer that does not fit into 64 bits is refused unless not even 128 bits hold it. -/

namespace SpriteFacts.Yaml

def isNull (s : String) : Bool := ["", "~", "null", "Null", "NULL"].contains s

def truth? (s : String) : Option Bool :=
  if ["true", "True", "TRUE"].contains s then some true
  else if ["false", "False", "FALSE"].contains s then some false
  else none

def dropSign : List Char → List Char
  | '-' :: cs => cs
  | '+' :: cs => cs
  | cs => cs

/-- Digits after a leading zero, with or without a sign, which are no number. -/
def hasLeadingZero (cs : List Char) : Bool :=
  match dropSign cs with
  | '0' :: d :: ds => (d :: ds).all Char.isDigit
  | _ => false

/-- The digits of base two, eight or sixteen after their mark, read. -/
def marked? : List Char → Option Nat
  | '0' :: 'x' :: cs => Text.digits? Text.isHexDigit 16 cs
  | '0' :: 'o' :: cs => Text.digits? (fun c => '0' ≤ c && c ≤ '7') 8 cs
  | '0' :: 'b' :: cs => Text.digits? (fun c => c == '0' || c == '1') 2 cs
  | _ => none

def magnitude? (whole digits : List Char) : Option Nat :=
  match marked? digits with
  | some n => some n
  | none => if hasLeadingZero whole then none else Text.digits? Char.isDigit 10 digits

/-- An integer of any size. -/
def integral? : List Char → Option Int
  | '-' :: cs => (magnitude? ('-' :: cs) cs).map fun n => -(n : Int)
  | cs => (magnitude? cs (Text.dropPlus cs)).map fun n => (n : Int)

/-- The integers that a value can hold: 64 bits, with or without a sign. -/
def fitsWord (n : Int) : Bool := Text.minInteger ≤ n && n ≤ Text.maxLongWord

/-- The integers that are refused if no value can hold them: 128 bits, with or without a sign. -/
def fitsLongWord (n : Int) : Bool :=
  -170141183460469231731687303715884105728 ≤ n && n ≤ 340282366920938463463374607431768211455

/-- The parts of a decimal fraction: digits before and after the point, and the exponent. -/
def fraction? (cs : List Char) : Option (List Char × List Char × Int) :=
  let before := cs.takeWhile Char.isDigit
  let rest := cs.dropWhile Char.isDigit
  let (after, rest) :=
    match rest with
    | '.' :: r => (r.takeWhile Char.isDigit, r.dropWhile Char.isDigit)
    | r => ([], r)
  if before.isEmpty && after.isEmpty then none else
    match rest with
    | [] => some (before, after, 0)
    | e :: r =>
      if e = 'e' ∨ e = 'E' then
        match r with
        | '-' :: ds => (Text.digits? Char.isDigit 10 ds).map fun n => (before, after, -(n : Int))
        | ds => (Text.digits? Char.isDigit 10 (Text.dropPlus ds)).map fun n => (before, after, (n : Int))
      else none

/-- The float nearest to a decimal fraction, if it is finite. Exponents far out of range are decided by the
    number of digits alone. -/
def nearest? (before after : List Char) (exponent : Int) : Option Float :=
  let digits := (before ++ after).dropWhile (· == '0')
  let power := exponent - after.length
  if digits.isEmpty then some 0.0
  else if power + digits.length > 400 then none
  else if power + digits.length < -400 then some 0.0
  else
    let x := Float.ofScientific (Text.valueOf 10 digits) (power < 0) power.natAbs
    if x.isFinite then some x else none

/-- A float, among them the infinities and what is no number. -/
def float? (cs : List Char) : Option Float :=
  let s := String.ofList cs
  let infinity : Float := 1.0 / 0.0
  if [".inf", ".Inf", ".INF", "+.inf", "+.Inf", "+.INF"].contains s then some infinity
  else if ["-.inf", "-.Inf", "-.INF"].contains s then some (-infinity)
  else if [".nan", ".NaN", ".NAN"].contains s then some (0.0 / 0.0)
  else
    match fraction? (dropSign cs) with
    | none => none
    | some (before, after, exponent) =>
      (nearest? before after exponent).map fun x => if cs.head? = some '-' then -x else x

/-- The integer of a scalar; none if it is no integer, or one so large that it is read as a float. -/
def integer? (cs : List Char) : Except YamlFault (Option Yaml) :=
  match integral? cs with
  | none => .ok none
  | some n =>
    if fitsWord n then .ok (some (.int n))
    else if fitsLongWord n then .error .numberTooLarge
    else .ok none

def ofPlain (cs : List Char) : Except YamlFault Yaml :=
  let s := String.ofList cs
  if isNull s then .ok .null else
    match truth? s with
    | some b => .ok (.bool b)
    | none => do
      match ← integer? cs with
      | some v => pure v
      | none =>
        match if hasLeadingZero cs then none else float? cs with
        | some x => pure (.float x)
        | none => pure (.str s)

def coreTag : String := "tag:yaml.org,2002:"

/-- The value of a scalar with a tag that YAML defines, or that is some other address. -/
def ofTagged (tag : String) (cs : List Char) : Except YamlFault Yaml :=
  let s := String.ofList cs
  if tag = coreTag ++ "bool" then
    match truth? s with
    | some b => .ok (.bool b)
    | none => .error .wrongTag
  else if tag = coreTag ++ "int" then do
    match ← integer? cs with
    | some v => pure v
    | none => throw .wrongTag
  else if tag = coreTag ++ "float" then
    match float? cs with
    | some x => .ok (.float x)
    | none => .error .wrongTag
  else if tag = coreTag ++ "null" then
    if isNull s && s != "" then .ok .null else .error .wrongTag
  else .ok (.str s)

end SpriteFacts.Yaml
