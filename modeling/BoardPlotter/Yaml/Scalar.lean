import BoardPlotter.Text.Reading
import BoardPlotter.Value

/-!
# Plain scalars of YAML

A scalar without quotes is null, a truth value, a whole number, a double or a
text, by its spelling. A double needs its point, and its exponent a sign; both
kinds of numbers may be grouped by underscores or written to base sixty.
-/

namespace BoardPlotter.Yaml

def nulls : List String := ["", "~", "null", "Null", "NULL"]

def truths : List String := ["yes", "Yes", "YES", "true", "True", "TRUE", "on", "On", "ON"]

def falsehoods : List String := ["no", "No", "NO", "false", "False", "FALSE", "off", "Off", "OFF"]

/-- A digit in a base up to sixteen. -/
def digitIn? (base : Nat) (c : Char) : Option Nat :=
  let n := c.toNat
  let d := if c.isDigit then n - 48
    else if 'a' ≤ c && c ≤ 'f' then n - 87
    else if 'A' ≤ c && c ≤ 'F' then n - 55
    else 16
  if d < base then some d else none

/-- Digits in a base, grouped by underscores, at least one character. -/
def inBase? (base : Nat) (cs : List Char) : Option Nat :=
  if cs.isEmpty then none
  else ((cs.filter (· != '_')).mapM (digitIn? base)).map fun ds =>
    ds.foldl (fun n d => base * n + d) 0

/-- A part of a number to base sixty behind the first: one or two digits. -/
def sixtieth? (cs : List Char) : Option Nat :=
  match cs.mapM (digitIn? 10) with
  | some [d] => some d
  | some [t, d] => if t < 6 then some (10 * t + d) else none
  | _ => none

/-- Splits at a character. -/
def splitAt (mark : Char) : List Char → List (List Char)
  | [] => [[]]
  | c :: cs =>
    if c == mark then [] :: splitAt mark cs
    else
      match splitAt mark cs with
      | part :: parts => (c :: part) :: parts
      | [] => [[c]]

def whole? (cs : List Char) : Option Int :=
  let (minus, digits) := Numeral.sign cs
  let magnitude : Option Nat :=
    match digits with
    | '0' :: 'b' :: r => inBase? 2 r
    | '0' :: 'x' :: r => inBase? 16 r
    | ['0'] => some 0
    | '0' :: r => inBase? 8 r
    | '_' :: _ => none
    | digits =>
      match splitAt ':' digits with
      | [ds] => inBase? 10 ds
      | first :: rest => do
        let n ← inBase? 10 first
        return (← rest.mapM sixtieth?).foldl (fun n d => 60 * n + d) n
      | [] => none
  magnitude.map fun n => if minus then -(n : Int) else n

/-- Digits and underscores behind a point, and an exponent with its sign. -/
def isFraction (cs : List Char) : Bool :=
  let tail := cs.dropWhile fun c => c.isDigit || c == '_'
  match tail with
  | [] => true
  | e :: s :: ds =>
    (e == 'e' || e == 'E') && (s == '+' || s == '-') && !ds.isEmpty && ds.all Char.isDigit
  | _ => false

/-- Is this the spelling of a double in digits? -/
def isDouble (cs : List Char) : Bool :=
  match cs with
  | '.' :: c :: r => c.isDigit && isFraction r
  | cs =>
    match (Numeral.sign cs).2 with
    | c :: r =>
      c.isDigit &&
        match r.dropWhile fun c => c.isDigit || c == '_' with
        | '.' :: r => isFraction r
        | _ => false
    | [] => false

def ungrouped (cs : List Char) : String := String.ofList (cs.filter (· != '_'))

/-- A double to base sixty: the last part has a point. -/
def sexagesimal? (cs : List Char) : Option Float :=
  let (minus, digits) := Numeral.sign cs
  match (splitAt ':' digits).reverse with
  | last :: (part :: parts) => do
    let whole := last.takeWhile (· != '.')
    let fraction := last.drop whole.length
    let _ ← sixtieth? whole
    guard (fraction.head? == some '.' && (fraction.drop 1).all fun c => c.isDigit || c == '_')
    let first :: rest := (part :: parts).reverse | none
    let head ← if first.head? == some '_' then none else inBase? 10 first
    let n := (← rest.mapM sixtieth?).foldl (fun n d => 60 * n + d) head
    let x := (← Text.toFloat? (ungrouped last)) + 60.0 * Float.ofNat n
    return if minus then -x else x
  | _ => none

def double? (cs : List Char) : Option Float :=
  let s := String.ofList cs
  if isDouble cs then Text.toFloat? (ungrouped cs)
  else if [".nan", ".NaN", ".NAN"].contains s then some Text.notANumber
  else
    let (minus, r) := Numeral.sign cs
    if [".inf", ".Inf", ".INF"].contains (String.ofList r) then
      some (if minus then -Text.infinity else Text.infinity)
    else sexagesimal? cs

/-- The value of a plain scalar. -/
def ofPlain (s : String) : Value :=
  let cs := s.toList
  if nulls.contains s then .null
  else if truths.contains s then .bool true
  else if falsehoods.contains s then .bool false
  else
    match whole? cs, double? cs with
    | some n, _ => .int n
    | none, some x => .float x
    | none, none => .text s

end BoardPlotter.Yaml
