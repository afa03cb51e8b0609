import BoardPlotter.Scalar.Whole
import BoardPlotter.Value

/-!
# Message templates

A message may have arguments, which take the places of directives: a percent
sign, an optional key, flags, a width, a precision and a conversion. Directives
take the arguments in turn, or by key from a map.
-/

namespace BoardPlotter

/-- Why a message has no text. -/
inductive TemplateError where
  | unfit
  | missing (key : String)
  | overflow
  | malformed (reason : String)
  deriving DecidableEq, Repr

/-- Arguments that are left: in order, or by key beside one to be taken as it is. -/
inductive Supply where
  | inOrder (values : List Value)
  | byKey (fields : Fields) (whole : Option Value)

namespace Supply

/-- The arguments of a record: a single map that is not empty is taken by key. -/
def ofArguments : List Value → Supply
  | [.map (f :: fields)] => byKey (f :: fields) (some (.map (f :: fields)))
  | values => inOrder values

def next : Supply → Except TemplateError (Value × Supply)
  | inOrder (v :: vs) => .ok (v, inOrder vs)
  | byKey fields (some v) => .ok (v, byKey fields none)
  | _ => .error .unfit

/-- Puts the value of a key in turn. -/
def choose (key : String) : Supply → Except TemplateError Supply
  | byKey fields _ =>
    match fields.lookup key with
    | some v => .ok (byKey fields (some v))
    | none => .error (.missing key)
  | inOrder _ => .error .unfit

/-- Nothing may be left in order. -/
def isDone : Supply → Bool
  | inOrder vs => vs.isEmpty
  | byKey .. => true

end Supply

structure Flags where
  left : Bool := false
  plus : Bool := false
  blank : Bool := false
  marked : Bool := false
  zeros : Bool := false
  deriving DecidableEq, Repr

structure Directive where
  flags : Flags
  width : Nat
  precision : Option Nat
  deriving DecidableEq, Repr

namespace Directive

/-- Fills up a text to the width, at the left unless it goes there. -/
def lay (d : Directive) (s : String) : String :=
  let fill := String.ofList (List.replicate (d.width - s.length) ' ')
  if d.flags.left then s ++ fill else fill ++ s

/-- Fills up a number to the width. Zeros go behind its sign and its mark. -/
def layNumber (d : Directive) (minus : Bool) (mark digits : String) : String :=
  let sign := if minus then "-" else if d.flags.plus then "+" else if d.flags.blank then " " else ""
  let lead := sign ++ mark
  if d.flags.zeros && !d.flags.left then
    lead ++ Decimal.padLeft (d.width - lead.length) '0' digits
  else d.lay (lead ++ digits)

/-- A text, cut to the precision. -/
def layText (d : Directive) (s : String) : String :=
  d.lay (match d.precision with | some n => (s.take n).toString | none => s)

def layInt (d : Directive) (base : Nat) (mark : String) (upper : Bool) (n : Int) : String :=
  let digits := Decimal.padLeft (d.precision.getD 0) '0' (String.ofList (Nat.toDigits base n.natAbs))
  d.layNumber (n < 0) (if d.flags.marked then mark else "") (if upper then digits.toUpper else digits)

/-- A point at the end of a number that has none. -/
def pointed (s : String) : String := if s.contains '.' then s else s ++ "."

def pointedExponent (s : String) : String :=
  let head := s.takeWhile (· != 'e')
  pointed head.toString ++ (s.dropWhile (· != 'e')).toString

/-- The magnitude of a double in one of three layouts. -/
def floatText (d : Directive) (layout : Char) (x : Float) : String :=
  let places := d.precision.getD 6
  let marked := d.flags.marked && x.isFinite
  if layout == 'f' then
    let s := Double.fixedMagnitude places x
    if marked then pointed s else s
  else if layout == 'e' then
    let s := Double.magnitude (fun x => Decimal.exponential places (.ofFloat x)) x
    if marked then pointedExponent s else s
  else Double.generalMagnitude places marked x

def layFloat (d : Directive) (layout : Char) (upper : Bool) (x : Float) : String :=
  let s := d.floatText layout x
  d.layNumber (isNegative x && !x.isNaN) "" (if upper then s.toUpper else s)

end Directive

namespace Value

/-- The number of a value, cut to a whole one. -/
def cut : Value → Except TemplateError Int
  | bool b => .ok (if b then 1 else 0)
  | int n => .ok n
  | float x =>
    if x.isNaN then .error (.malformed "cannot convert float NaN to integer")
    else if x.isInf then .error .overflow
    else .ok (Double.truncate x)
  | _ => .error .unfit

def whole : Value → Except TemplateError Int
  | bool b => .ok (if b then 1 else 0)
  | int n => .ok n
  | _ => .error .unfit

def double : Value → Except TemplateError Float
  | bool b => .ok (if b then 1.0 else 0.0)
  | int n => (Double.ofInt? n).mapError fun _ => .overflow
  | float x => .ok x
  | _ => .error .unfit

/-- One character, or its number. -/
def letter : Value → Except TemplateError String
  | text s => if s.length = 1 then .ok s else .error .unfit
  | v => do
    let n ← v.whole
    if 0 ≤ n ∧ n < 0x110000 then return (Char.ofNat n.toNat).toString else throw .overflow

end Value

/-- The text of a value under a directive, its conversion at some index of the
template. -/
def Directive.convert (d : Directive) (conversion : Char) (index : Nat) (v : Value) :
    Except TemplateError String :=
  match conversion with
  | 's' => .ok (d.layText v.plain)
  | 'r' => .ok (d.layText v.shown)
  | 'a' => .ok (d.layText (v.write .messageAscii))
  | 'd' | 'i' | 'u' => (d.layInt 10 "" false) <$> v.cut
  | 'x' => (d.layInt 16 "0x" false) <$> v.whole
  | 'X' => (d.layInt 16 "0X" true) <$> v.whole
  | 'o' => (d.layInt 8 "0o" false) <$> v.whole
  | 'e' | 'f' | 'g' => (d.layFloat conversion false) <$> v.double
  | 'E' | 'F' | 'G' => (d.layFloat conversion.toLower true) <$> v.double
  | 'c' => d.lay <$> v.letter
  | c =>
    let n := c.toNat
    let shown := if 31 ≤ n ∧ n < 127 then c else '?'
    let code := String.ofList (Nat.toDigits 16 n)
    .error (.malformed s!"unsupported format character '{shown}' (0x{code}) at index {index}")

namespace Template

/-- A key up to its closing bracket, and the rest. -/
def key? (depth : Nat) : List Char → Option (List Char × List Char)
  | [] => none
  | c :: cs =>
    let put (depth : Nat) := (key? depth cs).map fun (own, rest) => (c :: own, rest)
    if c == '(' then put (depth + 1)
    else if c == ')' then (if depth = 0 then some ([], cs) else put (depth - 1))
    else put depth

def flags (f : Flags) : List Char → Flags × List Char
  | '-' :: cs => flags { f with left := true } cs
  | '+' :: cs => flags { f with plus := true } cs
  | ' ' :: cs => flags { f with blank := true } cs
  | '#' :: cs => flags { f with marked := true } cs
  | '0' :: cs => flags { f with zeros := true } cs
  | cs => (f, cs)

/-- A number of a directive, or the next argument where a star stands. -/
def amount (what : String) (limit : Nat) (s : Supply) (cs : List Char) :
    Except TemplateError (Option Int × Supply × List Char) :=
  match cs with
  | '*' :: rest => do
    let (v, s) ← s.next
    let n ← v.whole
    if limit < n.natAbs then throw .overflow
    return (some n, s, rest)
  | cs =>
    let digits := cs.takeWhile Char.isDigit
    let n := digits.foldl (fun n c => 10 * n + (c.toNat - 48)) 0
    if limit < n then .error (.malformed s!"{what} too big")
    else .ok (if digits.isEmpty then none else some (n : Int), s, cs.drop digits.length)

/-- The precision, where a point begins one. -/
def precision (s : Supply) (cs : List Char) :
    Except TemplateError (Option Nat × Supply × List Char) :=
  match cs with
  | '.' :: rest => do
    let (n, s, rest) ← amount "precision" 0x7fffffff s rest
    return (some (n.getD 0).toNat, s, rest)
  | cs => .ok (none, s, cs)

/-- Drops one letter that tells a size. -/
def dropSize : List Char → List Char
  | 'h' :: cs | 'l' :: cs | 'L' :: cs => cs
  | cs => cs

/-- One directive behind its percent sign: its text, what is left of the
arguments, and of the template of that length. -/
def directive (length : Nat) (s : Supply) (cs : List Char) :
    Except TemplateError (String × Supply × List Char) := do
  let (s, cs) ← match cs with
    | '(' :: rest =>
      match s, key? 0 rest with
      | .inOrder _, _ => throw .unfit
      | _, none => throw (.malformed "incomplete format key")
      | s, some (key, rest) => pure (← s.choose (String.ofList key), rest)
    | cs => pure (s, cs)
  let (f, cs) := flags {} cs
  let (width, s, cs) ← amount "width" 0x7fffffffffffffff s cs
  let f := if width.any (· < 0) then { f with left := true } else f
  let (places, s, cs) ← precision s cs
  match dropSize cs with
  | [] => throw (.malformed "incomplete format")
  | c :: rest =>
    let (v, s) ← s.next
    let d : Directive := ⟨f, (width.getD 0).natAbs, places⟩
    return (← d.convert c (length - rest.length - 1) v, s, rest)

/-- The text of a template of some length; there are no more steps than characters. -/
def fill (length : Nat) : Nat → Supply → List Char → Except TemplateError String
  | 0, _, _ => .ok ""
  | fuel + 1, s, cs =>
    match cs with
    | [] => if s.isDone then .ok "" else .error .unfit
    | '%' :: '%' :: rest => ("%" ++ ·) <$> fill length fuel s rest
    | '%' :: rest => do
      let (own, s, rest) ← directive length s rest
      return own ++ (← fill length fuel s rest)
    | c :: rest => (c.toString ++ ·) <$> fill length fuel s rest

end Template

/-- A message with its arguments. Without any it is no template. -/
def fillTemplate (template : String) (arguments : List Value) : Except TemplateError String :=
  if arguments.isEmpty then .ok template
  else
    let cs := template.toList
    Template.fill cs.length (cs.length + 1) (.ofArguments arguments) cs

end BoardPlotter
