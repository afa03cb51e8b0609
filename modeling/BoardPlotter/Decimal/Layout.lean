import BoardPlotter.Decimal.Shortest

/-!
# Text of doubles

Three layouts of one number: plain (shortest digits), fixed places, and general
(significant digits, trailing zeros dropped). The first and the last go over to
an exponent outside a range of magnitudes.
-/

namespace BoardPlotter

namespace Decimal

def zeros (n : Nat) : String := String.ofList (List.replicate n '0')

def padLeft (width : Nat) (fill : Char) (s : String) : String :=
  String.ofList (List.replicate (width - s.length) fill) ++ s

/-- Digits with the decimal point after the first `point` of them. -/
def positional (digits : String) (point : Int) : String :=
  if point ≤ 0 then "0." ++ zeros point.natAbs ++ digits
  else if digits.length ≤ point.natAbs then digits ++ zeros (point.natAbs - digits.length)
  else (digits.take point.natAbs).toString ++ "." ++ (digits.drop point.natAbs).toString

/-- An exponent has its sign and two digits at least. -/
def exponentText (e : Int) : String :=
  (if e < 0 then "e-" else "e+") ++ padLeft 2 '0' (text e.natAbs)

/-- One digit, the point, the others, the exponent. -/
def scientific (digits : String) (e : Int) : String :=
  let rest := (digits.drop 1).toString
  (digits.take 1).toString ++ (if rest = "" then "" else "." ++ rest) ++ exponentText e

/-- Positional from `10 ^ -4` up to `10 ^ 16`, always with a point or an exponent. -/
def plain (d : Decimal) : String :=
  let digits := text d.digits
  let e := if d.digits = 0 then 0 else d.leading
  if e < -4 ∨ 16 ≤ e then scientific digits e
  else
    let s := positional digits (e + 1)
    if digits.length ≤ (e + 1) then s ++ ".0" else s

/-- A number on the grid `10 ^ -places`, every place written. -/
def fixed (places : Nat) (n : Nat) : String :=
  if places = 0 then text n
  else
    let unit := Nat.pow 10 places
    text (n / unit) ++ "." ++ padLeft places '0' (text (n % unit))

/-- Drops trailing zeros of a fraction, and a point that then ends the text. -/
def dropZeros (s : String) : String :=
  if s.contains '.' then ((s.dropEndWhile '0').toString.dropEndWhile '.').toString else s

/-- `count` digits: positional from `10 ^ -4` up to `10 ^ count`. Trailing zeros
are kept only on demand. -/
def general (count : Nat) (keepZeros : Bool) (r : Ratio) : String :=
  let count := max count 1
  let d := r.toSignificant count
  let e := if d.digits = 0 then 0 else d.leading
  let digits := padLeft count '0' (text d.digits)
  if e < -4 ∨ count ≤ e then
    let tail := (digits.drop 1).toString
    let head := (digits.take 1).toString
    (if keepZeros then head ++ "." ++ tail else dropZeros (head ++ "." ++ tail)) ++ exponentText e
  else
    let s := positional digits (e + 1)
    if keepZeros then (if s.contains '.' then s else s ++ ".") else dropZeros s

/-- `places` digits after the first, and an exponent. -/
def exponential (places : Nat) (r : Ratio) : String :=
  let d := r.toSignificant (places + 1)
  let e := if d.digits = 0 then 0 else d.leading
  scientific (padLeft (places + 1) '0' (text d.digits)) e

end Decimal

namespace Double

/-- The text of a magnitude in some layout of finite numbers. -/
def magnitude (layout : Float → String) (x : Float) : String :=
  if x.isNaN then "nan" else if x.isInf then "inf" else layout x

def signed (x : Float) (s : String) : String :=
  if isNegative x && !x.isNaN then "-" ++ s else s

/-- The shortest text that reads back as the same double. -/
def text (x : Float) : String :=
  signed x (magnitude (fun x => (Decimal.shortest x).plain) x)

def fixedMagnitude (places : Nat) : Float → String :=
  magnitude fun x => Decimal.fixed places ((Ratio.ofFloat x).round (-places))

/-- The text with that many decimal places. -/
def fixed (places : Nat) (x : Float) : String := signed x (fixedMagnitude places x)

def generalMagnitude (count : Nat) (keepZeros : Bool) : Float → String :=
  magnitude fun x => Decimal.general count keepZeros (.ofFloat x)

/-- The text with that many significant digits, trailing zeros dropped. -/
def general (count : Nat) (x : Float) : String := signed x (generalMagnitude count false x)

/-- The double nearest to `x` among those written with that many places. -/
def toPlaces (places : Nat) (x : Float) : Float :=
  let y := ((Ratio.ofFloat x).toPlaces places).toFloat
  if isNegative x then -y else y

/-- The double nearest to `x` among those written with that many digits. -/
def toSignificant (count : Nat) (x : Float) : Float :=
  let y := ((Ratio.ofFloat x).toSignificant count).toFloat
  if isNegative x then -y else y

end Double

end BoardPlotter
