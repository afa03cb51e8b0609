import BoardPlotter.Scalar.Double
import BoardPlotter.Text.Numeral

/-!
# Numbers given as text

A whole text read as a number: blanks around it are dropped, other than the
information separators, digits may be grouped by single underscores, and
infinity and not-a-number have names.
-/

namespace BoardPlotter.Text

/-- Drops underscores that stand between digits; none if another one stands. -/
def ungroup (previous : Option Char) : List Char → Option (List Char)
  | [] => some []
  | ['_'] => none
  | '_' :: c :: cs =>
    if previous.any isDigit && isDigit c then ungroup (some '_') (c :: cs) else none
  | c :: cs => (ungroup (some c) cs).map (c :: ·)

def isMargin (c : Char) : Bool := isBlank c && !(28 ≤ c.toNat && c.toNat < 32)

def infinity : Float := 1.0 / 0.0

def notANumber : Float := 0.0 / 0.0

/-- The values that have names, in lower case. -/
def named? (word : String) : Option Float :=
  if word == "inf" || word == "infinity" then some infinity
  else if word == "nan" then some notANumber
  else none

def toFloat? (s : String) : Option Float :=
  match ungroup none (trimBy isMargin s.toList) with
  | none => none
  | some cs =>
    match Numeral.scan? cs with
    | some (n, []) => some n.value
    | some _ => none
    | none =>
      let (minus, r) := Numeral.sign cs
      (named? (String.ofList (r.map Char.toLower))).map fun x => if minus then -x else x

/-- A whole number of decimal digits with an optional sign. -/
def toInt? (s : String) : Option Int := do
  let cs ← ungroup none (trimBy isMargin s.toList)
  let (minus, r) := Numeral.sign cs
  match digitRun r with
  | ([], _) => none
  | (ds, []) => some (if minus then -(ofDigits ds : Int) else ofDigits ds)
  | _ => none

end BoardPlotter.Text
