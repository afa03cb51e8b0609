import BoardPlotter.Text.Numeral
import BoardPlotter.Geometry.Point

/-!
# Lengths and coordinate lists

A length is a numeral with an absolute unit, in user units of 96 to the inch.
A coordinate list is whatever numerals a text holds.
-/

namespace BoardPlotter

open Text

inductive LengthUnit where
  | user
  | inch
  | centimetre
  | millimetre
  | typographicPoint
  | pica
  deriving DecidableEq, Repr

namespace LengthUnit

def ofName? : String → Option LengthUnit
  | "" | "px" => some user
  | "in" => some inch
  | "cm" => some centimetre
  | "mm" => some millimetre
  | "pt" => some typographicPoint
  | "pc" => some pica
  | _ => none

/-- User units per unit. -/
def scale {α : Type} [Scalar α] : LengthUnit → α
  | user => 1
  | inch => 96
  | centimetre => 96 / Scalar.ofDecimal 254 (-2)
  | millimetre => 96 / Scalar.ofDecimal 254 (-1)
  | typographicPoint => 96 / 72
  | pica => 16

end LengthUnit

variable {α : Type} [Scalar α]

/-- The length a text gives. Percentages and unknown units are none. -/
def length? (value : String) : Option α := do
  let (n, r) ← Numeral.scan? (trimLeft value.toList)
  let unit ← LengthUnit.ofName? (String.ofList (trim r))
  return n.value * unit.scale

/-- Coordinates in pairs, and whether one was left over. -/
def pairUp : List α → List (Point α) × Bool
  | x :: y :: rest => let (ps, odd) := pairUp rest; (⟨x, y⟩ :: ps, odd)
  | [_] => ([], true)
  | [] => ([], false)

/-- Drops points equal to the one before. -/
def dropRepeats : List (Point α) → List (Point α)
  | p :: q :: rest =>
    if p == q then dropRepeats (p :: rest) else p :: dropRepeats (q :: rest)
  | ps => ps
termination_by ps => ps.length

/-- The points of a coordinate list, and whether a coordinate was left over. -/
def pointList (value : String) : List (Point α) × Bool :=
  let (ps, odd) := pairUp ((Numeral.findAll value.toList).map Numeral.value)
  (dropRepeats ps, odd)

end BoardPlotter
