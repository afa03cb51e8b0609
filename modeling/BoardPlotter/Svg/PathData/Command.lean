/-!
# Path commands

The twenty command letters of path data: ten commands, each absolute in upper
case and relative to the current point in lower case.
-/

namespace BoardPlotter

inductive PathVerb where
  | moveTo
  | lineTo
  | horizontalTo
  | verticalTo
  | closePath
  | cubicTo
  | smoothCubicTo
  | quadraticTo
  | smoothQuadraticTo
  | arcTo
  deriving DecidableEq, Repr

namespace PathVerb

/-- The size of one argument set. -/
def arity : PathVerb → Nat
  | moveTo | lineTo | smoothQuadraticTo => 2
  | horizontalTo | verticalTo => 1
  | closePath => 0
  | cubicTo => 6
  | smoothCubicTo | quadraticTo => 4
  | arcTo => 7

def upper : PathVerb → Char
  | moveTo => 'M'
  | lineTo => 'L'
  | horizontalTo => 'H'
  | verticalTo => 'V'
  | closePath => 'Z'
  | cubicTo => 'C'
  | smoothCubicTo => 'S'
  | quadraticTo => 'Q'
  | smoothQuadraticTo => 'T'
  | arcTo => 'A'

def all : List PathVerb :=
  [moveTo, lineTo, horizontalTo, verticalTo, closePath, cubicTo, smoothCubicTo, quadraticTo,
    smoothQuadraticTo, arcTo]

/-- The verb of further argument sets: those after a moveto draw lines. -/
def repeated : PathVerb → PathVerb
  | moveTo => lineTo
  | verb => verb

end PathVerb

structure PathCommand where
  verb : PathVerb
  relative : Bool
  deriving DecidableEq, Repr

namespace PathCommand

def letter (c : PathCommand) : Char := if c.relative then c.verb.upper.toLower else c.verb.upper

def ofLetter? (c : Char) : Option PathCommand :=
  (PathVerb.all.find? fun v => v.upper == c || v.upper.toLower == c).map fun v =>
    ⟨v, v.upper != c⟩

theorem ofLetter?_letter (c : PathCommand) : ofLetter? c.letter = some c := by
  obtain ⟨verb, relative⟩ := c
  cases verb <;> cases relative <;> decide

end PathCommand

end BoardPlotter
