import BoardPlotter.Decimal
import BoardPlotter.Scalar.Double

/-!
# Whole numbers and doubles
-/

namespace BoardPlotter.Double

/-- The whole part of a finite double. -/
def truncate (x : Float) : Int :=
  let n : Int := (Ratio.ofFloat x).floor
  if isNegative x then -n else n

/-- The double nearest to a whole number, if it is finite. -/
def ofInt? (n : Int) : Except Fault Float :=
  let x := ofDecimal n.natAbs 0
  if x.isInf then .error .overflow else .ok (if n < 0 then -x else x)

end BoardPlotter.Double
