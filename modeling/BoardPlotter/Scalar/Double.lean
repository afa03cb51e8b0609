import BoardPlotter.Scalar

/-!
# Doubles as scalars

`Float` carries the scalar operations. The length of a vector is computed from
the squares of its scaled coordinates, each held as a sum of parts that are
exact, so the result is the nearest double in all but contrived cases and does
not overflow before it has to.
-/

namespace BoardPlotter.Double

/-- Decimal powers beyond these bounds read as infinity and as zero, whatever
the leading digits. -/
def decimalReach : Int := 400

/-- The double nearest to `m * 10 ^ e`. -/
def ofDecimal (m : Nat) (e : Int) : Float :=
  let digits : Int := (Nat.toDigits 10 m).length
  if m = 0 then 0.0
  else if digits + e > decimalReach then 1.0 / 0.0
  else if digits + e < -decimalReach then 0.0
  else if e < 0 then Float.ofScientific m true e.natAbs
  else Float.ofScientific m false e.natAbs

/-- A number as a sum of two whose products are exact: 26 leading bits and
the rest. -/
def halves (x : Float) : Float × Float :=
  let t := x * 134217729.0
  let hi := t - (t - x)
  (hi, x - hi)

/-- A running sum that starts at one, with the parts it lost. -/
structure Sum where
  total : Float
  lost₁ : Float
  lost₂ : Float
  lost₃ : Float

namespace Sum

def start : Sum := ⟨1.0, 0.0, 0.0, 0.0⟩

def value (s : Sum) : Float := s.total - 1.0 + (s.lost₁ + s.lost₂ + s.lost₃)

/-- The sum with the square of a number below one added. -/
def addSquare (s : Sum) (x : Float) : Sum :=
  let (hi, lo) := halves x
  let a := hi * hi
  let total₁ := s.total + a
  let b := 2.0 * hi * lo
  let total₂ := total₁ + b
  ⟨total₂, s.lost₁ + ((s.total - total₁) + a), s.lost₂ + ((total₁ - total₂) + b),
    s.lost₃ + lo * lo⟩

/-- The sum with the square of a number below one taken away. -/
def subSquare (s : Sum) (x : Float) : Sum :=
  let (hi, lo) := halves x
  let a := -hi * hi
  let total₁ := s.total + a
  let b := -2.0 * hi * lo
  let total₂ := total₁ + b
  let c := -lo * lo
  let total₃ := total₂ + c
  ⟨total₃, s.lost₁ + ((s.total - total₁) + a), s.lost₂ + ((total₁ - total₂) + b),
    s.lost₃ + ((total₂ - total₃) + c)⟩

end Sum

/-- The root of the sum of squares of two finite numbers, `m` the larger
magnitude: a first root corrected once by what its own square misses. -/
def hypotScaled (m x y : Float) : Float :=
  let e := m.frExp.2
  if e < -1023 then
    let r := (x / m) * (x / m)
    let s := (y / m) * (y / m)
    let a := 1.0 + r
    let b := a + s
    m * Float.sqrt (b - 1.0 + (((1.0 - a) + r) + ((a - b) + s)))
  else
    let scale := Float.scaleB 1.0 (-e)
    let sum := (Sum.start.addSquare (x * scale)).addSquare (y * scale)
    let h := Float.sqrt sum.value
    (h + (sum.subSquare h).value / (2.0 * h)) / scale

/-- The length of the vector `(x, y)`. -/
def hypot (x y : Float) : Float :=
  let a := x.abs
  let b := y.abs
  if a.isInf || b.isInf then 1.0 / 0.0
  else if a.isNaN || b.isNaN then 0.0 / 0.0
  else
    let m := if a < b then b else a
    if m == 0.0 then m else hypotScaled m a b

instance : Scalar Float where
  decLt := inferInstance
  decLe := inferInstance
  ofNat := Float.ofNat
  ofDecimal := ofDecimal
  abs := Float.abs
  sqrt := Float.sqrt
  hypot := hypot
  sin := Float.sin
  cos := Float.cos
  tan := Float.tan
  atan2 := Float.atan2
  pi := 3.141592653589793
  isFinite := Float.isFinite
  floor x := if x < 1.0 then 0 else x.toUInt64.toNat

end BoardPlotter.Double
