import BoardPlotter.Decimal

/-!
# Shortest decimals

The shortest decimal of a double is the one of fewest digits among those that
round to it, and of these the nearest. A decimal grid has a point in an interval
only if one of the two grid points around the double lies in it.
-/

namespace BoardPlotter

/-- The decimals that round to a positive double, in quarters of its last
place: a quotient interval around `4 * significand`. -/
structure Reading where
  binary : Binary
  below : Nat
  above : Nat
  closed : Bool

namespace Reading

/-- The gap below a power of two is half as wide. -/
def ofFloat (x : Float) : Reading :=
  let b := Binary.ofFloat x
  let m := 4 * b.significand
  let narrow := b.significand == Binary.hidden && b.exponent != -1074
  ⟨b, if narrow then m - 1 else m - 2, m + 2, b.significand % 2 == 0⟩

/-- A number of quarters of the last place. -/
def quarters (r : Reading) (n : Nat) : Ratio := .ofBinary ⟨n, r.binary.exponent - 2⟩

/-- Does `n * 10 ^ e` round to the double? -/
def contains (r : Reading) (e : Int) (n : Nat) : Bool :=
  let lo := (r.quarters r.below).unscale e
  let hi := (r.quarters r.above).unscale e
  let a := compare lo.num (n * lo.den)
  let b := compare (n * hi.den) hi.num
  (a == .lt || (r.closed && a == .eq)) && (b == .lt || (r.closed && b == .eq))

/-- The nearest of the two points of the grid `10 ^ e` around the double that
rounds to it. -/
def onGrid? (r : Reading) (e : Int) : Option Nat :=
  let v := (r.quarters (4 * r.binary.significand)).unscale e
  let n := v.num / v.den
  let near := roundHalfEven v.num v.den
  let far := if near = n then n + 1 else n
  if r.contains e near then some near else if r.contains e far then some far else none

end Reading

/-- Drops trailing zeros, at most `fuel` of them. -/
def Decimal.trim (d : Decimal) : Nat → Decimal
  | 0 => d
  | fuel + 1 =>
    if d.digits ≠ 0 ∧ d.digits % 10 = 0 then trim ⟨d.digits / 10, d.scale + 1⟩ fuel else d

/-- The shortest decimal that reads back as the magnitude of a finite double.
Seventeen digits always do. -/
def Decimal.shortest (x : Float) : Decimal :=
  let r := Reading.ofFloat x
  if r.binary.significand = 0 then ⟨0, 0⟩
  else
    let top := (Ratio.ofFloat x).leading
    let hit := (List.range 17).findSome? fun (k : Nat) =>
      (r.onGrid? (top - k)).map fun n => Decimal.mk n (top - k)
    (hit.getD ((Ratio.ofFloat x).toSignificant 17)).trim 17

end BoardPlotter
