/-!
# Doubles in decimal

A finite double is an exact quotient of naturals; rounding it to places or to
significant digits is exact arithmetic, a half going to the even neighbour.
-/

namespace BoardPlotter

/-- The number `digits * 10 ^ scale`. -/
structure Decimal where
  digits : Nat
  scale : Int
  deriving DecidableEq, Repr

/-- A nonnegative quotient. -/
structure Ratio where
  num : Nat
  den : Nat
  deriving DecidableEq, Repr

/-- The quotient rounded to a whole number, a half to the even one. -/
def roundHalfEven (num den : Nat) : Nat :=
  let whole := num / den
  let twice := 2 * (num % den)
  if den < twice ∨ (twice = den ∧ whole % 2 = 1) then whole + 1 else whole

theorem roundHalfEven_one (n : Nat) : roundHalfEven n 1 = n := by
  simp [roundHalfEven, Nat.mod_one]

/-- The parts of a finite double: `significand * 2 ^ exponent`. -/
structure Binary where
  significand : Nat
  exponent : Int

/-- The leading bit of a normal double, which is not stored. -/
def Binary.hidden : Nat := 0x10000000000000

/-- The magnitude of a finite double. -/
def Binary.ofFloat (x : Float) : Binary :=
  let bits := x.toBits.toNat
  let field : Nat := bits / Binary.hidden % 2048
  let fraction : Nat := bits % Binary.hidden
  if field = 0 then ⟨fraction, -1074⟩ else ⟨Binary.hidden + fraction, (field : Int) - 1075⟩

/-- The sign bit, which zeros and values that are no number have too. -/
def isNegative (x : Float) : Bool := x.toBits.toNat / 0x8000000000000000 == 1

namespace Ratio

def ofBinary (b : Binary) : Ratio :=
  if b.exponent < 0 then ⟨b.significand, Nat.pow 2 b.exponent.natAbs⟩
  else ⟨b.significand * Nat.pow 2 b.exponent.natAbs, 1⟩

/-- The magnitude of a finite double. -/
def ofFloat (x : Float) : Ratio := ofBinary (.ofFloat x)

/-- The quotient divided by `10 ^ e`. -/
def unscale (r : Ratio) (e : Int) : Ratio :=
  if e < 0 then ⟨r.num * Nat.pow 10 e.natAbs, r.den⟩
  else ⟨r.num, r.den * Nat.pow 10 e.natAbs⟩

/-- Is the quotient at least `10 ^ e`? -/
def reaches (r : Ratio) (e : Int) : Bool :=
  let s := r.unscale e
  s.den ≤ s.num

/-- The power of ten of the leading digit: the estimate from the binary lengths
is off by one at most. -/
def leading (r : Ratio) : Int :=
  let e := ((Nat.log2 r.num : Int) - Nat.log2 r.den) * 30103 / 100000
  if r.reaches (e + 1) then e + 1 else if r.reaches e then e else e - 1

/-- The nearest multiple of `10 ^ e`, as that multiple. -/
def round (r : Ratio) (e : Int) : Nat :=
  let s := r.unscale e
  roundHalfEven s.num s.den

/-- The nearest number of that many decimal places. -/
def toPlaces (r : Ratio) (places : Nat) : Decimal := ⟨r.round (-places), -places⟩

/-- The nearest number of that many digits; zero has the digit zero. -/
def toSignificant (r : Ratio) (count : Nat) : Decimal :=
  if r.num = 0 then ⟨0, 1 - count⟩
  else
    let e := r.leading + 1 - count
    let n := r.round e
    if n = Nat.pow 10 count then ⟨Nat.pow 10 (count - 1), e + 1⟩ else ⟨n, e⟩

/-- The whole part. -/
def floor (r : Ratio) : Nat := r.num / r.den

end Ratio

namespace Decimal

/-- The decimal digits, most significant first. -/
def text (n : Nat) : String := String.ofList (Nat.toDigits 10 n)

/-- The power of ten of the leading digit. -/
def leading (d : Decimal) : Int := (text d.digits).length - 1 + d.scale

/-- The nearest double of a decimal number. -/
def toFloat (d : Decimal) : Float :=
  if d.scale < 0 then Float.ofScientific d.digits true d.scale.natAbs
  else Float.ofScientific d.digits false d.scale.natAbs

end Decimal

end BoardPlotter
