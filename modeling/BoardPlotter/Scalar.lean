/-!
# Numbers

The geometry is written once, over any number type with the operations of
`Scalar`: it runs on doubles and is reasoned about over the reals. Operations
whose result may not exist (`div?`, `square?`, `sin?`) answer with a `Fault`.
-/

namespace BoardPlotter

/-- Why an operation on numbers has no result. -/
inductive Fault where
  | divisionByZero
  | overflow
  | domain
  deriving DecidableEq, Repr

/-- Number operations of the geometry. `ofDecimal m e` is `m * 10 ^ e`, and
`floor` is zero below one and at values that are no number. -/
class Scalar (α : Type) extends Add α, Sub α, Mul α, Div α, Neg α, LT α, LE α, BEq α where
  decLt : DecidableLT α
  decLe : DecidableLE α
  ofNat : Nat → α
  ofDecimal : Nat → Int → α
  abs : α → α
  sqrt : α → α
  hypot : α → α → α
  sin : α → α
  cos : α → α
  tan : α → α
  atan2 : α → α → α
  pi : α
  isFinite : α → Bool
  floor : α → Nat

namespace Scalar

variable {α : Type} [Scalar α]

instance (priority := low) : DecidableLT α := decLt
instance (priority := low) : DecidableLE α := decLe
instance (priority := low) (n : Nat) : OfNat α n := ⟨ofNat n⟩
instance (priority := low) : Inhabited α := ⟨0⟩

/-- The tolerance of every boundary and coincidence test. -/
def epsilon : α := ofDecimal 1 (-9)

/-- The first argument unless the second is greater. -/
def larger (a b : α) : α := if a < b then b else a

/-- The first argument unless the second is smaller. -/
def smaller (a b : α) : α := if b < a then b else a

/-- The nearest point of the unit interval. -/
def clampUnit (t : α) : α := smaller (larger t 0) 1

/-- Degrees as radians. -/
def radians (degrees : α) : α := degrees * (pi / 180)

def div? (a b : α) : Except Fault α :=
  if b == 0 then .error .divisionByZero else .ok (a / b)

/-- The square, refused where it leaves the finite numbers. -/
def square? (x : α) : Except Fault α :=
  let s := x * x
  if isFinite x && !isFinite s then .error .overflow else .ok s

/-- An angle that has sine, cosine and tangent: it is not infinite. -/
def angle? (x : α) : Except Fault α :=
  if x == x && !isFinite x then .error .domain else .ok x

def sin? (x : α) : Except Fault α := sin <$> angle? x

def cos? (x : α) : Except Fault α := cos <$> angle? x

def tan? (x : α) : Except Fault α := tan <$> angle? x

end Scalar

end BoardPlotter
