import BoardPlotter.Geometry.Point

/-!
# Crossings of lines and segments
-/

namespace BoardPlotter

open Scalar

/-- Where `p₁ + t (p₂ - p₁)` meets `q₁ + u (q₂ - q₁)`. -/
structure Crossing (α : Type) where
  point : Point α
  t : α
  u : α
  deriving DecidableEq, Repr

namespace Crossing

variable {α : Type} [Scalar α]

/-- The crossing of two lines, none for parallel ones. -/
def ofLines? (p₁ p₂ q₁ q₂ : Point α) : Option (Crossing α) :=
  let r := p₂ - p₁
  let s := q₂ - q₁
  let denom := r.det s
  if denom == 0 then none
  else
    let qp := q₁ - p₁
    let t := qp.det s / denom
    let u := qp.det r / denom
    some ⟨p₁ + r.scale t, t, u⟩

/-- A parameter of a closed segment, with `eps` of slack at both ends. -/
def within (eps t : α) : Bool := -eps ≤ t && t ≤ 1 + eps

/-- The crossing of two closed segments. Parameters are clamped after the test,
so a vertex on the other segment is not lost to rounding; segments that overlap
on one line have none. -/
def ofSegments? (eps : α) (p₁ p₂ q₁ q₂ : Point α) : Option (Crossing α) := do
  let hit ← ofLines? p₁ p₂ q₁ q₂
  if within eps hit.t && within eps hit.u then
    let t := clampUnit hit.t
    some ⟨p₁ + (p₂ - p₁).scale t, t, clampUnit hit.u⟩
  else none

end Crossing

end BoardPlotter
