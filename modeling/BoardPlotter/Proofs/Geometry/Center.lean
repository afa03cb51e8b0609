import BoardPlotter.Geometry.Arc
import BoardPlotter.Proofs.Geometry.Segment

/-!
# Arcs through their centre

The way to the centre of an arc has names: half the chord in the frame of the ellipse,
how far the radii are from reaching over it, the radii that do, and the middle of the
ellipse. An arc with radii has a centre unless its turn is infinite or a square on this
way leaves the finite numbers (`EndpointArc.center?_eq`), and nothing else keeps it from
being sampled (`EndpointArc.flatten_eq_fault_iff`). In exact arithmetic neither happens
(`Exact.flatten_eq`).
-/

namespace BoardPlotter

open Scalar

namespace Scalar

variable {α : Type} [Scalar α]

/-- Neither finite nor undefined. -/
def isInfinite (x : α) : Bool := x == x && !isFinite x

/-- A finite number with a square that is not. -/
def overflows (x : α) : Bool := isFinite x && !isFinite (x * x)

theorem angle?_eq (x : α) : angle? x = if isInfinite x then .error .domain else .ok x := rfl

theorem square?_eq (x : α) :
    square? x = if overflows x then .error .overflow else .ok (x * x) := rfl

theorem square?_bind {β : Type} (x : α) (k : α → Except (CurveError α) β) :
    ((square? x).mapError .fault >>= k) =
      if overflows x then .error (.fault .overflow) else k (x * x) := by
  rw [square?_eq]
  split <;> rfl

/-- Squares taken one after another fail if one of them does. -/
theorem foldr_overflows {β : Type} (xs : List α) (y : Except (CurveError α) β) :
    xs.foldr (fun x next => if overflows x then .error (.fault .overflow) else next) y =
      if xs.any overflows then .error (.fault .overflow) else y := by
  induction xs with
  | nil => rfl
  | cons x xs ih =>
    rw [List.foldr_cons, ih, List.any_cons]
    cases overflows x <;> rfl

end Scalar

namespace EndpointArc

variable {α : Type} [Scalar α]

/-- Half the way from the second end to the first, in the frame of the ellipse. -/
def half (e : EndpointArc α) : Point α :=
  let c := cos (radians e.rotation)
  let s := sin (radians e.rotation)
  let hx := (e.p₁.x - e.p₂.x) / 2
  let hy := (e.p₁.y - e.p₂.y) / 2
  ⟨c * hx + s * hy, -s * hx + c * hy⟩

/-- The square of the least factor by which the radii reach over the chord. -/
def reach (e : EndpointArc α) : α :=
  e.half.x / abs e.rx * (e.half.x / abs e.rx) + e.half.y / abs e.ry * (e.half.y / abs e.ry)

/-- A radius, grown if the radii do not reach over the chord. -/
def grown (e : EndpointArc α) (radius : α) : α :=
  if decide (1 < e.reach) then abs radius * sqrt e.reach else abs radius

/-- How far the middle of the ellipse is off the chord, to the side of the flags. -/
def bulge (e : EndpointArc α) : α :=
  let rx := e.grown e.rx
  let ry := e.grown e.ry
  let dx := rx * e.half.y * (rx * e.half.y)
  let dy := ry * e.half.x * (ry * e.half.x)
  let size :=
    if 0 < dx + dy then sqrt (larger 0 ((rx * ry * (rx * ry) - dx - dy) / (dx + dy))) else 0
  if e.large == e.sweep then -size else size

/-- The middle of the ellipse from the middle of the chord, in the frame of the ellipse. -/
def middle (e : EndpointArc α) : Point α :=
  ⟨e.bulge * e.grown e.rx * e.half.y / e.grown e.ry,
    -e.bulge * e.grown e.ry * e.half.x / e.grown e.rx⟩

/-- The way from the middle of the ellipse to an end of the chord, on the unit circle. -/
def spoke (e : EndpointArc α) (half : Point α) : Point α :=
  ⟨(half.x - e.middle.x) / e.grown e.rx, (half.y - e.middle.y) / e.grown e.ry⟩

/-- The arc through its centre. -/
def center (e : EndpointArc α) : Arc α :=
  let c := cos (radians e.rotation)
  let s := sin (radians e.rotation)
  { center :=
      ⟨c * e.middle.x - s * e.middle.y + (e.p₁.x + e.p₂.x) / 2,
        s * e.middle.x + c * e.middle.y + (e.p₁.y + e.p₂.y) / 2⟩
    rx := e.grown e.rx
    ry := e.grown e.ry
    phi := radians e.rotation
    theta := angleBetween ⟨1, 0⟩ (e.spoke e.half)
    delta := directed e.sweep (angleBetween (e.spoke e.half) (e.spoke (-e.half))) }

/-- The numbers squared on the way to the centre. -/
def squared (e : EndpointArc α) : List α :=
  [e.half.x / abs e.rx, e.half.y / abs e.ry, e.grown e.rx * e.grown e.ry,
    e.grown e.rx * e.half.y, e.grown e.ry * e.half.x]

/-- What keeps an arc with radii from having a centre. -/
def fault? (e : EndpointArc α) : Option Fault :=
  if isInfinite (radians e.rotation) then some .domain
  else if e.squared.any overflows then some .overflow
  else none

theorem center?_eq (e : EndpointArc α) :
    e.center? =
      if abs e.rx == 0 || abs e.ry == 0 then .error .zeroRadius
      else match e.fault? with
        | some f => .error (.fault f)
        | none => .ok e.center := by
  by_cases round : (abs e.rx == 0 || abs e.ry == 0) = true
  · rw [if_pos round]
    exact if_pos round
  · rw [if_neg round]
    refine (if_neg round).trans ?_
    rw [fault?]
    by_cases turn : isInfinite (radians e.rotation) = true
    · rw [if_pos turn]
      simp -zeta only [cos?, angle?_eq, if_pos turn]
      rfl
    · rw [if_neg turn]
      simp -zeta only [cos?, sin?, angle?_eq, if_neg turn, square?_bind]
      refine (foldr_overflows e.squared (.ok e.center)).trans ?_
      split <;> rfl

/-- The samples of an arc whose ends are apart. -/
def samples (e : EndpointArc α) (tolerance : α) (depth : Nat) : List (Point α) :=
  let mid := e.center.point (1 / 2)
  e.p₁ :: e.center.bisect tolerance depth 0 e.p₁ (1 / 2) mid ++
    mid :: e.center.bisect tolerance depth (1 / 2) mid 1 e.p₂ ++ [e.p₂]

theorem flatten_eq (e : EndpointArc α) (tolerance : α) (depth : Int) :
    e.flatten tolerance depth =
      if 0 < tolerance then
        if e.p₁ == e.p₂ then .ok [e.p₁]
        else if e.rx == 0 || e.ry == 0 then .ok [e.p₁, e.p₂]
        else if abs e.rx == 0 || abs e.ry == 0 then .error .zeroRadius
        else match e.fault? with
          | some f => .error (.fault f)
          | none => .ok (e.samples tolerance (depth - 1).toNat)
      else .error (.tolerance tolerance) := by
  rw [flatten, checkTolerance]
  by_cases pos : 0 < tolerance
  · rw [if_pos pos, if_pos pos]
    by_cases closed : (e.p₁ == e.p₂) = true
    · rw [if_pos closed, if_pos closed]
      rfl
    · rw [if_neg closed, if_neg closed]
      by_cases straight : (e.rx == 0 || e.ry == 0) = true
      · rw [if_pos straight, if_pos straight]
        rfl
      · rw [if_neg straight, if_neg straight, center?_eq]
        by_cases round : (abs e.rx == 0 || abs e.ry == 0) = true
        · rw [if_pos round, if_pos round]
          rfl
        · rw [if_neg round, if_neg round]
          cases e.fault? <;> rfl
  · rw [if_neg pos, if_neg pos]
    rfl

/-- Sampling an arc comes to the same points at any tolerance, to its samples, or, if it has
no centre, to the error of that. -/
theorem flatten_cases (e : EndpointArc α) :
    (∃ ps, ∀ (tolerance : α) (depth : Int), 0 < tolerance → e.flatten tolerance depth = .ok ps) ∨
    (∀ (tolerance : α) (depth : Int), 0 < tolerance →
      e.flatten tolerance depth = .ok (e.samples tolerance (depth - 1).toNat)) ∨
    ∃ err, e.center? = .error err ∧
      ∀ (tolerance : α) (depth : Int), 0 < tolerance → e.flatten tolerance depth = .error err := by
  by_cases closed : (e.p₁ == e.p₂) = true
  · refine .inl ⟨[e.p₁], fun tolerance depth positive => ?_⟩
    rw [flatten_eq, if_pos positive, if_pos closed]
  · by_cases straight : (e.rx == 0 || e.ry == 0) = true
    · refine .inl ⟨[e.p₁, e.p₂], fun tolerance depth positive => ?_⟩
      rw [flatten_eq, if_pos positive, if_neg closed, if_pos straight]
    · by_cases round : (abs e.rx == 0 || abs e.ry == 0) = true
      · refine .inr (.inr ⟨.zeroRadius, ?_, fun tolerance depth positive => ?_⟩)
        · rw [center?_eq, if_pos round]
        · rw [flatten_eq, if_pos positive, if_neg closed, if_neg straight, if_pos round]
      · cases fault : e.fault? with
        | none =>
          refine .inr (.inl fun tolerance depth positive => ?_)
          rw [flatten_eq, if_pos positive, if_neg closed, if_neg straight, if_neg round, fault]
        | some f =>
          refine .inr (.inr ⟨.fault f, ?_, fun tolerance depth positive => ?_⟩)
          · rw [center?_eq, if_neg round, fault]
          · rw [flatten_eq, if_pos positive, if_neg closed, if_neg straight, if_neg round, fault]

/-- What keeps an arc from being sampled, other than an error of its own. -/
def faultAt? (tolerance : α) (e : EndpointArc α) : Option Fault :=
  if 0 < tolerance ∧ ¬ e.p₁ == e.p₂ ∧ ¬ (e.rx == 0 || e.ry == 0) ∧
      ¬ (abs e.rx == 0 || abs e.ry == 0) then
    e.fault?
  else none

theorem flatten_eq_fault_iff (e : EndpointArc α) (tolerance : α) (depth : Int) (f : Fault) :
    e.flatten tolerance depth = .error (.fault f) ↔ e.faultAt? tolerance = some f := by
  rw [flatten_eq, faultAt?]
  by_cases pos : 0 < tolerance
  · by_cases closed : (e.p₁ == e.p₂) = true
    · simp [pos, closed]
    · by_cases straight : (e.rx == 0 || e.ry == 0) = true
      · simp [pos, closed, straight]
      · by_cases round : (abs e.rx == 0 || abs e.ry == 0) = true
        · simp [pos, closed, straight, round]
        · cases e.fault? <;> simp [pos, closed, straight, round]
  · simp [pos]

end EndpointArc

namespace Exact

theorem fault?_eq (e : EndpointArc ℝ) : e.fault? = none := by
  have finite (x : ℝ) : (Scalar.isFinite x : Bool) = true := rfl
  simp [EndpointArc.fault?, isInfinite, overflows, finite]

theorem flatten_eq (e : EndpointArc ℝ) {tolerance : ℝ} (pos : 0 < tolerance) (depth : ℤ) :
    e.flatten tolerance depth = .ok (
      if e.p₁ == e.p₂ then [e.p₁]
      else if e.rx == 0 || e.ry == 0 then [e.p₁, e.p₂]
      else e.samples tolerance (depth - 1).toNat) := by
  rw [EndpointArc.flatten_eq, if_pos pos, fault?_eq]
  by_cases straight : (e.rx == 0 || e.ry == 0) = true
  · simp only [straight, if_true]
    split <;> rfl
  · have round : ¬ (Scalar.abs e.rx == 0 || Scalar.abs e.ry == 0) = true := by simpa using straight
    simp only [straight, round, Bool.false_eq_true, if_false]
    split <;> rfl

end Exact

end BoardPlotter
