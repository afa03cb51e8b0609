import BoardPlotter.Proofs.Geometry.Center
import BoardPlotter.Proofs.PathData.Plain

/-!
# Arcs of a path

The only steps that meet a fault of the numbers are arcs: lines need no flattening, and a
Bézier curve is sampled at any tolerance above zero and in any number of segments above
zero (`Flattening.IsValid.exists_bezier`). So what keeps a path from being drawn is the first of
its arcs that cannot be flattened (`Pen.trace_returns`).
-/

namespace BoardPlotter

open Scalar

variable {α : Type} [Scalar α]

theorem return_eq_error_iff {ε β γ : Type} (r : Except ε β) (g : β → γ) (e : ε) :
    (do return g (← r)) = Except.error e ↔ r = .error e := by
  cases r with
  | error e' => exact Iff.rfl.trans (by simp [bind, Except.bind])
  | ok b => exact iff_of_false (fun h => by cases h) (fun h => by cases h)

/-- Where an option tells the faults of a run, a run without one leaves it empty. -/
theorem eq_none_of_iff {P : Fault → Prop} {o : Option Fault} (h : ∀ x, P x ↔ o = some x)
    (unfaulted : ∀ x, ¬ P x) : o = none :=
  Option.eq_none_iff_forall_ne_some.mpr fun x hx => unfaulted x ((h x).mpr hx)

/-- Settings under which every Bézier curve is sampled. -/
structure Flattening.IsValid (f : Flattening α) : Prop where
  tolerance : 0 < f.tolerance
  segments : ∀ n ∈ f.segments, 1 ≤ n

/-- Fixed segments need no tolerance. -/
theorem Flattening.exists_bezier_of_segments {f : Flattening α} {n : Int}
    (fixed : f.segments = some n) (counted : 1 ≤ n) (p : Point α) (ps : List (Point α)) :
    ∃ points, f.bezier (p :: ps) = .ok points := by
  rw [bezier, fixed]
  exact ⟨_, if_neg (Int.not_lt.mpr counted)⟩

theorem Flattening.IsValid.exists_bezier {f : Flattening α} (valid : f.IsValid) (p : Point α)
    (ps : List (Point α)) : ∃ points, f.bezier (p :: ps) = .ok points := by
  obtain ⟨tolerance, segments, depth⟩ := f
  cases segments with
  | some n => exact Flattening.exists_bezier_of_segments rfl (valid.segments n rfl) p ps
  | none =>
    have checked : checkTolerance tolerance = .ok () := if_pos valid.tolerance
    change ∃ points, (do
      checkTolerance tolerance
      ControlPolygon.flatten ⟨p, ps⟩ tolerance depth) = .ok points
    rw [ControlPolygon.flatten, checked]
    exact ⟨_, rfl⟩

namespace Pen

/-- The arc that a step draws. A radius of zero makes it a line. -/
def arcOf? (pen : Pen α) (s : PathStep α) : Option (EndpointArc α) :=
  match s.motion with
  | .arcTo rx ry rotation large sweep p =>
    if abs rx == 0 || abs ry == 0 then none
    else some ⟨pen.current, pen.target s.relative p, abs rx, abs ry, rotation, large, sweep⟩
  | _ => none

/-- The arcs met by steps, up to the first curve that is not sampled. -/
def arcs (f : Flattening α) : Pen α → List (PathStep α) → List (EndpointArc α)
  | _, [] => []
  | pen, s :: ss =>
    (pen.arcOf? s).toList ++
      match pen.step f s with
      | .ok (next, _) => arcs f next ss
      | .error _ => []

theorem bezier_ne_fault (f : Flattening α) (control : List (Point α)) (x : Fault) :
    f.bezier control ≠ .error (.fault x) := by
  intro h
  rw [Flattening.bezier] at h
  split at h
  · rw [Bezier.sample] at h
    split at h
    · cases h
    · split at h <;> cases h
  · rw [Bezier.flatten, checkTolerance] at h
    by_cases pos : 0 < f.tolerance
    · rw [if_pos pos] at h
      cases control with
      | nil => cases h
      | cons p ps =>
        change ControlPolygon.flatten ⟨p, ps⟩ _ _ = _ at h
        rw [ControlPolygon.flatten, checkTolerance, if_pos pos] at h
        cases h
    · rw [if_neg pos] at h
      cases h

theorem curve_ne_fault (pen : Pen α) (f : Flattening α) (control : List (Point α)) (p : Point α)
    (memory : CurveMemory α) (x : Fault) : pen.curve f control p memory ≠ .error (.fault x) := by
  intro h
  rw [curve] at h
  split at h
  · cases h
  · cases drawn : f.bezier (pen.current :: control ++ [p]) with
    | error e =>
      rw [drawn] at h
      cases h
      exact bezier_ne_fault f _ x drawn
    | ok points =>
      rw [drawn] at h
      cases h

/-- A step fails with a fault precisely if it draws an arc that has one. -/
theorem step_eq_fault_iff (pen : Pen α) (f : Flattening α) (s : PathStep α) (x : Fault) :
    pen.step f s = .error (.fault x) ↔
      (pen.arcOf? s).bind (·.faultAt? f.tolerance) = some x := by
  obtain ⟨relative, motion⟩ := s
  have none_ : ¬ (none : Option (EndpointArc α)).bind (·.faultAt? f.tolerance) = some x := by simp
  cases motion with
  | moveTo | lineTo | horizontalTo | verticalTo | closePath =>
    exact iff_of_false (fun h => by cases h) none_
  | cubicTo | smoothCubicTo | quadraticTo | smoothQuadraticTo =>
    exact iff_of_false (curve_ne_fault pen f _ _ _ x) none_
  | arcTo rx ry rotation large sweep p =>
    change pen.arc f rx ry rotation large sweep (pen.target relative p) = _ ↔ _
    rw [arc, arcOf?]
    by_cases straight : (abs rx == 0 || abs ry == 0) = true
    · simp only [straight, if_true]
      exact iff_of_false (fun h => by cases h) none_
    · simp only [straight, Bool.false_eq_true, if_false, Option.bind_some]
      rw [← EndpointArc.flatten_eq_fault_iff _ _ f.depth]
      exact return_eq_error_iff _ _ _

/-- Steps fail with the first fault of the arcs they meet. -/
theorem trace_eq_fault_iff (f : Flattening α) (pen : Pen α) (steps : List (PathStep α))
    (x : Fault) :
    pen.trace f steps = .error (.fault x) ↔
      (pen.arcs f steps).findSome? (·.faultAt? f.tolerance) = some x := by
  induction steps generalizing pen with
  | nil => simp [trace, arcs]
  | cons s steps ih =>
    have first (x : Fault) := step_eq_fault_iff pen f s x
    have here : (pen.arcOf? s).toList.findSome? (·.faultAt? f.tolerance) =
        (pen.arcOf? s).bind (·.faultAt? f.tolerance) := by
      cases pen.arcOf? s <;> simp
    rw [trace, arcs, List.findSome?_append, here]
    cases step : pen.step f s with
    | error e =>
      rw [step] at first
      simp only [List.findSome?_nil, Option.or_none, ← first, bind, Except.bind,
        Except.error.injEq]
    | ok answer =>
      obtain ⟨next, event⟩ := answer
      rw [step] at first
      have clear := eq_none_of_iff first fun y hy => by cases hy
      rw [clear, Option.none_or, ← ih]
      exact return_eq_error_iff _ _ _

/-! ### Where no arc fails -/

theorem exists_curve {f : Flattening α}
    (sampled : ∀ p ps, ∃ points, f.bezier (p :: ps) = .ok points) (pen : Pen α)
    (control : List (Point α)) (p : Point α) (memory : CurveMemory α) :
    ∃ points, pen.curve f control p memory = .ok (pen.advance p memory, .drew points) := by
  obtain ⟨points, flat⟩ := sampled pen.current (control ++ [p])
  rw [curve, List.cons_append, flat]
  split
  · exact ⟨_, rfl⟩
  · exact ⟨_, rfl⟩

/-- A step is carried out unless it draws an arc that cannot be flattened. -/
theorem step_returns {f : Flattening α} (valid : f.IsValid) (pen : Pen α) (s : PathStep α) :
    (∃ answer, pen.step f s = .ok answer) ∨
      ∃ arc ∈ pen.arcOf? s, ∃ e, arc.flatten f.tolerance f.depth = .error e ∧
        pen.step f s = .error e := by
  obtain ⟨relative, motion⟩ := s
  cases motion with
  | moveTo | lineTo | horizontalTo | verticalTo | closePath => exact .inl ⟨_, rfl⟩
  | cubicTo | smoothCubicTo | quadraticTo | smoothQuadraticTo =>
    exact .inl ((exists_curve valid.exists_bezier pen _ _ _).imp' _ fun _ returned => returned)
  | arcTo rx ry rotation large sweep p =>
    change (∃ answer, pen.arc f rx ry rotation large sweep (pen.target relative p) = .ok answer) ∨
      ∃ arc ∈ _, ∃ e, _ ∧
        pen.arc f rx ry rotation large sweep (pen.target relative p) = .error e
    rw [Pen.arc, arcOf?]
    by_cases straight : (abs rx == 0 || abs ry == 0) = true
    · simp only [straight, if_true]
      exact .inl ⟨_, rfl⟩
    · simp only [straight, Bool.false_eq_true, if_false]
      cases drawn : (EndpointArc.mk pen.current (pen.target relative p) (abs rx) (abs ry) rotation
          large sweep).flatten f.tolerance f.depth with
      | ok points => exact .inl ⟨_, rfl⟩
      | error e => exact .inr ⟨_, rfl, e, drawn, rfl⟩

/-- Steps are carried out unless they meet an arc that cannot be flattened. -/
theorem trace_returns {f : Flattening α} (valid : f.IsValid) (pen : Pen α)
    (steps : List (PathStep α)) :
    (∃ events, pen.trace f steps = .ok events) ∨
      ∃ arc ∈ pen.arcs f steps, ∃ e, arc.flatten f.tolerance f.depth = .error e ∧
        pen.trace f steps = .error e := by
  induction steps generalizing pen with
  | nil => exact .inl ⟨[], rfl⟩
  | cons s steps ih =>
    rw [trace, arcs]
    obtain ⟨⟨next, event⟩, step⟩ | ⟨arc, drawn, e, failed, step⟩ := step_returns valid pen s
    · rw [step]
      change (∃ events, (do return event :: (← next.trace f steps)) = Except.ok events) ∨
        ∃ arc ∈ (pen.arcOf? s).toList ++ next.arcs f steps, ∃ e, _ ∧
          (do return event :: (← next.trace f steps)) = Except.error e
      obtain ⟨events, trace⟩ | ⟨arc, met, e, failed, trace⟩ := ih next
      · rw [trace]
        exact .inl ⟨_, rfl⟩
      · rw [trace]
        exact .inr ⟨arc, List.mem_append_right _ met, e, failed, rfl⟩
    · rw [step]
      exact .inr ⟨arc, List.mem_append_left _ (Option.mem_toList.mpr drawn), e, failed, rfl⟩

end Pen

end BoardPlotter
