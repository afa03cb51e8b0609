import BoardPlotter.Proofs.Geometry.Affinity
import BoardPlotter.Proofs.PathData.Arcs

/-!
# Paths under an affine map

The numbers of most absolute commands are the coordinates of points (`PathVerb.paired`).
An affine map can be applied to them pair by pair before the path is drawn, or to the
polylines afterwards. In a fixed number of segments both give the same polylines
(`PathDrawing.ofGroups_transform`): the pen of the mapped path is at every step the image
of the pen of the path, and draws the images of its vertices (`Affinity.step_pen`).

The two pens set out from one place, which the map may move. What they draw before the
first moveto is no part of an outline, and a moveto forgets where the pen was
(`Pen.trace_anywhere`).
-/

namespace BoardPlotter

open Scalar

/-- The verbs whose numbers are points, pair by pair. -/
def PathVerb.paired : List PathVerb :=
  [moveTo, lineTo, closePath, cubicTo, smoothCubicTo, quadraticTo, smoothQuadraticTo]

theorem PathVerb.repeated_mem_paired {verb : PathVerb} (h : verb ∈ paired) :
    verb.repeated ∈ paired := by
  revert verb
  decide

/-! ## Steps by points -/

/-- The motion with its points mapped. -/
def PathMotion.map {α : Type} (φ : Point α → Point α) : PathMotion α → PathMotion α
  | .moveTo p => .moveTo (φ p)
  | .lineTo p => .lineTo (φ p)
  | .cubicTo c₁ c₂ p => .cubicTo (φ c₁) (φ c₂) (φ p)
  | .smoothCubicTo c₂ p => .smoothCubicTo (φ c₂) (φ p)
  | .quadraticTo c p => .quadraticTo (φ c) (φ p)
  | .smoothQuadraticTo p => .smoothQuadraticTo (φ p)
  | .arcTo rx ry rotation large sweep p => .arcTo rx ry rotation large sweep (φ p)
  | motion => motion

namespace PathStep

variable {α : Type}

def map (φ : Point α → Point α) (s : PathStep α) : PathStep α := ⟨s.relative, s.motion.map φ⟩

/-- The absolute steps that are told by points alone. -/
inductive ByPoints : PathStep α → Prop
  | moveTo (p : Point α) : ByPoints ⟨false, .moveTo p⟩
  | lineTo (p : Point α) : ByPoints ⟨false, .lineTo p⟩
  | closePath : ByPoints ⟨false, .closePath⟩
  | cubicTo (c₁ c₂ p : Point α) : ByPoints ⟨false, .cubicTo c₁ c₂ p⟩
  | smoothCubicTo (c₂ p : Point α) : ByPoints ⟨false, .smoothCubicTo c₂ p⟩
  | quadraticTo (c p : Point α) : ByPoints ⟨false, .quadraticTo c p⟩
  | smoothQuadraticTo (p : Point α) : ByPoints ⟨false, .smoothQuadraticTo p⟩

theorem ByPoints.map {s : PathStep α} (h : s.ByPoints) (φ : Point α → Point α) :
    (s.map φ).ByPoints := by
  cases h <;> constructor

theorem byPoints_of_ofSet [Scalar α] {c : PathCommand} {l : List α} {s : PathStep α}
    (absolute : c.relative = false) (paired : c.verb ∈ PathVerb.paired)
    (size : l.length = c.verb.arity) (h : ofSet c l = .ok s) : s.ByPoints := by
  obtain ⟨verb, relative⟩ := c
  obtain rfl : relative = false := absolute
  cases verb with
  | moveTo =>
    match l, size with
    | [x, y], _ => exact Except.ok.inj h ▸ .moveTo ⟨x, y⟩
  | lineTo =>
    match l, size with
    | [x, y], _ => exact Except.ok.inj h ▸ .lineTo ⟨x, y⟩
  | closePath =>
    match l, size with
    | [], _ => exact Except.ok.inj h ▸ .closePath
  | cubicTo =>
    match l, size with
    | [a, b, c, d, x, y], _ => exact Except.ok.inj h ▸ .cubicTo ⟨a, b⟩ ⟨c, d⟩ ⟨x, y⟩
  | smoothCubicTo =>
    match l, size with
    | [c, d, x, y], _ => exact Except.ok.inj h ▸ .smoothCubicTo ⟨c, d⟩ ⟨x, y⟩
  | quadraticTo =>
    match l, size with
    | [a, b, x, y], _ => exact Except.ok.inj h ▸ .quadraticTo ⟨a, b⟩ ⟨x, y⟩
  | smoothQuadraticTo =>
    match l, size with
    | [x, y], _ => exact Except.ok.inj h ▸ .smoothQuadraticTo ⟨x, y⟩
  | horizontalTo | verticalTo | arcTo => exact absurd paired (by decide)

end PathStep

/-! ## The pen -/

namespace Affinity

variable (a : Affinity)

def memory : CurveMemory ℝ → CurveMemory ℝ
  | .blank => .blank
  | .cubic c => .cubic (a.point c)
  | .quadratic c => .quadratic (a.point c)

def pen (pen : Pen ℝ) : Pen ℝ :=
  ⟨a.point pen.current, a.point pen.subpathStart, a.memory pen.memory⟩

def event : PenEvent ℝ → PenEvent ℝ
  | .lifted p => .lifted (a.point p)
  | .drew ps => .drew (ps.map a.point)

def polyline (l : Polyline ℝ) : Polyline ℝ := ⟨a.point l.start, l.rest.map a.point, l.fill⟩

theorem line_pen (pen : Pen ℝ) (p : Point ℝ) :
    (a.pen pen).line (a.point p) = (pen.line p).map a.pen a.event := by
  rw [Pen.line, Pen.line, Affinity.pen, sub_lengthSquared_beq]
  split <;> rfl

/-- A step that draws the vertices behind the first of a curve. -/
theorem drew_map (pen : Pen ℝ) (p : Point ℝ) (memory : CurveMemory ℝ)
    (drawn : Except (CurveError ℝ) (List (Point ℝ))) :
    (do
      let drawn ← drawn.map (List.map a.point)
      return ((a.pen pen).advance (a.point p) (a.memory memory), PenEvent.drew (drawn.drop 1))) =
      Except.map (Prod.map a.pen a.event) (do
        let drawn ← drawn
        return (pen.advance p memory, PenEvent.drew (drawn.drop 1))) := by
  cases drawn with
  | error e => rfl
  | ok drawn =>
    change Except.ok (_, PenEvent.drew ((drawn.map a.point).drop 1)) =
      Except.ok (_, PenEvent.drew ((drawn.drop 1).map a.point))
    rw [List.map_drop]
    rfl

/-- Where the images of curves are sampled at the images, the pen draws the image. -/
theorem curve_pen {f g : Flattening ℝ}
    (sampled : ∀ control,
      g.bezier (control.map a.point) = (f.bezier control).map (List.map a.point))
    (pen : Pen ℝ) (control : List (Point ℝ)) (p : Point ℝ) (memory : CurveMemory ℝ) :
    (a.pen pen).curve g (control.map a.point) (a.point p) (a.memory memory) =
      (pen.curve f control p memory).map (Prod.map a.pen a.event) := by
  have polygon : (a.pen pen).current :: control.map a.point ++ [a.point p] =
      (pen.current :: control ++ [p]).map a.point := by simp [Affinity.pen]
  rw [Pen.curve, Pen.curve, polygon, bezier_isDegenerate, sampled]
  split
  · exact a.drew_map pen p memory (.ok [])
  · exact a.drew_map pen p memory _

theorem smoothCubic_pen (pen : Pen ℝ) : (a.pen pen).smoothCubic = a.point pen.smoothCubic := by
  obtain ⟨current, subpathStart, memory⟩ := pen
  cases memory with
  | cubic c => exact a.point_reflect current c
  | blank | quadratic => rfl

theorem smoothQuadratic_pen (pen : Pen ℝ) :
    (a.pen pen).smoothQuadratic = a.point pen.smoothQuadratic := by
  obtain ⟨current, subpathStart, memory⟩ := pen
  cases memory with
  | quadratic c => exact a.point_reflect current c
  | blank | cubic => rfl

/-- **One step.** From the image of the pen, the mapped step draws the images of what the
step draws, and leaves the pen at its image. -/
theorem step_pen {f : Flattening ℝ} {n : ℤ} (fixed : f.segments = some n) {s : PathStep ℝ}
    (points : s.ByPoints) (pen : Pen ℝ) :
    (a.pen pen).step f (s.map a.point) = (pen.step f s).map (Prod.map a.pen a.event) := by
  have sampled (control : List (Point ℝ)) :
      f.bezier (control.map a.point) = (f.bezier control).map (List.map a.point) := by
    rw [Flattening.bezier, Flattening.bezier, fixed]
    exact a.bezier_sample control n
  have curve := a.curve_pen sampled pen
  cases points with
  | moveTo p => rfl
  | lineTo p => exact congrArg Except.ok (a.line_pen pen p)
  | closePath => exact congrArg Except.ok (a.line_pen pen pen.subpathStart)
  | cubicTo c₁ c₂ p => exact curve [c₁, c₂] p (.cubic c₂)
  | smoothCubicTo c₂ p =>
    change (a.pen pen).curve f [(a.pen pen).smoothCubic, a.point c₂] (a.point p) _ = _
    rw [smoothCubic_pen]
    exact curve [pen.smoothCubic, c₂] p (.cubic c₂)
  | quadraticTo c p => exact curve [c] p (.quadratic c)
  | smoothQuadraticTo p =>
    change (a.pen pen).curve f [(a.pen pen).smoothQuadratic] (a.point p)
      (.quadratic (a.pen pen).smoothQuadratic) = _
    rw [smoothQuadratic_pen]
    exact curve [pen.smoothQuadratic] p (.quadratic pen.smoothQuadratic)

theorem outlines_map (events : List (PenEvent ℝ)) :
    PenEvent.outlines (events.map a.event) =
      Prod.map (List.map a.point) (List.map a.polyline) (PenEvent.outlines events) := by
  induction events with
  | nil => rfl
  | cons e events ih =>
    cases e with
    | lifted p =>
      rw [List.map_cons, Affinity.event, PenEvent.outlines, ih]
      rfl
    | drew ps =>
      rw [List.map_cons, Affinity.event, PenEvent.outlines, ih]
      simp only [Prod.map_fst, Prod.map_snd, ← List.map_append]
      rfl

end Affinity

namespace Pen

variable {α : Type} [Scalar α] {f : Flattening α}

/-- A step by points draws from wherever the pen is, unless it is a moveto. -/
theorem moveTo_or_draws (sampled : ∀ p ps, ∃ points, f.bezier (p :: ps) = .ok points)
    {s : PathStep α} (points : s.ByPoints) :
    (∃ p, s = ⟨false, .moveTo p⟩) ∨
      ∀ pen : Pen α, ∃ next drawn, pen.step f s = .ok (next, .drew drawn) := by
  have curve (pen : Pen α) (control : List (Point α)) (p : Point α) (memory : CurveMemory α) :
      ∃ next drawn, pen.curve f control p memory = .ok (next, .drew drawn) :=
    ⟨_, exists_curve sampled pen control p memory⟩
  cases points with
  | moveTo p => exact .inl ⟨p, rfl⟩
  | lineTo | closePath => exact .inr fun pen => ⟨_, _, rfl⟩
  | cubicTo | smoothCubicTo | quadraticTo | smoothQuadraticTo =>
    exact .inr fun pen => curve pen _ _ _

/-- Steps by points are carried out, and have the same outlines wherever the pen sets
out. -/
theorem trace_anywhere (sampled : ∀ p ps, ∃ points, f.bezier (p :: ps) = .ok points)
    {steps : List (PathStep α)} (points : ∀ s ∈ steps, s.ByPoints) (p q : Pen α) :
    ∃ events events', p.trace f steps = .ok events ∧ q.trace f steps = .ok events' ∧
      (PenEvent.outlines events).2 = (PenEvent.outlines events').2 := by
  induction steps generalizing p q with
  | nil => exact ⟨[], [], rfl, rfl, rfl⟩
  | cons s steps ih =>
    obtain ⟨first, rest⟩ := List.forall_mem_cons.mp points
    obtain ⟨start, rfl⟩ | draws := moveTo_or_draws sampled first
    · -- From here on both pens are the same.
      let next : Pen α := ⟨start, start, .blank⟩
      obtain ⟨events, -, traced, -, -⟩ := ih rest next next
      have all (pen : Pen α) :
          pen.trace f (⟨false, .moveTo start⟩ :: steps) = .ok (.lifted start :: events) := by
        change (do return .lifted start :: (← next.trace f steps)) = Except.ok _
        rw [traced]
        rfl
      exact ⟨_, _, all p, all q, rfl⟩
    · obtain ⟨next, drawn, step⟩ := draws p
      obtain ⟨next', drawn', step'⟩ := draws q
      obtain ⟨events, events', traced, traced', same⟩ := ih rest next next'
      refine ⟨.drew drawn :: events, .drew drawn' :: events', ?_, ?_, same⟩
      · rw [trace, step]
        change (do return .drew drawn :: (← next.trace f steps)) = Except.ok _
        rw [traced]
        rfl
      · rw [trace, step']
        change (do return .drew drawn' :: (← next'.trace f steps)) = Except.ok _
        rw [traced']
        rfl

end Pen

/-! ## Numbers pair by pair -/

namespace Affine

/-- The map applied to coordinates pair by pair; a last number without a partner stays. -/
def numbers {α : Type} [Scalar α] (t : Affine α) : List α → List α
  | x :: y :: l => (t.apply ⟨x, y⟩).x :: (t.apply ⟨x, y⟩).y :: numbers t l
  | l => l

def group {α : Type} [Scalar α] (t : Affine α) (g : CommandGroup α) : CommandGroup α :=
  { g with args := t.numbers g.args }

variable (t : Affine ℝ)

theorem length_numbers (l : List ℝ) : (t.numbers l).length = l.length := by
  fun_induction t.numbers l with
  | case1 x y l ih => simp [ih]
  | case2 l => rfl

theorem take_numbers (k : ℕ) (l : List ℝ) :
    (t.numbers l).take (2 * k) = t.numbers (l.take (2 * k)) := by
  induction k generalizing l with
  | zero => rfl
  | succ k ih =>
    match l with
    | [] => rfl
    | [x] => rfl
    | x :: y :: l =>
      change _ :: _ :: (t.numbers l).take (2 * k) = t.numbers (x :: y :: l.take (2 * k))
      rw [ih, numbers]

theorem drop_numbers (k : ℕ) (l : List ℝ) :
    (t.numbers l).drop (2 * k) = t.numbers (l.drop (2 * k)) := by
  induction k generalizing l with
  | zero => rfl
  | succ k ih =>
    match l with
    | [] => rfl
    | [x] => rfl
    | x :: y :: l => exact ih l

/-- One argument set is mapped as the step it stands for. -/
theorem ofSet_numbers {c : PathCommand} (paired : c.verb ∈ PathVerb.paired) {l : List ℝ}
    (size : l.length = c.verb.arity) :
    PathStep.ofSet c (t.numbers l) = (PathStep.ofSet c l).map (PathStep.map t.apply) := by
  obtain ⟨verb, relative⟩ := c
  cases verb with
  | moveTo | lineTo | smoothQuadraticTo =>
    match l, size with
    | [x, y], _ => rfl
  | closePath =>
    match l, size with
    | [], _ => rfl
  | cubicTo =>
    match l, size with
    | [a, b, c, d, x, y], _ => rfl
  | smoothCubicTo | quadraticTo =>
    match l, size with
    | [c, d, x, y], _ => rfl
  | horizontalTo | verticalTo | arcTo => cases relative <;> exact absurd paired (by decide)

theorem ofGroup_group {g : CommandGroup ℝ} (paired : g.command.verb ∈ PathVerb.paired) :
    PathStep.ofGroup (t.group g) =
      (PathStep.ofGroup g).map (Except.map (PathStep.map t.apply)) := by
  obtain ⟨c, l⟩ := g
  obtain ⟨k, even⟩ : ∃ k, c.verb.arity = 2 * k := by
    have halved : ∀ verb ∈ PathVerb.paired, verb.arity = 2 * (verb.arity / 2) := by decide
    exact ⟨_, halved c.verb paired⟩
  refine PathStep.ofGroup_map t.length_numbers (fun l => ?_) (fun l => ?_)
    (fun verb member l size => ?_) l
  · rw [even, take_numbers]
  · rw [even, drop_numbers]
  · obtain rfl | repeats := List.mem_cons.mp member
    · exact t.ofSet_numbers paired size
    · obtain rfl := List.mem_singleton.mp repeats
      exact t.ofSet_numbers (PathVerb.repeated_mem_paired paired) size

end Affine

namespace PathStep

theorem byPoints_of_ofGroup {α : Type} [Scalar α] {g : CommandGroup α} {s : PathStep α}
    (absolute : g.command.relative = false) (paired : g.command.verb ∈ PathVerb.paired)
    (h : .ok s ∈ ofGroup g) : s.ByPoints := by
  rw [ofGroup_eq] at h
  obtain told | error := List.mem_append.mp h
  · obtain ⟨set, member, told⟩ := List.mem_map.mp told
    have size := length_of_mem_argumentSets member
    obtain eq | eq := command_of_mem_argumentSets member
    · rw [eq] at told size
      exact byPoints_of_ofSet absolute paired size told
    · have repeated := PathVerb.repeated_mem_paired paired
      rw [eq] at told size
      exact byPoints_of_ofSet (c := { g.command with verb := g.command.verb.repeated })
        absolute repeated size told
  · obtain ⟨e, -, error⟩ := List.mem_map.mp error
    cases error

end PathStep

/-- **A run.** The mapped steps have the images of the outlines. -/
theorem Affinity.outlines_steps (a : Affinity) {f : Flattening ℝ} {n : ℤ}
    (fixed : f.segments = some n) (counted : 1 ≤ n) {steps : List (PathStep ℝ)}
    (points : ∀ s ∈ steps, s.ByPoints) :
    ∃ events events', Pen.initial.trace f steps = .ok events ∧
      Pen.initial.trace f (steps.map (PathStep.map a.point)) = .ok events' ∧
      (PenEvent.outlines events').2 = (PenEvent.outlines events).2.map a.polyline := by
  have sampled := Flattening.exists_bezier_of_segments fixed counted
  have mapped : ∀ s ∈ steps.map (PathStep.map a.point), s.ByPoints := by
    intro s member
    obtain ⟨origin, given, rfl⟩ := List.mem_map.mp member
    exact (points origin given).map a.point
  obtain ⟨events, -, traced, -, -⟩ := Pen.trace_anywhere sampled points .initial .initial
  obtain ⟨here, there, fromHere, fromThere, same⟩ :=
    Pen.trace_anywhere sampled mapped .initial (a.pen .initial)
  have image : (a.pen .initial).trace f (steps.map (PathStep.map a.point)) =
      .ok (events.map a.event) := by
    rw [Pen.trace_map (S := PathStep.map a.point)
      fun s member => a.step_pen fixed (points s member), traced]
    rfl
  obtain rfl : events.map a.event = there := Except.ok.inj (image.symm.trans fromThere)
  exact ⟨events, here, traced, fromHere, by rw [same, a.outlines_map, Prod.map_snd]⟩

namespace PathDrawing

/-- Steps by points draw the same polylines mapped before or after. -/
theorem polylinesOf_map {f : Flattening ℝ} {n : ℤ} (fixed : f.segments = some n)
    (counted : 1 ≤ n) {t : Affine ℝ} (invertible : t.a * t.d - t.b * t.c ≠ 0)
    {steps : List (PathStep ℝ)} (points : ∀ s ∈ steps, s.ByPoints) :
    ∃ drawn, polylinesOf f ⟨t, false⟩ steps = .ok drawn ∧
      polylinesOf f ⟨.identity, false⟩ (steps.map (PathStep.map t.apply)) = .ok drawn := by
  let a := t.affinity invertible
  obtain ⟨events, events', traced, traced', outlines⟩ := a.outlines_steps fixed counted points
  have kept (l : Polyline ℝ) : (a.polyline l).isEmpty = l.isEmpty := List.isEmpty_map
  have finished (l : Polyline ℝ) :
      (a.polyline l).finalize .identity false = l.finalize t false := by
    change Polyline.transform ⟨t.apply l.start, l.rest.map t.apply, false⟩ .identity =
      Polyline.transform ⟨l.start, l.rest, false⟩ t
    rw [Polyline.transform_eq, Polyline.transform_eq, Affine.identity_apply, List.map_id]
    rfl
  refine ⟨_, by rw [polylinesOf, traced]; rfl, ?_⟩
  have traced' : Pen.initial.trace f (steps.map (PathStep.map t.apply)) = .ok events' := traced'
  rw [polylinesOf, traced']
  change Except.ok (List.map _ (List.filter _ (PenEvent.outlines events').2)) = _
  rw [outlines, List.filter_map, List.map_map]
  simp only [Function.comp_def, kept, finished]

/-- **Before or after.** In a fixed number of segments, a path of absolute commands by
points draws the same polylines under an invertible map as the path with the map applied
to its coordinates does as it is. Groups with a syntax error stop at the same one. Path
data draws what its groups draw (`ofString_eq_ofGroups`). -/
theorem ofGroups_transform (f : Flattening ℝ) {n : ℤ} (fixed : f.segments = some n)
    (counted : 1 ≤ n) (t : Affine ℝ) (invertible : t.a * t.d - t.b * t.c ≠ 0)
    (gs : List (CommandGroup ℝ))
    (paired : ∀ g ∈ gs, g.command.relative = false ∧ g.command.verb ∈ PathVerb.paired) :
    ∃ drawn, ofGroups f ⟨t, false⟩ gs = .ok drawn ∧
      ofGroups f ⟨.identity, false⟩ (gs.map t.group) = .ok drawn := by
  have rewritten : (gs.map t.group).flatMap PathStep.ofGroup =
      (gs.flatMap PathStep.ofGroup).map (Except.map (PathStep.map t.apply)) := by
    rw [List.flatMap_map, List.map_flatMap, List.flatMap_def, List.flatMap_def]
    exact congrArg List.flatten
      (List.map_congr_left fun g given => t.ofGroup_group (paired g given).2)
  have points : ∀ s ∈ (PathStep.untilError (gs.flatMap PathStep.ofGroup)).1, s.ByPoints := by
    intro s member
    obtain ⟨g, given, told⟩ := List.mem_flatMap.mp (PathStep.mem_of_mem_untilError member)
    obtain ⟨absolute, verb⟩ := paired g given
    exact PathStep.byPoints_of_ofGroup absolute verb told
  obtain ⟨drawn, after, before⟩ := polylinesOf_map fixed counted invertible points
  refine ⟨(drawn, (PathStep.untilError (gs.flatMap PathStep.ofGroup)).2), ?_, ?_⟩
  · simp only [ofGroups, after]
    rfl
  · simp only [ofGroups, rewritten, PathStep.untilError_map, before]
    rfl

/-- A shear that moves the origin, over every verb. -/
theorem ofGroups_transform_shear :
    (1 : ℤ) ≤ 4 ∧ (1 * 2 - 0 * 1 : ℝ) ≠ 0 ∧ ∃ drawn,
      ofGroups (α := ℝ) ⟨1, some 4, 0⟩ ⟨⟨1, 0, 1, 2, 3, 0⟩, false⟩
        [⟨⟨.moveTo, false⟩, [0, 0, 1, 1]⟩, ⟨⟨.cubicTo, false⟩, [1, 2, 2, 3, 4, 1]⟩,
          ⟨⟨.smoothCubicTo, false⟩, [7, 1, 7, 3]⟩, ⟨⟨.quadraticTo, false⟩, [5, 5, 3, 4]⟩,
          ⟨⟨.smoothQuadraticTo, false⟩, [2, 2]⟩, ⟨⟨.lineTo, false⟩, [2, 2, 6, 0]⟩,
          ⟨⟨.closePath, false⟩, []⟩] = .ok drawn ∧
      ofGroups ⟨1, some 4, 0⟩ ⟨.identity, false⟩
        [⟨⟨.moveTo, false⟩, [3, 0, 5, 2]⟩, ⟨⟨.cubicTo, false⟩, [6, 4, 8, 6, 8, 2]⟩,
          ⟨⟨.smoothCubicTo, false⟩, [11, 2, 13, 6]⟩, ⟨⟨.quadraticTo, false⟩, [13, 10, 10, 8]⟩,
          ⟨⟨.smoothQuadraticTo, false⟩, [7, 4]⟩, ⟨⟨.lineTo, false⟩, [7, 4, 9, 0]⟩,
          ⟨⟨.closePath, false⟩, []⟩] = .ok drawn := by
  obtain ⟨drawn, after, before⟩ := ofGroups_transform ⟨1, some 4, 0⟩ rfl (by decide)
    ⟨1, 0, 1, 2, 3, 0⟩ (by norm_num)
    [⟨⟨.moveTo, false⟩, [0, 0, 1, 1]⟩, ⟨⟨.cubicTo, false⟩, [1, 2, 2, 3, 4, 1]⟩,
      ⟨⟨.smoothCubicTo, false⟩, [7, 1, 7, 3]⟩, ⟨⟨.quadraticTo, false⟩, [5, 5, 3, 4]⟩,
      ⟨⟨.smoothQuadraticTo, false⟩, [2, 2]⟩, ⟨⟨.lineTo, false⟩, [2, 2, 6, 0]⟩,
      ⟨⟨.closePath, false⟩, []⟩] (by simp [PathVerb.paired])
  norm_num [Affine.group, Affine.numbers, Affine.apply] at before
  exact ⟨by decide, by norm_num, drawn, after, before⟩

end PathDrawing

end BoardPlotter
