import BoardPlotter.Proofs.Geometry.Rescaling
import BoardPlotter.Proofs.PathData.Affinity

/-!
# Paths in another unit and from another origin

A rescaling of the plane rewrites the numbers of a path by their role: absolute
coordinates are positions, relative ones and radii are measured in the unit, the turn
and the flags of an arc stay. The pen of the rewritten path is at every step at the
position of the pen of the path (`Rescaling.step_eq`), so both draw the same outlines
(`Rescaling.trace_eq`), one of them at its positions.

`PathDrawing.ofGroups_rescale`: brought back to points, the polylines are equal, vertex
by vertex, adaptively flattened curves included.
-/

namespace BoardPlotter

open Scalar

/-- What a number of an argument set stands for. -/
inductive ArgumentRole where
  | x
  | y
  | radius
  | other

/-- The roles of an argument set. -/
def PathVerb.roles : PathVerb → List ArgumentRole
  | moveTo | lineTo | smoothQuadraticTo => [.x, .y]
  | horizontalTo => [.x]
  | verticalTo => [.y]
  | closePath => []
  | cubicTo => [.x, .y, .x, .y, .x, .y]
  | smoothCubicTo | quadraticTo => [.x, .y, .x, .y]
  | arcTo => [.radius, .radius, .other, .other, .other, .x, .y]

namespace Rescaling

variable (r : Rescaling)

/-- A number of an argument set, by its role. -/
noncomputable def number (relative : Bool) : ArgumentRole → ℝ → ℝ
  | .x, a => if relative then a / r.unit else (a - r.origin.x) / r.unit
  | .y, a => if relative then a / r.unit else (a - r.origin.y) / r.unit
  | .radius, a => a / r.unit
  | .other, a => a

/-- The numbers of a command, any number of argument sets. -/
noncomputable def args (c : PathCommand) (args : List ℝ) : List ℝ :=
  args.mapIdx fun i a => r.number c.relative (c.verb.roles.getD (i % c.verb.arity) .other) a

noncomputable def group (g : CommandGroup ℝ) : CommandGroup ℝ :=
  { g with args := r.args g.command g.args }

noncomputable def flattening (f : Flattening ℝ) : Flattening ℝ :=
  { f with tolerance := f.tolerance / r.unit }

/-! ### Steps -/

/-- A given point, absolute or relative to the current one. -/
noncomputable def given (relative : Bool) (p : Point ℝ) : Point ℝ :=
  ⟨r.number relative .x p.x, r.number relative .y p.y⟩

noncomputable def motion (relative : Bool) : PathMotion ℝ → PathMotion ℝ
  | .moveTo p => .moveTo (r.given relative p)
  | .lineTo p => .lineTo (r.given relative p)
  | .horizontalTo x => .horizontalTo (r.number relative .x x)
  | .verticalTo y => .verticalTo (r.number relative .y y)
  | .closePath => .closePath
  | .cubicTo c₁ c₂ p => .cubicTo (r.given relative c₁) (r.given relative c₂) (r.given relative p)
  | .smoothCubicTo c₂ p => .smoothCubicTo (r.given relative c₂) (r.given relative p)
  | .quadraticTo c p => .quadraticTo (r.given relative c) (r.given relative p)
  | .smoothQuadraticTo p => .smoothQuadraticTo (r.given relative p)
  | .arcTo rx ry rotation large sweep p =>
    .arcTo (rx / r.unit) (ry / r.unit) rotation large sweep (r.given relative p)

noncomputable def pathStep (s : PathStep ℝ) : PathStep ℝ :=
  ⟨s.relative, r.motion s.relative s.motion⟩

theorem length_args (c : PathCommand) (l : List ℝ) : (r.args c l).length = l.length :=
  List.length_mapIdx

/-- One argument set is rewritten as the step it stands for. -/
theorem ofSet_args (c : PathCommand) {l : List ℝ} (h : l.length = c.verb.arity) :
    PathStep.ofSet c (r.args c l) = (PathStep.ofSet c l).map r.pathStep := by
  obtain ⟨verb, relative⟩ := c
  cases verb with
  | moveTo =>
    match l, h with
    | [x, y], _ => rfl
  | lineTo =>
    match l, h with
    | [x, y], _ => rfl
  | horizontalTo =>
    match l, h with
    | [x], _ => rfl
  | verticalTo =>
    match l, h with
    | [y], _ => rfl
  | closePath =>
    match l, h with
    | [], _ => rfl
  | cubicTo =>
    match l, h with
    | [a, b, c, d, x, y], _ => rfl
  | smoothCubicTo =>
    match l, h with
    | [c, d, x, y], _ => rfl
  | quadraticTo =>
    match l, h with
    | [a, b, x, y], _ => rfl
  | smoothQuadraticTo =>
    match l, h with
    | [x, y], _ => rfl
  | arcTo =>
    match l, h with
    | [rx, ry, rotation, large, sweep, x, y], _ =>
      let letter := (PathCommand.mk .arcTo relative).letter
      have turned : r.args ⟨.arcTo, relative⟩ [rx, ry, rotation, large, sweep, x, y] =
          [rx / r.unit, ry / r.unit, rotation, large, sweep, r.number relative .x x,
            r.number relative .y y] := rfl
      rw [turned, PathStep.ofSet, PathStep.ofSet, PathStep.motionOf, PathStep.motionOf]
      cases PathStep.flag letter "large-arc" large with
      | error e => rfl
      | ok l =>
        cases PathStep.flag letter "sweep" sweep with
        | error e => rfl
        | ok s => rfl

/-! ### Groups -/

theorem take_args (c : PathCommand) (n : ℕ) (l : List ℝ) :
    (r.args c l).take n = r.args c (l.take n) := by
  refine List.ext_getElem? fun i => ?_
  simp only [args, List.getElem?_take, List.getElem?_mapIdx]
  split <;> rfl

/-- The roles come again with every argument set. -/
theorem drop_args (c : PathCommand) (l : List ℝ) :
    (r.args c l).drop c.verb.arity = r.args c (l.drop c.verb.arity) := by
  refine List.ext_getElem? fun i => ?_
  simp only [args, List.getElem?_drop, List.getElem?_mapIdx, Nat.add_mod_left]

/-- A command and the one of its further argument sets have the same roles. -/
theorem args_repeated (c : PathCommand) (l : List ℝ) :
    r.args { c with verb := c.verb.repeated } l = r.args c l := by
  obtain ⟨verb, relative⟩ := c
  cases verb <;> rfl

theorem ofGroup_group (g : CommandGroup ℝ) :
    PathStep.ofGroup (r.group g) = (PathStep.ofGroup g).map (Except.map r.pathStep) := by
  obtain ⟨c, l⟩ := g
  refine PathStep.ofGroup_map (r.length_args c) (fun l => r.take_args c _ l) (r.drop_args c)
    (fun verb member l size => ?_) l
  obtain rfl | repeats := List.mem_cons.mp member
  · exact r.ofSet_args c size
  · obtain rfl := List.mem_singleton.mp repeats
    rw [← args_repeated]
    exact r.ofSet_args { c with verb := c.verb.repeated } size

/-! ### The pen -/

theorem position_add (x o d : ℝ) : (x - o) / r.unit + d / r.unit = (x + d - o) / r.unit := by
  ring

noncomputable def memory : CurveMemory ℝ → CurveMemory ℝ
  | .blank => .blank
  | .cubic c => .cubic (r.point c)
  | .quadratic c => .quadratic (r.point c)

noncomputable def pen (pen : Pen ℝ) : Pen ℝ :=
  ⟨r.point pen.current, r.point pen.subpathStart, r.memory pen.memory⟩

noncomputable def event : PenEvent ℝ → PenEvent ℝ
  | .lifted p => .lifted (r.point p)
  | .drew ps => .drew (ps.map r.point)

noncomputable def polyline (l : Polyline ℝ) : Polyline ℝ :=
  ⟨r.point l.start, l.rest.map r.point, l.fill⟩

theorem target_given (pen : Pen ℝ) (relative : Bool) (p : Point ℝ) :
    (r.pen pen).target relative (r.given relative p) = r.point (pen.target relative p) := by
  cases relative with
  | false => rfl
  | true => exact r.point_add_offset pen.current p

theorem line_pen (pen : Pen ℝ) (p : Point ℝ) :
    (r.pen pen).line (r.point p) = (pen.line p).map r.pen r.event :=
  r.affinity.line_pen pen p

theorem bezier_flattening {f : Flattening ℝ} (pos : 0 < f.tolerance) (control : List (Point ℝ)) :
    (r.flattening f).bezier (control.map r.point) = (f.bezier control).map (List.map r.point) := by
  obtain ⟨tolerance, segments, depth⟩ := f
  cases segments with
  | some n => exact r.affinity.bezier_sample control n
  | none => exact r.bezier_flatten control pos depth

theorem curve_pen {f : Flattening ℝ} (pos : 0 < f.tolerance) (pen : Pen ℝ)
    (control : List (Point ℝ)) (p : Point ℝ) (memory : CurveMemory ℝ) :
    (r.pen pen).curve (r.flattening f) (control.map r.point) (r.point p) (r.memory memory) =
      (pen.curve f control p memory).map (Prod.map r.pen r.event) :=
  r.affinity.curve_pen (r.bezier_flattening pos) pen control p memory

theorem arc_pen {f : Flattening ℝ} (pos : 0 < f.tolerance) (pen : Pen ℝ) (rx ry rotation : ℝ)
    (large sweep : Bool) (p : Point ℝ) :
    (r.pen pen).arc (r.flattening f) (rx / r.unit) (ry / r.unit) rotation large sweep (r.point p) =
      (pen.arc f rx ry rotation large sweep p).map (Prod.map r.pen r.event) := by
  let e : EndpointArc ℝ := ⟨pen.current, p, Scalar.abs rx, Scalar.abs ry, rotation, large, sweep⟩
  have moved : (EndpointArc.mk (r.pen pen).current (r.point p) (Scalar.abs rx / r.unit)
      (Scalar.abs ry / r.unit) rotation large sweep).flatten (r.flattening f).tolerance
        (r.flattening f).depth =
      (e.flatten f.tolerance f.depth).map (List.map r.point) := r.arc_flatten e pos f.depth
  simp only [Pen.arc, abs_div_unit, div_unit_beq_zero, moved, line_pen]
  split
  · rfl
  · exact r.affinity.drew_map pen p .blank _

theorem smoothCubic_pen (pen : Pen ℝ) : (r.pen pen).smoothCubic = r.point pen.smoothCubic :=
  r.affinity.smoothCubic_pen pen

theorem smoothQuadratic_pen (pen : Pen ℝ) :
    (r.pen pen).smoothQuadratic = r.point pen.smoothQuadratic :=
  r.affinity.smoothQuadratic_pen pen

/-- **One step.** From the position of the pen, the rewritten step draws the positions
of what the step draws, and leaves the pen at its position. -/
theorem step_eq {f : Flattening ℝ} (pos : 0 < f.tolerance) (pen : Pen ℝ) (s : PathStep ℝ) :
    (r.pen pen).step (r.flattening f) (r.pathStep s) =
      (pen.step f s).map (Prod.map r.pen r.event) := by
  obtain ⟨relative, motion⟩ := s
  have at_ (p : Point ℝ) := r.target_given pen relative p
  cases motion with
  | moveTo p =>
    simp only [Pen.step, pathStep, Rescaling.motion, at_]
    rfl
  | lineTo p =>
    simp only [Pen.step, pathStep, Rescaling.motion, at_, line_pen]
    rfl
  | horizontalTo x =>
    have p : (⟨if relative then (r.pen pen).current.x + r.number relative .x x
        else r.number relative .x x, (r.pen pen).current.y⟩ : Point ℝ) =
        r.point ⟨if relative then pen.current.x + x else x, pen.current.y⟩ := by
      cases relative with
      | false => rfl
      | true => exact Point.ext (r.position_add pen.current.x r.origin.x x) rfl
    exact congrArg Except.ok ((congrArg (r.pen pen).line p).trans (r.line_pen pen _))
  | verticalTo y =>
    have p : (⟨(r.pen pen).current.x, if relative then (r.pen pen).current.y +
        r.number relative .y y else r.number relative .y y⟩ : Point ℝ) =
        r.point ⟨pen.current.x, if relative then pen.current.y + y else y⟩ := by
      cases relative with
      | false => rfl
      | true => exact Point.ext rfl (r.position_add pen.current.y r.origin.y y)
    exact congrArg Except.ok ((congrArg (r.pen pen).line p).trans (r.line_pen pen _))
  | closePath => exact congrArg Except.ok (r.line_pen pen pen.subpathStart)
  | cubicTo c₁ c₂ p =>
    simp only [Pen.step, pathStep, Rescaling.motion, at_]
    exact r.curve_pen pos pen [pen.target relative c₁, pen.target relative c₂] _ (.cubic _)
  | smoothCubicTo c p =>
    simp only [Pen.step, pathStep, Rescaling.motion, at_, smoothCubic_pen]
    exact r.curve_pen pos pen [pen.smoothCubic, pen.target relative c] _ (.cubic _)
  | quadraticTo c p =>
    simp only [Pen.step, pathStep, Rescaling.motion, at_]
    exact r.curve_pen pos pen [pen.target relative c] _ (.quadratic _)
  | smoothQuadraticTo p =>
    simp only [Pen.step, pathStep, Rescaling.motion, at_, smoothQuadratic_pen]
    exact r.curve_pen pos pen [pen.smoothQuadratic] _ (.quadratic _)
  | arcTo rx ry rotation large sweep p =>
    simp only [Pen.step, pathStep, Rescaling.motion, at_, arc_pen r pos]

/-- **A run.** From the position of the pen, the rewritten steps draw the positions of
what the steps draw. -/
theorem trace_eq {f : Flattening ℝ} (pos : 0 < f.tolerance) (pen : Pen ℝ)
    (steps : List (PathStep ℝ)) :
    (r.pen pen).trace (r.flattening f) (steps.map r.pathStep) =
      (pen.trace f steps).map (List.map r.event) :=
  Pen.trace_map (fun s _ pen => r.step_eq pos pen s) pen

theorem outlines_map (events : List (PenEvent ℝ)) :
    PenEvent.outlines (events.map r.event) =
      Prod.map (List.map r.point) (List.map r.polyline) (PenEvent.outlines events) :=
  r.affinity.outlines_map events

/-- Brought back to points, the outlines are those of the path. -/
theorem finalize_polyline (l : Polyline ℝ) :
    (r.polyline l).finalize r.toPoint false = l.finalize .identity false := by
  have back : r.toPoint.apply ∘ r.point = id := funext r.toPoint_apply
  change Polyline.transform ⟨r.point l.start, l.rest.map r.point, false⟩ r.toPoint =
    Polyline.transform ⟨l.start, l.rest, false⟩ .identity
  rw [Polyline.transform_eq, Polyline.transform_eq, toPoint_apply, List.map_map, back,
    Affine.identity_apply]
  rfl

/-- Steps that begin at a given point draw the same polylines. -/
theorem polylinesOf_eq {f : Flattening ℝ} (pos : 0 < f.tolerance) {steps : List (PathStep ℝ)}
    (start : ∀ s ∈ steps.head?, ∃ p, s = ⟨false, .moveTo p⟩) :
    PathDrawing.polylinesOf (r.flattening f) ⟨r.toPoint, false⟩ (steps.map r.pathStep) =
      PathDrawing.polylinesOf f ⟨.identity, false⟩ steps := by
  -- The first step does not look at the pen, so it may as well be the rescaled one.
  have anyPen : Pen.initial.trace (r.flattening f) (steps.map r.pathStep) =
      (r.pen Pen.initial).trace (r.flattening f) (steps.map r.pathStep) := by
    cases steps with
    | nil => rfl
    | cons s steps =>
      obtain ⟨p, rfl⟩ := start s rfl
      rfl
  rw [PathDrawing.polylinesOf, anyPen, trace_eq r pos, PathDrawing.polylinesOf]
  cases Pen.initial.trace f steps with
  | error e => rfl
  | ok events =>
    have drawn (l : Polyline ℝ) : (r.polyline l).isEmpty = l.isEmpty := List.isEmpty_map
    change Except.ok (List.map _ (List.filter _ (PenEvent.outlines (events.map r.event)).2)) =
      Except.ok (List.map _ (List.filter _ (PenEvent.outlines events).2))
    rw [outlines_map, Prod.map_snd, List.filter_map, List.map_map]
    simp only [Function.comp_def, drawn, finalize_polyline]

end Rescaling

/-- Over the reals every arc can be flattened, so every path is drawn. -/
theorem Pen.exists_trace {f : Flattening ℝ} (pos : 0 < f.tolerance)
    (counted : ∀ n ∈ f.segments, 1 ≤ n) (pen : Pen ℝ) (steps : List (PathStep ℝ)) :
    ∃ events, pen.trace f steps = .ok events := by
  obtain traced | ⟨arc, -, e, failed, -⟩ := Pen.trace_returns ⟨pos, counted⟩ pen steps
  · exact traced
  · rw [Exact.flatten_eq _ pos] at failed
    cases failed

namespace PathDrawing

/-- **Another unit and origin.** A path that begins with an absolute moveto draws the
same polylines if its numbers are positions and measures, its tolerance is given in the
unit, and the positions are brought back to points. In exact arithmetic it draws them
whatever its numbers are. Path data draws what its groups draw (`ofString_eq_ofGroups`). -/
theorem ofGroups_rescale (r : Rescaling) (f : Flattening ℝ) (pos : 0 < f.tolerance)
    (first : List ℝ) (gs : List (CommandGroup ℝ)) :
    ofGroups (r.flattening f) ⟨r.toPoint, false⟩
        ((⟨⟨.moveTo, false⟩, first⟩ :: gs).map r.group) =
      ofGroups f ⟨.identity, false⟩ (⟨⟨.moveTo, false⟩, first⟩ :: gs) ∧
    ((∀ n ∈ f.segments, 1 ≤ n) → ∃ drawn,
      ofGroups f ⟨.identity, false⟩ (⟨⟨.moveTo, false⟩, first⟩ :: gs) = .ok drawn) := by
  let path : List (CommandGroup ℝ) := ⟨⟨.moveTo, false⟩, first⟩ :: gs
  have rewritten : (path.map r.group).flatMap PathStep.ofGroup =
      (path.flatMap PathStep.ofGroup).map (Except.map r.pathStep) := by
    rw [List.flatMap_map, List.map_flatMap]
    simp only [Rescaling.ofGroup_group]
  have start : ∀ s ∈ (PathStep.untilError (path.flatMap PathStep.ofGroup)).1.head?,
      ∃ p, s = ⟨false, .moveTo p⟩ := by
    rw [List.flatMap_cons]
    exact PathStep.head_untilError_moveTo first _
  constructor
  · change ofGroups (r.flattening f) _ (path.map r.group) = ofGroups f _ path
    rw [ofGroups, ofGroups, rewritten, PathStep.untilError_map]
    simp only [r.polylinesOf_eq pos start]
  · intro counted
    obtain ⟨events, trace⟩ := Pen.exists_trace pos counted Pen.initial
      (PathStep.untilError (path.flatMap PathStep.ofGroup)).1
    change ∃ drawn, ofGroups f _ path = .ok drawn
    simp only [ofGroups, polylinesOf, trace]
    exact ⟨_, rfl⟩

/-- Every verb, measured from (1, 3) in the unit 2. -/
theorem ofGroups_rescale_doubled :
    ofGroups (α := ℝ) ⟨1 / 20, none, 16⟩ ⟨(Affine.translate 1 3).comp (Affine.scale 2 2), false⟩
      [⟨⟨.moveTo, false⟩, [0, 0, 1, 1]⟩, ⟨⟨.horizontalTo, false⟩, [2]⟩,
        ⟨⟨.verticalTo, true⟩, [3]⟩, ⟨⟨.cubicTo, true⟩, [1, 1, 2, 1, 3, 0]⟩,
        ⟨⟨.smoothCubicTo, false⟩, [4, 2, 5, 5]⟩, ⟨⟨.quadraticTo, true⟩, [1, 1, 2, 0]⟩,
        ⟨⟨.smoothQuadraticTo, false⟩, [7, 8]⟩,
        ⟨⟨.arcTo, true⟩, [3, 2, 30, 1, 0, 2, 5]⟩, ⟨⟨.closePath, false⟩, []⟩] =
    ofGroups ⟨1 / 10, none, 16⟩ ⟨.identity, false⟩
      [⟨⟨.moveTo, false⟩, [1, 3, 3, 5]⟩, ⟨⟨.horizontalTo, false⟩, [5]⟩,
        ⟨⟨.verticalTo, true⟩, [6]⟩, ⟨⟨.cubicTo, true⟩, [2, 2, 4, 2, 6, 0]⟩,
        ⟨⟨.smoothCubicTo, false⟩, [9, 7, 11, 13]⟩, ⟨⟨.quadraticTo, true⟩, [2, 2, 4, 0]⟩,
        ⟨⟨.smoothQuadraticTo, false⟩, [15, 19]⟩,
        ⟨⟨.arcTo, true⟩, [6, 4, 30, 1, 0, 4, 10]⟩, ⟨⟨.closePath, false⟩, []⟩] := by
  have main := (ofGroups_rescale ⟨2, ⟨1, 3⟩, two_pos⟩ ⟨1 / 10, none, 16⟩ (by norm_num) [1, 3, 3, 5]
      [⟨⟨.horizontalTo, false⟩, [5]⟩,
        ⟨⟨.verticalTo, true⟩, [6]⟩, ⟨⟨.cubicTo, true⟩, [2, 2, 4, 2, 6, 0]⟩,
        ⟨⟨.smoothCubicTo, false⟩, [9, 7, 11, 13]⟩, ⟨⟨.quadraticTo, true⟩, [2, 2, 4, 0]⟩,
        ⟨⟨.smoothQuadraticTo, false⟩, [15, 19]⟩,
        ⟨⟨.arcTo, true⟩, [6, 4, 30, 1, 0, 4, 10]⟩, ⟨⟨.closePath, false⟩, []⟩]).1
  norm_num [Rescaling.group, Rescaling.args, Rescaling.flattening, Rescaling.toPoint,
    PathVerb.roles, PathVerb.arity, Rescaling.number] at main
  exact main

end PathDrawing

end BoardPlotter
