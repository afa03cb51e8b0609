import BoardPlotter.Proofs.Except
import BoardPlotter.Proofs.Geometry.Subdivision
import BoardPlotter.Proofs.PathData.Rescaling
import BoardPlotter.Proofs.PathData.Tracer
import Mathlib.Data.List.Forall2

/-!
# The pen and its outline

A step moves the pen and draws vertices, each in its own way: a line of no length and a curve
whose control points coincide draw none, and curves and arcs leave out their first sample. In
exact arithmetic the two still agree: the last vertex drawn is where the pen is, and where none
is drawn the pen has not moved (`Pen.moves_of_step`).

`Tracer.follows_pen`: the outline being drawn starts where the subpath does and ends at the
pen, after every step. So the outlines that are kept are those of the movetos behind which a
vertex is drawn.
-/

namespace BoardPlotter

open Scalar

/-! ## Curves end where they should -/

namespace ControlPolygon

/-- Coinciding control points are all the first one. -/
theorem last_of_isDegenerate {c : ControlPolygon ℝ} (h : c.isDegenerate = true) :
    c.last = c.first := by
  obtain ⟨first, rest⟩ := c
  induction rest generalizing first with
  | nil => rfl
  | cons p ps ih =>
    obtain ⟨near, later⟩ := Bool.and_eq_true_iff.mp h
    obtain rfl : p = first := Point.sub_lengthSquared_eq_zero_iff.mp (beq_iff_eq.mp near)
    have rest := ih p later
    rw [last] at rest ⊢
    rw [List.getLast?_cons]
    exact rest

end ControlPolygon

/-- Behind its first point, a flattened curve ends at the last control point. -/
theorem Flattening.getLast?_bezier {f : Flattening ℝ} {p : Point ℝ} {ps points : List (Point ℝ)}
    (h : f.bezier (p :: ps) = .ok points) :
    (points.drop 1).getLast? = some (ControlPolygon.mk p ps).last := by
  rw [bezier] at h
  split at h
  · rw [Bezier.sample] at h
    split at h
    · cases h
    · cases h
      simp [ControlPolygon.sample]
  · rw [Bezier.flatten, checkTolerance] at h
    split at h
    · rename_i pos
      change ControlPolygon.flatten ⟨p, ps⟩ _ _ = _ at h
      rw [ControlPolygon.flatten, checkTolerance, if_pos pos] at h
      cases h
      exact ControlPolygon.getLast?_flattenFrom _ _ _
    · cases h

/-- Behind its first point, a flattened arc ends at its second end, or has nothing if the ends
coincide. -/
theorem EndpointArc.getLast?_flatten {e : EndpointArc ℝ} {tolerance : ℝ} {depth : ℤ}
    {points : List (Point ℝ)} (h : e.flatten tolerance depth = .ok points) :
    (points.drop 1).getLast?.getD e.p₁ = e.p₂ := by
  have pos : 0 < tolerance := by
    by_contra notPos
    rw [flatten_eq, if_neg notPos] at h
    cases h
  rw [Exact.flatten_eq e pos] at h
  obtain rfl := Except.ok.inj h
  split
  · rename_i closed
    exact (Point.beq_iff _ _).mp closed
  · split
    · rfl
    · rw [samples, List.cons_append, List.cons_append, List.drop_one, List.tail_cons,
        List.getLast?_append]
      rfl

/-! ## Steps -/

def PathStep.isMoveTo {α : Type} (s : PathStep α) : Bool :=
  match s.motion with
  | .moveTo _ => true
  | _ => false

namespace Pen

/-- What a step does in exact arithmetic: begin a subpath, or draw to where it leaves the
pen. -/
inductive Moves (pen : Pen ℝ) : PathStep ℝ → Pen ℝ → PenEvent ℝ → Prop
  | lift (relative : Bool) (p : Point ℝ) :
      Moves pen ⟨relative, .moveTo p⟩
        ⟨pen.target relative p, pen.target relative p, .blank⟩ (.lifted (pen.target relative p))
  | draw {s : PathStep ℝ} {next : Pen ℝ} {points : List (Point ℝ)} : s.isMoveTo = false →
      next.subpathStart = pen.subpathStart → next.current = points.getLast?.getD pen.current →
      (s.motion = .closePath → next.current = pen.subpathStart) → Moves pen s next (.drew points)

variable {pen next : Pen ℝ} {f : Flattening ℝ} {s : PathStep ℝ} {event : PenEvent ℝ}

theorem moves_of_line {p : Point ℝ} (draws : s.isMoveTo = false)
    (closes : s.motion = .closePath → p = pen.subpathStart) :
    pen.Moves s (pen.line p).1 (pen.line p).2 := by
  refine .draw draws rfl ?_ closes
  split
  · rename_i still
    exact Point.sub_lengthSquared_eq_zero_iff.mp (beq_iff_eq.mp still)
  · rfl

theorem moves_of_curve {control : List (Point ℝ)} {p : Point ℝ} {memory : CurveMemory ℝ}
    (draws : s.isMoveTo = false) (open_ : s.motion ≠ .closePath)
    (h : pen.curve f control p memory = .ok (next, event)) : pen.Moves s next event := by
  have polygon : (ControlPolygon.mk pen.current (control ++ [p])).last = p := by
    simp [ControlPolygon.last]
  rw [curve] at h
  split at h
  · rename_i degenerate
    cases h
    have still : p = pen.current := by
      rw [← polygon]
      exact ControlPolygon.last_of_isDegenerate degenerate
    exact .draw draws rfl still fun closes => absurd closes open_
  · obtain ⟨points, drawn, returned⟩ := Except.bind_eq_ok_iff.mp h
    cases returned
    have last : (points.drop 1).getLast? =
        some (ControlPolygon.mk pen.current (control ++ [p])).last :=
      Flattening.getLast?_bezier drawn
    rw [polygon] at last
    refine .draw draws rfl ?_ fun closes => absurd closes open_
    rw [last]
    rfl

theorem moves_of_arc {rx ry rotation : ℝ} {large sweep : Bool} {p : Point ℝ}
    (draws : s.isMoveTo = false) (open_ : s.motion ≠ .closePath)
    (h : pen.arc f rx ry rotation large sweep p = .ok (next, event)) :
    pen.Moves s next event := by
  rw [arc] at h
  split at h
  · cases h
    exact moves_of_line draws fun closes => absurd closes open_
  · obtain ⟨points, drawn, returned⟩ := Except.bind_eq_ok_iff.mp h
    cases returned
    exact .draw draws rfl (EndpointArc.getLast?_flatten drawn).symm
      fun closes => absurd closes open_

/-- **One step.** A step begins a subpath, or the last vertex it draws is where the pen is. -/
theorem moves_of_step (h : pen.step f s = .ok (next, event)) : pen.Moves s next event := by
  obtain ⟨relative, motion⟩ := s
  cases motion with
  | moveTo p =>
    cases h
    exact .lift relative p
  | lineTo | horizontalTo | verticalTo =>
    cases h
    exact moves_of_line rfl nofun
  | closePath =>
    cases h
    exact moves_of_line rfl fun _ => rfl
  | cubicTo | smoothCubicTo | quadraticTo | smoothQuadraticTo => exact moves_of_curve rfl nofun h
  | arcTo => exact moves_of_arc rfl nofun h

end Pen

/-! ## Outlines -/

theorem Polyline.last_append {α : Type} (l : Polyline α) (ps : List (Point α)) :
    (l.append ps).last = ps.getLast?.getD l.last := by
  rw [append, last, last, List.getLast?_append]
  cases ps.getLast? <;> rfl

namespace Tracer

/-- The outline being drawn starts where the subpath does and ends at the pen. -/
structure FollowsPen (p : Tracer ℝ) : Prop where
  start : ∀ l ∈ p.outline, l.start = p.pen.subpathStart
  last : ∀ l ∈ p.outline, l.last = p.pen.current

variable {f : Flattening ℝ} {finish : Finish ℝ} {p q : Tracer ℝ} {s : PathStep ℝ}

/-- A step that is carried out moves the pen and is noted down. -/
theorem moves_of_apply (h : p.apply f finish s = .ok q) :
    ∃ next event, p.pen.Moves s next event ∧ q.pen = next ∧
      q.outline = (p.note finish event).outline := by
  rw [apply] at h
  obtain ⟨⟨next, event⟩, step, returned⟩ := Except.bind_eq_ok_iff.mp h
  cases returned
  exact ⟨next, event, Pen.moves_of_step step, rfl, rfl⟩

/-- A moveto begins an outline, and any other step keeps it. -/
theorem isSome_outline_of_apply (h : p.apply f finish s = .ok q) :
    q.outline.isSome ↔ p.outline.isSome ∨ s.isMoveTo = true := by
  obtain ⟨next, event, moves, -, outline⟩ := moves_of_apply h
  rw [outline]
  cases moves with
  | lift relative p => simp [note, PathStep.isMoveTo]
  | draw draws => simp [note, draws]

/-- **One step.** What follows the pen follows it through any step. -/
theorem FollowsPen.apply (follows : p.FollowsPen) (h : p.apply f finish s = .ok q) :
    q.FollowsPen := by
  obtain ⟨next, event, moves, pen, outline⟩ := moves_of_apply h
  cases moves with
  | lift relative t =>
    constructor
    · intro l drawn
      rw [outline] at drawn
      cases drawn
      rw [pen]
    · intro l drawn
      rw [outline] at drawn
      cases drawn
      rw [pen]
      rfl
  | draw draws start last closes =>
    constructor
    · intro l drawn
      rw [outline] at drawn
      obtain ⟨l', before, rfl⟩ := Option.map_eq_some_iff.mp drawn
      rw [pen, start]
      exact follows.start l' before
    · intro l drawn
      rw [outline] at drawn
      obtain ⟨l', before, rfl⟩ := Option.map_eq_some_iff.mp drawn
      rw [pen, last, Polyline.last_append, follows.last l' before]

/-- **A run.** So it does through any steps, and is begun by the first moveto. -/
theorem FollowsPen.foldlM (follows : p.FollowsPen) {steps : List (PathStep ℝ)}
    (h : steps.foldlM (Tracer.apply f finish) p = .ok q) :
    q.FollowsPen ∧
      (q.outline.isSome ↔ p.outline.isSome ∨ ∃ s ∈ steps, s.isMoveTo = true) := by
  induction steps generalizing p with
  | nil =>
    cases h
    exact ⟨follows, by simp⟩
  | cons s steps ih =>
    rw [List.foldlM_cons] at h
    obtain ⟨next, first, later⟩ := Except.bind_eq_ok_iff.mp h
    obtain ⟨kept, begun⟩ := ih (follows.apply first) later
    refine ⟨kept, ?_⟩
    rw [begun, isSome_outline_of_apply first, or_assoc, List.exists_mem_cons_iff]

end Tracer

/-! ## Subpaths -/

namespace Pen

/-- The movetos among steps: where each leads, and the steps behind it up to the next one. -/
def subpaths {α : Type} [Scalar α] : Pen α → List (PathStep α) →
    List (Point α × List (PathStep α))
  | _, [] => []
  | pen, s :: ss =>
    let later := subpaths (pen.next s) ss
    match s.motion with
    | .moveTo p => (pen.target s.relative p, ss.takeWhile (!·.isMoveTo)) :: later
    | _ => later

end Pen

/-- The outline of a moveto and the steps behind it: it has the vertices that these draw, and
ends where they leave the pen. -/
structure Polyline.DrawnBy (f : Flattening ℝ) (subpath : Point ℝ × List (PathStep ℝ))
    (l : Polyline ℝ) : Prop where
  start : l.start = subpath.1
  vertices : ∃ events, (Pen.mk subpath.1 subpath.1 .blank).trace f subpath.2 = .ok events ∧
    l.rest = (PenEvent.outlines events).1
  last : l.last = (subpath.2.foldl Pen.next (Pen.mk subpath.1 subpath.1 .blank)).current
  closed : ∀ s ∈ subpath.2.getLast?, s.motion = .closePath → l.last = l.start

namespace Pen

variable {pen : Pen ℝ} {f : Flattening ℝ}

theorem trace_cons_eq_ok_iff {s : PathStep ℝ} {steps : List (PathStep ℝ)}
    {events : List (PenEvent ℝ)} :
    pen.trace f (s :: steps) = .ok events ↔
      ∃ event later, pen.step f s = .ok (pen.next s, event) ∧
        (pen.next s).trace f steps = .ok later ∧ events = event :: later := by
  rw [trace, Except.bind_eq_ok_iff]
  constructor
  · rintro ⟨⟨next, event⟩, step, rest⟩
    obtain rfl := pen_of_step step
    obtain ⟨later, traced, returned⟩ := Except.bind_eq_ok_iff.mp rest
    cases returned
    exact ⟨event, later, step, traced, rfl⟩
  · rintro ⟨event, later, step, traced, rfl⟩
    exact ⟨_, step, Except.bind_eq_ok_iff.mpr ⟨later, traced, rfl⟩⟩

/-- **Between movetos.** Steps that begin no subpath keep its start, and the last vertex they
draw is where they leave the pen. A closepath leaves it at the start. -/
theorem draws_of_trace {steps : List (PathStep ℝ)} {events : List (PenEvent ℝ)}
    (draw : ∀ s ∈ steps, s.isMoveTo = false) (h : pen.trace f steps = .ok events) :
    (steps.foldl next pen).subpathStart = pen.subpathStart ∧
      (steps.foldl next pen).current =
        (PenEvent.outlines events).1.getLast?.getD pen.current ∧
      ∀ s ∈ steps.getLast?, s.motion = .closePath →
        (steps.foldl next pen).current = pen.subpathStart := by
  induction steps generalizing pen events with
  | nil =>
    cases h
    exact ⟨rfl, rfl, nofun⟩
  | cons s steps ih =>
    obtain ⟨event, later, step, traced, rfl⟩ := trace_cons_eq_ok_iff.mp h
    obtain ⟨first, rest⟩ := List.forall_mem_cons.mp draw
    obtain ⟨start, last, closed⟩ := ih rest traced
    have moves := moves_of_step step
    simp only [List.foldl_cons]
    generalize pen.next s = after at moves start last closed
    cases moves with
    | lift => cases first
    | @draw _ _ points _ start' last' closes =>
      refine ⟨start.trans start', ?_, ?_⟩
      · rw [PenEvent.outlines, List.getLast?_append, last, last']
        cases (PenEvent.outlines later).1.getLast? <;> rfl
      · intro s' final closing
        cases steps with
        | nil =>
          obtain rfl := Option.some.inj final
          exact closes closing
        | cons s'' steps => exact (closed s' final closing).trans start'

/-- The vertices before the next moveto are drawn by the steps before it. -/
theorem trace_takeWhile {steps : List (PathStep ℝ)} {events : List (PenEvent ℝ)}
    (h : pen.trace f steps = .ok events) :
    ∃ own, pen.trace f (steps.takeWhile (!·.isMoveTo)) = .ok own ∧
      (PenEvent.outlines own).1 = (PenEvent.outlines events).1 := by
  induction steps generalizing pen events with
  | nil =>
    cases h
    exact ⟨[], rfl, rfl⟩
  | cons s steps ih =>
    obtain ⟨event, later, step, traced, rfl⟩ := trace_cons_eq_ok_iff.mp h
    have moves := moves_of_step step
    generalize after : pen.next s = left at moves
    cases moves with
    | lift relative p => exact ⟨[], rfl, rfl⟩
    | @draw _ _ points draws =>
      obtain ⟨own, drawn, same⟩ := ih traced
      rw [List.takeWhile_cons_of_pos (by simp [draws])]
      refine ⟨_, trace_cons_eq_ok_iff.mpr ⟨_, own, step, drawn, rfl⟩, ?_⟩
      simp only [PenEvent.outlines, same]

theorem subpaths_cons_of_draws {s : PathStep ℝ} (draws : s.isMoveTo = false)
    (steps : List (PathStep ℝ)) : pen.subpaths (s :: steps) = (pen.next s).subpaths steps := by
  obtain ⟨relative, motion⟩ := s
  cases motion with
  | moveTo p => cases draws
  | _ => rfl

/-- **Outlines.** Each moveto has its outline, in order. -/
theorem forall₂_outlines {steps : List (PathStep ℝ)} {events : List (PenEvent ℝ)}
    (h : pen.trace f steps = .ok events) :
    List.Forall₂ (Polyline.DrawnBy f) (pen.subpaths steps) (PenEvent.outlines events).2 := by
  induction steps generalizing pen events with
  | nil =>
    cases h
    exact .nil
  | cons s steps ih =>
    obtain ⟨event, later, step, traced, rfl⟩ := trace_cons_eq_ok_iff.mp h
    have moves := moves_of_step step
    generalize after : pen.next s = left at moves
    cases moves with
    | lift relative p =>
      obtain ⟨own, drawn, same⟩ := trace_takeWhile traced
      have draw : ∀ s ∈ steps.takeWhile (!·.isMoveTo), s.isMoveTo = false := by
        intro s member
        simpa using List.all_eq_true.mp List.all_takeWhile s member
      obtain ⟨-, last, closed⟩ := draws_of_trace draw drawn
      rw [same] at last
      exact .cons ⟨rfl, ⟨own, drawn, same.symm⟩, last.symm,
        fun s final closes => last.symm.trans (closed s final closes)⟩ (ih traced)
    | @draw _ _ points draws =>
      rw [subpaths_cons_of_draws draws]
      change List.Forall₂ _ _ (PenEvent.outlines later).2
      exact ih traced

end Pen

namespace Tracer

variable {f : Flattening ℝ} {finish : Finish ℝ} {steps : List (PathStep ℝ)}

theorem foldlM_of_execute {p q : Tracer ℝ} {results : List (Except (PathError ℝ) (PathStep ℝ))}
    {error : Option (PathError ℝ)} (h : p.execute f finish results = .ok (q, error)) :
    (PathStep.untilError results).1.foldlM (Tracer.apply f finish) p = .ok q := by
  rw [execute_eq] at h
  obtain ⟨last, carried, returned⟩ := Except.bind_eq_ok_iff.mp h
  cases returned
  exact carried

/-- Steps that are carried out finish the outlines of their trace. -/
theorem finished_of_foldlM {p : Tracer ℝ}
    (h : steps.foldlM (Tracer.apply f finish) idle = .ok p) :
    ∃ events, Pen.initial.trace f steps = .ok events ∧
      (p.lift finish).finished = kept finish (PenEvent.outlines events).2 := by
  have drawn := foldlM_apply f finish idle steps
  rw [h] at drawn
  obtain ⟨events, traced, returned⟩ := Except.bind_eq_ok_iff.mp drawn.symm
  refine ⟨events, traced, (Except.ok.inj returned).symm.trans ?_⟩
  exact finished_foldl_note finish idle events

theorem exists_foldlM (pos : 0 < f.tolerance) (counted : ∀ n ∈ f.segments, 1 ≤ n)
    (finish : Finish ℝ) (steps : List (PathStep ℝ)) :
    ∃ p, steps.foldlM (Tracer.apply f finish) idle = .ok p := by
  obtain ⟨events, traced⟩ := Pen.exists_trace pos counted Pen.initial steps
  have returned : _ = Except.ok _ := (foldlM_apply f finish idle steps).trans
    (Except.bind_eq_ok_iff.mpr ⟨events, traced, rfl⟩)
  obtain ⟨p, run, -⟩ := Except.bind_eq_ok_iff.mp returned
  exact ⟨p, run⟩

/-- **Pen and outline.** In exact arithmetic and with a tolerance above zero, an outline is
being drawn after any of the steps of groups just if one of these was a moveto; it starts
where the subpath does and ends at the pen. Each moveto has its outline, which starts where it
leads, has the vertices drawn before the next one, and is closed if the last step of these was
a closepath. Those with a vertex behind their start are kept, in order. Only a number of
segments below one can stop the run. -/
theorem follows_pen {f : Flattening ℝ} (pos : 0 < f.tolerance) (finish : Finish ℝ)
    (gs : List (CommandGroup ℝ)) :
    let results := gs.flatMap PathStep.ofGroup
    let steps := (PathStep.untilError results).1
    (∀ done p, done <+: steps → done.foldlM (Tracer.apply f finish) idle = .ok p →
        p.FollowsPen ∧ (p.outline.isSome ↔ ∃ s ∈ done, s.isMoveTo = true)) ∧
      (∀ p error, execute f finish idle results = .ok (p, error) →
        ∃ outlines, List.Forall₂ (Polyline.DrawnBy f) (Pen.initial.subpaths steps) outlines ∧
          (p.lift finish).finished = (outlines.filter fun l => !l.isEmpty).map
            (fun l => l.finalize finish.transform finish.fill) ∧
          ∀ l ∈ outlines.filter fun l => !l.isEmpty, 2 ≤ l.size) ∧
      ((∀ n ∈ f.segments, 1 ≤ n) →
        (∃ p error, execute f finish idle results = .ok (p, error)) ∧
          ∀ done, done <+: steps → ∃ p, done.foldlM (Tracer.apply f finish) idle = .ok p) := by
  intro results steps
  have idle_ : (idle : Tracer ℝ).FollowsPen := ⟨nofun, nofun⟩
  refine ⟨?_, ?_, ?_⟩
  · intro done p _ carried
    obtain ⟨follows, begun⟩ := idle_.foldlM carried
    exact ⟨follows, by simpa [idle] using begun⟩
  · intro p error run
    obtain ⟨events, traced, finished⟩ := finished_of_foldlM (foldlM_of_execute run)
    refine ⟨_, Pen.forall₂_outlines traced, finished, ?_⟩
    intro l member
    have vertex : l.rest ≠ [] := by simpa [Polyline.isEmpty] using (List.mem_filter.mp member).2
    have size := List.length_pos_iff.mpr vertex
    rw [Polyline.size]
    omega
  · intro counted
    refine ⟨?_, fun done _ => exists_foldlM pos counted finish done⟩
    obtain ⟨p, carried⟩ := exists_foldlM pos counted finish steps
    refine ⟨p, (PathStep.untilError results).2, ?_⟩
    rw [execute_eq, carried]
    rfl

/-- A closepath behind two lines, then a moveto that draws nothing. -/
theorem follows_pen_triangle :
    let f : Flattening ℝ := ⟨1 / 10, none, 16⟩
    let finish : Finish ℝ := ⟨.identity, false⟩
    let drawn : List (PathStep ℝ) :=
      [⟨true, .horizontalTo 3⟩, ⟨false, .lineTo ⟨4, 6⟩⟩, ⟨false, .closePath⟩]
    let results := List.flatMap PathStep.ofGroup
      [⟨⟨.moveTo, false⟩, [1, 2]⟩, ⟨⟨.horizontalTo, true⟩, [3]⟩, ⟨⟨.lineTo, false⟩, [4, 6]⟩,
        ⟨⟨.closePath, false⟩, []⟩, ⟨⟨.moveTo, false⟩, [9, 9]⟩]
    0 < f.tolerance ∧ (∀ n ∈ f.segments, 1 ≤ n) ∧
      ∃ p error outlines, execute f finish idle results = .ok (p, error) ∧
        List.Forall₂ (Polyline.DrawnBy f) [(⟨1, 2⟩, drawn), (⟨9, 9⟩, [])] outlines ∧
        p.FollowsPen := by
  intro f finish drawn results
  have pos : 0 < f.tolerance := by
    change (0 : ℝ) < 1 / 10
    norm_num
  have counted : ∀ n ∈ f.segments, 1 ≤ n := nofun
  obtain ⟨follows, outlined, returns⟩ := follows_pen pos finish
    [⟨⟨.moveTo, false⟩, [1, 2]⟩, ⟨⟨.horizontalTo, true⟩, [3]⟩, ⟨⟨.lineTo, false⟩, [4, 6]⟩,
      ⟨⟨.closePath, false⟩, []⟩, ⟨⟨.moveTo, false⟩, [9, 9]⟩]
  obtain ⟨⟨p, error, run⟩, -⟩ := returns counted
  obtain ⟨outlines, each, -⟩ := outlined p error run
  have carried := foldlM_of_execute run
  exact ⟨pos, counted, p, error, outlines, run, each, (follows _ p List.prefix_rfl carried).1⟩

end Tracer

end BoardPlotter
