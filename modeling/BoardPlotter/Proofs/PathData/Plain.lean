import BoardPlotter.Scalar.Double
import BoardPlotter.Svg.PathData.Pen

/-!
# Plain paths

A path is plain when every group is an absolute moveto, lineto, cubic,
quadratic or arc with one argument set. `desugar` rewrites any groups step by
step into plain ones. It looks at nothing but the groups already written: the
current point is where the last of them ends, the subpath starts at the last
moveto, and a smooth curve reflects the control point of the group before it if
that is of its family.

`ofGroups_desugar`: the plain path draws the same polylines, number for number
and whatever the arithmetic. The pen of the one run is at every step the pen of
the other (`step_plain?`), and it can be read off the plain steps (`penAfter`).

What is said of groups holds of path data: unless there is an error in reading it, it
draws what its groups draw (`PathDrawing.ofString_eq_ofGroups`).
-/

namespace BoardPlotter

/-- A step of a plain path. The numbers of an arc stay as they were given. -/
inductive PlainStep (α : Type) where
  | moveTo (p : Point α)
  | lineTo (p : Point α)
  | cubicTo (c₁ c₂ p : Point α)
  | quadraticTo (c p : Point α)
  | arcTo (rx ry rotation large sweep : α) (p : Point α)
  deriving DecidableEq, Repr

namespace PlainStep

variable {α : Type}

def target : PlainStep α → Point α
  | moveTo p | lineTo p | cubicTo _ _ p | quadraticTo _ p | arcTo _ _ _ _ _ p => p

/-- The step as a group of one argument set. -/
def group : PlainStep α → CommandGroup α
  | moveTo p => ⟨⟨.moveTo, false⟩, [p.x, p.y]⟩
  | lineTo p => ⟨⟨.lineTo, false⟩, [p.x, p.y]⟩
  | cubicTo a b p => ⟨⟨.cubicTo, false⟩, [a.x, a.y, b.x, b.y, p.x, p.y]⟩
  | quadraticTo c p => ⟨⟨.quadraticTo, false⟩, [c.x, c.y, p.x, p.y]⟩
  | arcTo rx ry rotation large sweep p =>
    ⟨⟨.arcTo, false⟩, [rx, ry, rotation, large, sweep, p.x, p.y]⟩

end PlainStep

theorem PathVerb.arity_repeated (verb : PathVerb) : verb.repeated.arity = verb.arity := by
  cases verb <;> rfl

namespace CommandGroup

variable {α : Type}

/-- An absolute moveto, lineto, cubic, quadratic or arc with one argument set. -/
def IsPlain (g : CommandGroup α) : Prop :=
  g.command.relative = false ∧
  g.command.verb ∈ [.moveTo, .lineTo, .cubicTo, .quadraticTo, .arcTo] ∧
  g.args.length = g.command.verb.arity

theorem isPlain_group (s : PlainStep α) : s.group.IsPlain := by
  cases s <;> exact ⟨rfl, by simp [PlainStep.group], rfl⟩

/-- The argument sets of a group with their commands; a closepath has an empty
one. -/
def argumentSets (g : CommandGroup α) : List (PathCommand × List α) :=
  let arity := g.command.verb.arity
  match PathStep.sets arity (if arity = 0 then 1 else g.args.length / arity) g.args with
  | [] => []
  | first :: rest =>
    (g.command, first) :: rest.map ({ g.command with verb := g.command.verb.repeated }, ·)

/-- The error of what a group holds beside its argument sets: numbers that make no
further set, or no numbers where some are needed. -/
def leftover? (g : CommandGroup α) : Option (PathError α) :=
  let letter := g.command.letter
  let arity := g.command.verb.arity
  let got := g.args.length
  if arity = 0 then if got = 0 then none else some (.strayArguments letter got)
  else if got = 0 then some (.noArguments letter)
  else if got % arity = 0 then none else some (.partialSet letter arity got)

end CommandGroup

/-! ## Rewriting

The plain steps written so far are listed last first. -/

namespace PlainStep

variable {α : Type} [Scalar α]

/-- The current point is where the last step leads. -/
def here : List (PlainStep α) → Point α
  | [] => .origin
  | s :: _ => s.target

/-- The subpath starts where the last moveto leads. -/
def subpath : List (PlainStep α) → Point α
  | [] => .origin
  | .moveTo p :: _ => p
  | _ :: done => subpath done

/-- The first control point of a smooth cubic. -/
def smoothCubic : List (PlainStep α) → Point α
  | .cubicTo _ c p :: _ => p.scale 2 - c
  | done => here done

/-- The control point of a smooth quadratic. -/
def smoothQuadratic : List (PlainStep α) → Point α
  | .quadraticTo c p :: _ => p.scale 2 - c
  | done => here done

/-- The plain step for one argument set, if the set has the size it should. -/
def plain? (done : List (PlainStep α)) (c : PathCommand) (args : List α) : Option (PlainStep α) :=
  let at_ (x y : α) : Point α := if c.relative then here done + ⟨x, y⟩ else ⟨x, y⟩
  match c.verb, args with
  | .moveTo, [x, y] => some (.moveTo (at_ x y))
  | .lineTo, [x, y] => some (.lineTo (at_ x y))
  | .horizontalTo, [x] =>
    some (.lineTo ⟨if c.relative then (here done).x + x else x, (here done).y⟩)
  | .verticalTo, [y] =>
    some (.lineTo ⟨(here done).x, if c.relative then (here done).y + y else y⟩)
  | .closePath, [] => some (.lineTo (subpath done))
  | .cubicTo, [a, b, c, d, x, y] => some (.cubicTo (at_ a b) (at_ c d) (at_ x y))
  | .smoothCubicTo, [c, d, x, y] => some (.cubicTo (smoothCubic done) (at_ c d) (at_ x y))
  | .quadraticTo, [a, b, x, y] => some (.quadraticTo (at_ a b) (at_ x y))
  | .smoothQuadraticTo, [x, y] => some (.quadraticTo (smoothQuadratic done) (at_ x y))
  | .arcTo, [rx, ry, rotation, large, sweep, x, y] =>
    some (.arcTo rx ry rotation large sweep (at_ x y))
  | _, _ => none

/-- The plain steps for argument sets in order. -/
def rewrite : List (PlainStep α) → List (PathCommand × List α) → List (PlainStep α)
  | _, [] => []
  | done, (c, args) :: rest =>
    match plain? done c args with
    | some s => s :: rewrite (s :: done) rest
    | none => rewrite done rest

end PlainStep

namespace CommandGroup

variable {α : Type} [Scalar α]

/-- The plain path of command groups. -/
def desugar (gs : List (CommandGroup α)) : List (CommandGroup α) :=
  (PlainStep.rewrite [] (gs.flatMap argumentSets)).map PlainStep.group

end CommandGroup

/-- The groups of a reading, wherever they were complete. -/
def PathReading.commands {α : Type} (r : PathReading α) : List (CommandGroup α) :=
  r.groups.map ReadGroup.group

namespace PathDrawing

variable {α : Type} [Scalar α]

/-- Carries groups out: the polylines of the steps before the first syntax
error, and that error. -/
def ofGroups (f : Flattening α) (finish : Finish α) (gs : List (CommandGroup α)) :
    Except (CurveError α) (List (Polyline α) × Option (PathError α)) := do
  let (steps, error) := PathStep.untilError (gs.flatMap PathStep.ofGroup)
  return (← polylinesOf f finish steps, error)

end PathDrawing

/-! ## Groups without errors -/

namespace PathStep

variable {α : Type}

theorem untilError_map_ok {ε β : Type} (bs : List β) :
    untilError (bs.map (Except.ok : β → Except ε β)) = (bs, none) := by
  induction bs with
  | nil => rfl
  | cons b bs ih => rw [List.map_cons, untilError, ih]

theorem untilError_eq_none {ε β : Type} {results : List (Except ε β)}
    (h : (untilError results).2 = none) : ∃ bs : List β, results = bs.map .ok := by
  induction results with
  | nil => exact ⟨[], rfl⟩
  | cons r rest ih =>
    cases r with
    | error e => cases h
    | ok b =>
      obtain ⟨bs, rfl⟩ := ih h
      exact ⟨b :: bs, rfl⟩

theorem mem_of_mem_untilError {ε β : Type} {results : List (Except ε β)} {b : β}
    (h : b ∈ (untilError results).1) : .ok b ∈ results := by
  induction results with
  | nil => cases h
  | cons result rest ih =>
    cases result with
    | error e => cases h
    | ok first =>
      obtain rfl | later := List.mem_cons.mp h
      · exact List.mem_cons_self
      · exact List.mem_cons_of_mem _ (ih later)

theorem untilError_append {ε β : Type} (xs ys : List (Except ε β)) :
    untilError (xs ++ ys) =
      match untilError xs with
      | (bs, some e) => (bs, some e)
      | (bs, none) => (bs ++ (untilError ys).1, (untilError ys).2) := by
  induction xs with
  | nil => rfl
  | cons x xs ih =>
    cases x with
    | error e => rfl
    | ok b =>
      rw [List.cons_append, untilError, untilError, ih]
      obtain ⟨bs, error⟩ := untilError xs
      cases error <;> rfl

theorem untilError_map {ε β γ : Type} (f : β → γ) (results : List (Except ε β)) :
    untilError (results.map (Except.map f)) =
      ((untilError results).1.map f, (untilError results).2) := by
  induction results with
  | nil => rfl
  | cons result rest ih =>
    cases result with
    | error e => rfl
    | ok b =>
      change untilError (.ok (f b) :: rest.map (Except.map f)) = _
      rw [untilError, ih]
      rfl

theorem untilError_ok_append {ε β : Type} (bs : List β) (ys : List (Except ε β)) :
    untilError (bs.map .ok ++ ys) = (bs ++ (untilError ys).1, (untilError ys).2) := by
  rw [untilError_append, untilError_map_ok]

theorem length_of_mem_sets {n count : Nat} {l set : List α} (enough : n * count ≤ l.length)
    (h : set ∈ sets n count l) : set.length = n := by
  induction count generalizing l with
  | zero => cases h
  | succ count ih =>
    have size : n + n * count ≤ l.length := by rwa [Nat.mul_succ, Nat.add_comm] at enough
    rw [sets, List.mem_cons] at h
    rcases h with rfl | later
    · rw [List.length_take]
      omega
    · refine ih ?_ later
      rw [List.length_drop]
      omega

theorem length_of_mem_argumentSets {g : CommandGroup α} {set : PathCommand × List α}
    (h : set ∈ g.argumentSets) : set.2.length = set.1.verb.arity := by
  rw [CommandGroup.argumentSets] at h
  have size {l : List α} (member : l ∈ sets g.command.verb.arity
      (if g.command.verb.arity = 0 then 1 else g.args.length / g.command.verb.arity) g.args) :
      l.length = g.command.verb.arity := by
    refine length_of_mem_sets ?_ member
    split
    · omega
    · exact Nat.mul_div_le _ _
  split at h
  · cases h
  · rename_i first rest eq
    rw [eq] at size
    obtain rfl | later := List.mem_cons.mp h
    · exact size List.mem_cons_self
    · obtain ⟨l, member, rfl⟩ := List.mem_map.mp later
      exact (size (List.mem_cons_of_mem _ member)).trans (PathVerb.arity_repeated _).symm

/-- The letter of an argument set is that of its group, or the one it is repeated with. -/
theorem command_of_mem_argumentSets {g : CommandGroup α} {set : PathCommand × List α}
    (h : set ∈ g.argumentSets) :
    set.1 = g.command ∨ set.1 = { g.command with verb := g.command.verb.repeated } := by
  rw [CommandGroup.argumentSets] at h
  split at h
  · cases h
  · obtain rfl | later := List.mem_cons.mp h
    · exact .inl rfl
    · obtain ⟨l, -, rfl⟩ := List.mem_map.mp later
      exact .inr rfl

/-- Numbers rewritten set by set make the rewritten sets. -/
theorem sets_map {n : Nat} {A : List α → List α} (take : ∀ l, (A l).take n = A (l.take n))
    (drop : ∀ l, (A l).drop n = A (l.drop n)) (count : Nat) (l : List α) :
    sets n count (A l) = (sets n count l).map A := by
  induction count generalizing l with
  | zero => rfl
  | succ count ih => rw [sets, sets, take, drop, ih, List.map_cons]

variable [Scalar α]

/-- A group stands for its argument sets, and for the error of what it holds beside them. -/
theorem ofGroup_eq (g : CommandGroup α) :
    ofGroup g = g.argumentSets.map (fun set => ofSet set.1 set.2) ++
      g.leftover?.toList.map .error := by
  rw [ofGroup, CommandGroup.argumentSets, CommandGroup.leftover?]
  by_cases empty : g.command.verb.arity = 0
  · by_cases bare : g.args.length = 0 <;> simp [empty, bare, sets]
  · simp only [if_neg empty]
    cases eq : sets g.command.verb.arity (g.args.length / g.command.verb.arity) g.args with
    | nil =>
      by_cases bare : g.args.length = 0
      · simp [bare]
      · -- No set is complete, so what is left over is all of the numbers.
        have few : g.args.length / g.command.verb.arity = 0 := by
          cases count : g.args.length / g.command.verb.arity with
          | zero => rfl
          | succ n =>
            rw [count] at eq
            cases eq
        have some_ : g.args.length % g.command.verb.arity ≠ 0 := by
          have whole := Nat.div_add_mod g.args.length g.command.verb.arity
          rw [few] at whole
          omega
        simp [bare, some_]
    | cons first rest =>
      have some_ : g.args.length ≠ 0 := by
        intro bare
        rw [bare, Nat.zero_div] at eq
        cases eq
      simp only [List.map_cons, List.map_map, if_neg some_]
      split <;> rfl

/-- A group without an error stands for its argument sets. -/
theorem ofGroup_eq_map {g : CommandGroup α} (h : ∀ r ∈ ofGroup g, ∃ s, r = .ok s) :
    ofGroup g = g.argumentSets.map fun set => ofSet set.1 set.2 := by
  have eq := ofGroup_eq g
  cases left : g.leftover? with
  | none => rw [eq, left, Option.toList_none, List.map_nil, List.append_nil]
  | some e =>
    have member : .error e ∈ ofGroup g := by
      rw [eq, left]
      simp
    obtain ⟨s, hs⟩ := h _ member
    cases hs

/-- Numbers rewritten set by set stand for the rewritten steps, if a set does. -/
theorem ofGroup_map {c : PathCommand} {A : List α → List α} {S : PathStep α → PathStep α}
    (size : ∀ l, (A l).length = l.length)
    (take : ∀ l, (A l).take c.verb.arity = A (l.take c.verb.arity))
    (drop : ∀ l, (A l).drop c.verb.arity = A (l.drop c.verb.arity))
    (set : ∀ verb ∈ [c.verb, c.verb.repeated], ∀ l : List α, l.length = verb.arity →
      ofSet { c with verb } (A l) = (ofSet { c with verb } l).map S) (l : List α) :
    ofGroup ⟨c, A l⟩ = (ofGroup ⟨c, l⟩).map (Except.map S) := by
  have same : (CommandGroup.mk c (A l)).argumentSets =
      (CommandGroup.mk c l).argumentSets.map (Prod.map id A) := by
    simp only [CommandGroup.argumentSets, size, sets_map take drop]
    cases sets c.verb.arity (if c.verb.arity = 0 then 1 else l.length / c.verb.arity) l with
    | nil => rfl
    | cons first rest => simp
  have left : (CommandGroup.mk c (A l)).leftover? = (CommandGroup.mk c l).leftover? := by
    simp only [CommandGroup.leftover?, size]
  have errors (e : Option (PathError α)) :
      (e.toList.map Except.error).map (Except.map S) = e.toList.map Except.error := by
    cases e <;> rfl
  rw [ofGroup_eq, ofGroup_eq, same, left, List.map_append, errors, List.map_map, List.map_map]
  congr 1
  refine List.map_congr_left fun s h => ?_
  have complete : s.2.length = s.1.verb.arity := length_of_mem_argumentSets h
  obtain eq | eq := command_of_mem_argumentSets h
  · rw [eq] at complete
    simpa [eq] using set c.verb (by simp) s.2 complete
  · rw [eq] at complete
    simpa [eq] using set c.verb.repeated (by simp) s.2 complete

theorem ofReading_eq (r : PathReading α) :
    ofReading r = r.commands.flatMap ofGroup ++ r.error.toList.map .error := by
  rw [ofReading, PathReading.commands, List.flatMap_map]

/-- A group of one argument set is one step. -/
theorem ofGroup_of_length {g : CommandGroup α} (some_ : g.command.verb.arity ≠ 0)
    (h : g.args.length = g.command.verb.arity) : ofGroup g = [ofSet g.command g.args] := by
  have whole : g.args.take g.command.verb.arity = g.args := List.take_of_length_le (by omega)
  simp [ofGroup, some_, h, Nat.div_self (Nat.pos_of_ne_zero some_), sets, whole]

/-- A group of absolute movetos begins with one, or with an error. -/
theorem head_ofGroup_moveTo (args : List α) :
    ∃ first, (ofGroup ⟨⟨.moveTo, false⟩, args⟩).head? = some first ∧
      ∀ s, first = .ok s → ∃ p, s = ⟨false, .moveTo p⟩ := by
  match args with
  | [] =>
    refine ⟨.error (.noArguments (PathCommand.mk .moveTo false).letter), ?_, fun s h => ?_⟩
    · simp [ofGroup, PathVerb.arity, sets]
    · cases h
  | [x] =>
    refine ⟨.error (.partialSet (PathCommand.mk .moveTo false).letter 2 1), ?_, fun s h => ?_⟩
    · simp [ofGroup, PathVerb.arity, sets]
    · cases h
  | x :: y :: args =>
    have count : (args.length + 1 + 1) / 2 = args.length / 2 + 1 := by omega
    refine ⟨.ok ⟨false, .moveTo ⟨x, y⟩⟩, ?_, fun s h => ⟨⟨x, y⟩, (Except.ok.inj h).symm⟩⟩
    simp only [ofGroup, PathVerb.arity, List.length_cons, count, sets]
    rfl

/-- Steps that begin with a group of absolute movetos begin with one, if there are any. -/
theorem head_untilError_moveTo (args : List α) (rest : List (Except (PathError α) (PathStep α))) :
    ∀ s ∈ (untilError (ofGroup ⟨⟨.moveTo, false⟩, args⟩ ++ rest)).1.head?,
      ∃ p, s = ⟨false, .moveTo p⟩ := by
  obtain ⟨head, group, moveTo⟩ := head_ofGroup_moveTo args
  obtain ⟨more, group⟩ := List.head?_eq_some_iff.mp group
  rw [group]
  cases head with
  | error e => simp [untilError]
  | ok s => simpa [untilError] using moveTo s rfl

/-- The letter only matters to the message of a flag. -/
theorem flag_letter {letter : Char} {name : String} {x : α} {b : Bool}
    (h : flag letter name x = .ok b) (other : Char) : flag other name x = .ok b := by
  by_cases zero : (x == 0) = true
  · rw [flag, if_pos zero] at h ⊢
    exact h
  · by_cases one : (x == 1) = true
    · rw [flag, if_neg zero, if_pos one] at h ⊢
      exact h
    · rw [flag, if_neg zero, if_neg one] at h
      cases h

/-- An arc reads the same under either letter. -/
theorem motionOf_arc {letter : Char} {rx ry rotation large sweep x y : α} {m : PathMotion α}
    (h : motionOf letter .arcTo [rx, ry, rotation, large, sweep, x, y] = .ok m) :
    ∃ l s, m = .arcTo rx ry rotation l s ⟨x, y⟩ ∧
      ∀ (other : Char) (x' y' : α),
        motionOf other .arcTo [rx, ry, rotation, large, sweep, x', y'] =
          .ok (.arcTo rx ry rotation l s ⟨x', y'⟩) := by
  rw [motionOf] at h
  cases hl : flag letter "large-arc" large with
  | error e =>
    rw [hl] at h
    cases h
  | ok l =>
    cases hs : flag letter "sweep" sweep with
    | error e =>
      rw [hl, hs] at h
      cases h
    | ok s =>
      rw [hl, hs] at h
      cases h
      refine ⟨l, s, rfl, fun other x' y' => ?_⟩
      rw [motionOf, flag_letter hl, flag_letter hs]
      rfl

end PathStep

namespace PlainStep

variable {α : Type} [Scalar α]

/-- What a smooth curve would reflect. -/
def memory : List (PlainStep α) → CurveMemory α
  | .cubicTo _ c _ :: _ => .cubic c
  | .quadraticTo c _ :: _ => .quadratic c
  | _ => .blank

/-- The pen that has carried plain steps out. -/
def penAfter (done : List (PlainStep α)) : Pen α := ⟨here done, subpath done, memory done⟩

theorem smoothCubic_penAfter (done : List (PlainStep α)) :
    (penAfter done).smoothCubic = smoothCubic done := by
  cases done with
  | nil => rfl
  | cons s done => cases s <;> rfl

theorem smoothQuadratic_penAfter (done : List (PlainStep α)) :
    (penAfter done).smoothQuadratic = smoothQuadratic done := by
  cases done with
  | nil => rfl
  | cons s done => cases s <;> rfl

end PlainStep

namespace Pen

variable {α : Type} [Scalar α]

/-- Two runs whose steps answer alike answer alike. -/
theorem trace_map {f g : Flattening α} {P : Pen α → Pen α} {S : PathStep α → PathStep α}
    {E : PenEvent α → PenEvent α} {steps : List (PathStep α)}
    (step : ∀ s ∈ steps, ∀ pen : Pen α,
      (P pen).step g (S s) = (pen.step f s).map (Prod.map P E)) (pen : Pen α) :
    (P pen).trace g (steps.map S) = (pen.trace f steps).map (List.map E) := by
  induction steps generalizing pen with
  | nil => rfl
  | cons s steps ih =>
    rw [List.map_cons, trace, step s List.mem_cons_self, trace]
    cases pen.step f s with
    | error e => rfl
    | ok answer =>
      obtain ⟨next, event⟩ := answer
      change (do return E event :: (← (P next).trace g (steps.map S))) =
        Except.map _ (do return event :: (← next.trace f steps))
      rw [ih fun s later => step s (List.mem_cons_of_mem _ later)]
      cases next.trace f steps <;> rfl

theorem pen_of_curve {pen pen' : Pen α} {f : Flattening α} {control : List (Point α)}
    {p : Point α} {memory : CurveMemory α} {event : PenEvent α}
    (h : pen.curve f control p memory = .ok (pen', event)) : pen' = pen.advance p memory := by
  rw [curve] at h
  split at h
  · cases h
    rfl
  · cases drawn : f.bezier (pen.current :: control ++ [p]) with
    | error e =>
      rw [drawn] at h
      cases h
    | ok points =>
      rw [drawn] at h
      cases h
      rfl

theorem pen_of_arc {pen pen' : Pen α} {f : Flattening α} {rx ry rotation : α}
    {large sweep : Bool} {p : Point α} {event : PenEvent α}
    (h : pen.arc f rx ry rotation large sweep p = .ok (pen', event)) :
    pen' = pen.advance p .blank := by
  rw [arc] at h
  split at h
  · cases h
    rfl
  · cases drawn : (EndpointArc.mk pen.current p (Scalar.abs rx) (Scalar.abs ry) rotation large
        sweep).flatten f.tolerance f.depth with
    | error e =>
      simp only [drawn] at h
      cases h
    | ok points =>
      simp only [drawn] at h
      cases h
      rfl

/-- Where a step leaves the pen, whether or not its curve can be flattened. -/
def next (pen : Pen α) (s : PathStep α) : Pen α :=
  let at_ := pen.target s.relative
  match s.motion with
  | .moveTo p => ⟨at_ p, at_ p, .blank⟩
  | .lineTo p => pen.advance (at_ p) .blank
  | .horizontalTo x =>
    pen.advance ⟨if s.relative then pen.current.x + x else x, pen.current.y⟩ .blank
  | .verticalTo y =>
    pen.advance ⟨pen.current.x, if s.relative then pen.current.y + y else y⟩ .blank
  | .closePath => pen.advance pen.subpathStart .blank
  | .cubicTo _ c p | .smoothCubicTo c p => pen.advance (at_ p) (.cubic (at_ c))
  | .quadraticTo c p => pen.advance (at_ p) (.quadratic (at_ c))
  | .smoothQuadraticTo p => pen.advance (at_ p) (.quadratic pen.smoothQuadratic)
  | .arcTo _ _ _ _ _ p => pen.advance (at_ p) .blank

theorem pen_of_step {pen pen' : Pen α} {f : Flattening α} {s : PathStep α} {event : PenEvent α}
    (h : pen.step f s = .ok (pen', event)) : pen' = pen.next s := by
  obtain ⟨relative, motion⟩ := s
  cases motion with
  | moveTo | lineTo | horizontalTo | verticalTo | closePath =>
    cases h
    rfl
  | cubicTo | smoothCubicTo | quadraticTo | smoothQuadraticTo => exact pen_of_curve h
  | arcTo => exact pen_of_arc h

end Pen

namespace PlainStep

variable {α : Type} [Scalar α]

theorem ofGroup_group (t : PlainStep α) :
    PathStep.ofGroup t.group = [PathStep.ofSet t.group.command t.group.args] := by
  cases t <;> exact PathStep.ofGroup_of_length (by simp [group, PathVerb.arity]) rfl

/-- **One step.** The plain step for an argument set is carried out just as the
set itself, and leaves the pen that can be read off the plain steps. -/
theorem step_plain? (done : List (PlainStep α)) {c : PathCommand} {args : List α} {s : PathStep α}
    (h : PathStep.ofSet c args = .ok s) :
    ∃ t s', plain? done c args = some t ∧ PathStep.ofSet t.group.command t.group.args = .ok s' ∧
      (∀ f : Flattening α, (penAfter done).step f s' = (penAfter done).step f s) ∧
      (penAfter done).next s = penAfter (t :: done) := by
  obtain ⟨verb, relative⟩ := c
  obtain ⟨m, motion, rfl⟩ : ∃ m, PathStep.motionOf (PathCommand.mk verb relative).letter verb args =
      .ok m ∧ (⟨relative, m⟩ : PathStep α) = s := by
    rw [PathStep.ofSet] at h
    cases motion : PathStep.motionOf (PathCommand.mk verb relative).letter verb args with
    | error e =>
      rw [motion] at h
      cases h
    | ok m =>
      rw [motion] at h
      exact ⟨m, rfl, Except.ok.inj h⟩
  let pen := penAfter done
  let at_ (x y : α) : Point α := pen.target relative ⟨x, y⟩
  cases verb with
  | moveTo =>
    match args, motion with
    | [x, y], rfl => exact ⟨moveTo (at_ x y), ⟨false, .moveTo (at_ x y)⟩, rfl, rfl, fun _ => rfl, rfl⟩
  | lineTo =>
    match args, motion with
    | [x, y], rfl => exact ⟨lineTo (at_ x y), ⟨false, .lineTo (at_ x y)⟩, rfl, rfl, fun _ => rfl, rfl⟩
  | horizontalTo =>
    match args, motion with
    | [x], rfl =>
      let p : Point α := ⟨if relative then pen.current.x + x else x, pen.current.y⟩
      exact ⟨lineTo p, ⟨false, .lineTo p⟩, rfl, rfl, fun _ => rfl, rfl⟩
  | verticalTo =>
    match args, motion with
    | [y], rfl =>
      let p : Point α := ⟨pen.current.x, if relative then pen.current.y + y else y⟩
      exact ⟨lineTo p, ⟨false, .lineTo p⟩, rfl, rfl, fun _ => rfl, rfl⟩
  | closePath =>
    match args, motion with
    | [], rfl =>
      exact ⟨lineTo (subpath done), ⟨false, .lineTo (subpath done)⟩, rfl, rfl, fun _ => rfl, rfl⟩
  | cubicTo =>
    match args, motion with
    | [a, b, c, d, x, y], rfl =>
      exact ⟨cubicTo (at_ a b) (at_ c d) (at_ x y),
        ⟨false, .cubicTo (at_ a b) (at_ c d) (at_ x y)⟩, rfl, rfl, fun _ => rfl, rfl⟩
  | smoothCubicTo =>
    match args, motion with
    | [c, d, x, y], rfl =>
      refine ⟨cubicTo pen.smoothCubic (at_ c d) (at_ x y),
        ⟨false, .cubicTo pen.smoothCubic (at_ c d) (at_ x y)⟩, ?_, rfl, fun _ => rfl, rfl⟩
      rw [smoothCubic_penAfter]
      rfl
  | quadraticTo =>
    match args, motion with
    | [a, b, x, y], rfl =>
      exact ⟨quadraticTo (at_ a b) (at_ x y), ⟨false, .quadraticTo (at_ a b) (at_ x y)⟩, rfl, rfl,
        fun _ => rfl, rfl⟩
  | smoothQuadraticTo =>
    match args, motion with
    | [x, y], rfl =>
      refine ⟨quadraticTo pen.smoothQuadratic (at_ x y),
        ⟨false, .quadraticTo pen.smoothQuadratic (at_ x y)⟩, ?_, rfl, fun _ => rfl, rfl⟩
      rw [smoothQuadratic_penAfter]
      rfl
  | arcTo =>
    match args, motion with
    | [rx, ry, rotation, large, sweep, x, y], motion =>
      obtain ⟨l, s, rfl, anyLetter⟩ := PathStep.motionOf_arc motion
      refine ⟨arcTo rx ry rotation large sweep (at_ x y), ⟨false, .arcTo rx ry rotation l s (at_ x y)⟩,
        rfl, ?_, fun _ => rfl, rfl⟩
      rw [PathStep.ofSet, group, anyLetter]
      rfl

/-- **A run.** Argument sets and their plain steps are traced alike, from the pen
that can be read off what is written already. -/
theorem trace_rewrite {sets : List (PathCommand × List α)} {steps : List (PathStep α)}
    (h : sets.map (fun set => PathStep.ofSet set.1 set.2) = steps.map .ok)
    (done : List (PlainStep α)) :
    ∃ plain, ((rewrite done sets).map group).flatMap PathStep.ofGroup = plain.map .ok ∧
      (rewrite done sets).length = steps.length ∧
      ∀ f : Flattening α, (penAfter done).trace f plain = (penAfter done).trace f steps := by
  induction sets generalizing done steps with
  | nil =>
    obtain rfl : steps = [] := by simpa using h.symm
    exact ⟨[], rfl, rfl, fun _ => rfl⟩
  | cons set sets ih =>
    cases steps with
    | nil => cases h
    | cons s steps =>
      obtain ⟨first, rest⟩ := List.cons.inj h
      obtain ⟨t, s', written, plain, carried, pen⟩ := step_plain? done first
      obtain ⟨later, groups, size, traced⟩ := ih rest (t :: done)
      refine ⟨s' :: later, ?_, ?_, fun f => ?_⟩
      · rw [rewrite, written, List.map_cons, List.flatMap_cons, groups, ofGroup_group, plain]
        rfl
      · rw [rewrite, written]
        simp [size]
      · rw [Pen.trace, Pen.trace, carried f]
        cases step : (penAfter done).step f s with
        | error e => rfl
        | ok answer =>
          obtain ⟨next, event⟩ := answer
          obtain rfl : next = penAfter (t :: done) := (Pen.pen_of_step step).trans pen
          change (do return event :: (← (penAfter (t :: done)).trace f later)) =
            (do return event :: (← (penAfter (t :: done)).trace f steps))
          rw [traced f]

end PlainStep

namespace PathDrawing

variable {α : Type} [Scalar α]

/-- Path data that is read to its end is carried out group by group. -/
theorem ofString_eq_ofGroups (f : Flattening α) (finish : Finish α) (data : String)
    (h : (PathReading.ofString data : PathReading α).error = none) :
    ofString f finish data = do
      let reading := PathReading.ofString data
      let (polylines, error) ← ofGroups f finish reading.commands
      return ⟨polylines, if error.isSome then .error else reading.state, error⟩ := by
  have groups : PathStep.ofReading (PathReading.ofString data : PathReading α) =
      (PathReading.ofString data).commands.flatMap PathStep.ofGroup := by
    rw [PathStep.ofReading_eq, h, Option.toList_none, List.map_nil, List.append_nil]
  simp only [ofString, ofGroups, groups, bind_assoc, pure_bind]

/-- **Every path desugars.** Groups that are carried out without a syntax error
have a plain path of one group for each step. It is carried out without one as
well, and draws the same polylines or meets the same failure of a curve. For the
groups of path data, these are the polylines that the data draws
(`ofString_eq_ofGroups`). -/
theorem ofGroups_desugar (f : Flattening α) (finish : Finish α) (gs : List (CommandGroup α))
    (clean : (PathStep.untilError (gs.flatMap PathStep.ofGroup)).2 = none) :
    (∀ g ∈ CommandGroup.desugar gs, g.IsPlain) ∧
    (CommandGroup.desugar gs).length = (gs.flatMap PathStep.ofGroup).length ∧
    (PathStep.untilError ((CommandGroup.desugar gs).flatMap PathStep.ofGroup)).2 = none ∧
    ofGroups f finish (CommandGroup.desugar gs) = ofGroups f finish gs := by
  obtain ⟨steps, read⟩ := PathStep.untilError_eq_none clean
  have sets : gs.flatMap PathStep.ofGroup =
      (gs.flatMap CommandGroup.argumentSets).map fun set => PathStep.ofSet set.1 set.2 := by
    rw [List.map_flatMap, List.flatMap_def, List.flatMap_def]
    congr 1
    apply List.map_congr_left
    intro g hg
    apply PathStep.ofGroup_eq_map
    intro r hr
    have member : r ∈ gs.flatMap PathStep.ofGroup := List.mem_flatMap.mpr ⟨g, hg, hr⟩
    rw [read] at member
    obtain ⟨s, -, eq⟩ := List.mem_map.mp member
    exact ⟨s, eq.symm⟩
  obtain ⟨plain, groups, size, traced⟩ :=
    PlainStep.trace_rewrite (sets.symm.trans read) []
  have written : (CommandGroup.desugar gs).flatMap PathStep.ofGroup = plain.map .ok := groups
  refine ⟨?_, ?_, ?_, ?_⟩
  · intro g hg
    obtain ⟨t, -, rfl⟩ := List.mem_map.mp hg
    exact CommandGroup.isPlain_group t
  · rw [CommandGroup.desugar, List.length_map, size, read, List.length_map]
  · rw [written, PathStep.untilError_map_ok]
  · have same : Pen.initial.trace f plain = Pen.initial.trace f steps := traced f
    rw [ofGroups, ofGroups, written, read, PathStep.untilError_map_ok,
      PathStep.untilError_map_ok]
    simp only [polylinesOf, same]

/-- Every command, a lineto as the extra pair behind the moveto, with smooth
curves behind curves of their family and behind others. -/
def everyLetter : List (CommandGroup Float) :=
  [⟨⟨.moveTo, true⟩, [1, 2, 3, 4]⟩, ⟨⟨.horizontalTo, true⟩, [5]⟩, ⟨⟨.verticalTo, false⟩, [6]⟩,
    ⟨⟨.cubicTo, true⟩, [1, 1, 2, 1, 3, 0]⟩, ⟨⟨.smoothCubicTo, true⟩, [2, 1, 3, 0, 5, 1, 6, 0]⟩,
    ⟨⟨.closePath, true⟩, []⟩, ⟨⟨.smoothQuadraticTo, false⟩, [7, 8, 9, 9]⟩,
    ⟨⟨.quadraticTo, true⟩, [1, 1, 2, 0]⟩, ⟨⟨.arcTo, true⟩, [3, 2, 30, 1, 0, 4, 5]⟩]

theorem everyLetter_desugar :
    (PathStep.untilError (everyLetter.flatMap PathStep.ofGroup)).2 = none ∧
    ofGroups ⟨0.1, none, 16⟩ ⟨.identity, true⟩ (CommandGroup.desugar everyLetter) =
      ofGroups ⟨0.1, none, 16⟩ ⟨.identity, true⟩ everyLetter :=
  have clean : (PathStep.untilError (everyLetter.flatMap PathStep.ofGroup)).2 = none := by
    decide +kernel
  ⟨clean, (ofGroups_desugar ⟨0.1, none, 16⟩ ⟨.identity, true⟩ everyLetter clean).2.2.2⟩

example : CommandGroup.desugar (α := Float)
    [⟨⟨.moveTo, true⟩, [1, 2, 3, 4]⟩, ⟨⟨.quadraticTo, false⟩, [5, 7, 8, 6]⟩,
      ⟨⟨.smoothQuadraticTo, true⟩, [2, 1]⟩, ⟨⟨.closePath, false⟩, []⟩] =
    [⟨⟨.moveTo, false⟩, [1, 2]⟩, ⟨⟨.lineTo, false⟩, [4, 6]⟩, ⟨⟨.quadraticTo, false⟩, [5, 7, 8, 6]⟩,
      ⟨⟨.quadraticTo, false⟩, [11, 5, 10, 7]⟩, ⟨⟨.lineTo, false⟩, [1, 2]⟩] := by
  decide +kernel

end PathDrawing

end BoardPlotter
