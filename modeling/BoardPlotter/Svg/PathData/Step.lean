import BoardPlotter.Geometry.Point
import BoardPlotter.Svg.PathData.Group

/-!
# Elementary steps of a path

A group stands for one step per argument set, and a closepath for one step.
Steps stop at the first set that is no step.
-/

namespace BoardPlotter

/-- What one step draws, its points absolute or relative. -/
inductive PathMotion (α : Type) where
  | moveTo (p : Point α)
  | lineTo (p : Point α)
  | horizontalTo (x : α)
  | verticalTo (y : α)
  | closePath
  | cubicTo (c₁ c₂ p : Point α)
  | smoothCubicTo (c₂ p : Point α)
  | quadraticTo (c p : Point α)
  | smoothQuadraticTo (p : Point α)
  | arcTo (rx ry rotation : α) (large sweep : Bool) (p : Point α)
  deriving DecidableEq, Repr

structure PathStep (α : Type) where
  relative : Bool
  motion : PathMotion α
  deriving DecidableEq, Repr

namespace PathStep

variable {α : Type} [Scalar α]

/-- A flag is zero or one. -/
def flag (letter : Char) (name : String) (x : α) : Except (PathError α) Bool :=
  if x == 0 then .ok false else if x == 1 then .ok true else .error (.flag letter name x)

/-- The motion of one argument set. -/
def motionOf (letter : Char) (verb : PathVerb) (args : List α) :
    Except (PathError α) (PathMotion α) :=
  match verb, args with
  | .moveTo, [x, y] => .ok (.moveTo ⟨x, y⟩)
  | .lineTo, [x, y] => .ok (.lineTo ⟨x, y⟩)
  | .horizontalTo, [x] => .ok (.horizontalTo x)
  | .verticalTo, [y] => .ok (.verticalTo y)
  | .closePath, [] => .ok .closePath
  | .cubicTo, [a, b, c, d, x, y] => .ok (.cubicTo ⟨a, b⟩ ⟨c, d⟩ ⟨x, y⟩)
  | .smoothCubicTo, [c, d, x, y] => .ok (.smoothCubicTo ⟨c, d⟩ ⟨x, y⟩)
  | .quadraticTo, [a, b, x, y] => .ok (.quadraticTo ⟨a, b⟩ ⟨x, y⟩)
  | .smoothQuadraticTo, [x, y] => .ok (.smoothQuadraticTo ⟨x, y⟩)
  | .arcTo, [rx, ry, rotation, large, sweep, x, y] => do
    let large ← flag letter "large-arc" large
    let sweep ← flag letter "sweep" sweep
    return .arcTo rx ry rotation large sweep ⟨x, y⟩
  | _, _ => .error (.partialSet letter verb.arity args.length)

def ofSet (command : PathCommand) (args : List α) : Except (PathError α) (PathStep α) :=
  (motionOf command.letter command.verb args).map (⟨command.relative, ·⟩)

/-- The first `count` sets of `n` numbers. -/
def sets (n : Nat) : Nat → List α → List (List α)
  | 0, _ => []
  | count + 1, args => args.take n :: sets n count (args.drop n)

/-- The steps of a group in order, with an error where a set is no step. -/
def ofGroup (g : CommandGroup α) : List (Except (PathError α) (PathStep α)) :=
  let letter := g.command.letter
  let arity := g.command.verb.arity
  let got := g.args.length
  if arity = 0 then
    ofSet g.command [] :: if got = 0 then [] else [.error (.strayArguments letter got)]
  else
    match sets arity (got / arity) g.args with
    | [] =>
      if got = 0 then [.error (.noArguments letter)] else [.error (.partialSet letter arity got)]
    | first :: rest =>
      ofSet g.command first ::
        rest.map (ofSet { g.command with verb := g.command.verb.repeated }) ++
        if got % arity = 0 then [] else [.error (.partialSet letter arity got)]

/-- The successes before the first error, and that error. -/
def untilError {ε β : Type} : List (Except ε β) → List β × Option ε
  | [] => ([], none)
  | .error e :: _ => ([], some e)
  | .ok b :: rest => let (bs, e) := untilError rest; (b :: bs, e)

/-- The steps of a path in order, up to and with its error. -/
def ofReading (r : PathReading α) : List (Except (PathError α) (PathStep α)) :=
  r.groups.flatMap (fun g => ofGroup g.group) ++ (r.error.toList.map .error)

end PathStep

end BoardPlotter
