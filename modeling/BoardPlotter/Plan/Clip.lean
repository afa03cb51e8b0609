import BoardPlotter.Geometry.Crossing
import BoardPlotter.Geometry.Polyline
import BoardPlotter.Log.Notice

/-!
# Clipping to the viewport

A polyline is cut into its runs inside the closed rectangle from the origin. A
segment that leaves ends a run at the boundary, one that enters begins a run
there, and one that passes through is a run of its own. A filled outline whose
start is inside is cut open there by the walk, so its last run and its first
one are joined again.
-/

namespace BoardPlotter

open Scalar

/-- The rectangle from the origin to `(width, height)`, and the tolerance of all
tests against it. -/
structure Window (α : Type) where
  width : α
  height : α
  eps : α
  deriving DecidableEq, Repr

namespace Window

variable {α : Type} [Scalar α]

def contains (w : Window α) (p : Point α) : Bool :=
  (-w.eps ≤ p.x && p.x ≤ w.width + w.eps) && (-w.eps ≤ p.y && p.y ≤ w.height + w.eps)

/-- The edges, clockwise from the origin. -/
def boundary (w : Window α) : List (Point α × Point α) :=
  let a : Point α := ⟨0, 0⟩
  let b : Point α := ⟨w.width, 0⟩
  let c : Point α := ⟨w.width, w.height⟩
  let d : Point α := ⟨0, w.height⟩
  [(a, b), (b, c), (c, d), (d, a)]

/-- Drops a crossing within `eps` of the one kept before it. -/
def mergeNear (eps : α) : List (Crossing α) → List (Crossing α)
  | [] => []
  | h :: hs =>
    h :: (hs.foldl (fun (kept : α × List (Crossing α)) x =>
      if x.t - kept.1 ≤ eps then kept else (x.t, x :: kept.2)) (h.t, [])).2.reverse

/-- Where a segment crosses the boundary, in order along it. A corner that two
edges report counts once. -/
def crossings (w : Window α) (a b : Point α) : List (Crossing α) :=
  let hits := w.boundary.filterMap fun edge => Crossing.ofSegments? w.eps a b edge.1 edge.2
  mergeNear w.eps (hits.mergeSort fun g h => g.t ≤ h.t)

/-- The runs of a walk at `a` through further vertices. `run` is the run up to
`a` in reverse, and counts only if `a` is inside. -/
def runsFrom (w : Window α) (a : Point α) (run : List (Point α)) :
    List (Point α) → List (List (Point α))
  | [] => if w.contains a then [run.reverse] else []
  | b :: rest =>
    match w.contains a, w.contains b with
    | true, true => runsFrom w b (b :: run) rest
    | true, false =>
      let out := ((w.crossings a b).getLast?.map Crossing.point).getD a
      (out :: run).reverse :: runsFrom w b [] rest
    | false, true =>
      let into := ((w.crossings a b).head?.map Crossing.point).getD b
      runsFrom w b [b, into] rest
    | false, false =>
      match w.crossings a b with
      | first :: second :: more =>
        [first.point, (((second :: more).getLast?).getD second).point] :: runsFrom w b [] rest
      | _ => runsFrom w b [] rest

/-- Drops points close to the one kept before them. -/
def dropClose (eps : α) : List (Point α) → List (Point α)
  | [] => []
  | p :: ps =>
    p :: (ps.foldl (fun (kept : Point α × List (Point α)) q =>
      if kept.1.closeTo q eps then kept else (q, q :: kept.2)) (p, [])).2.reverse

/-- The runs of at least two distinct points. -/
def runs (w : Window α) (l : Polyline α) : List (List (Point α)) :=
  let walked := w.runsFrom l.start [l.start] l.rest
  (walked.map (dropClose w.eps)).filter fun run => 2 ≤ run.length

/-- Appends the first run to the last one and puts the result in front. -/
def rejoin (w : Window α) : List (List (Point α)) → List (List (Point α))
  | first :: second :: more =>
    let others := second :: more
    let last := others.getLast?.getD second
    let meets := match last.getLast?, first.head? with
      | some p, some q => p.closeTo q w.eps
      | _, _ => false
    (last ++ if meets then first.drop 1 else first) :: others.dropLast
  | pieces => pieces

/-- The pieces of a polyline. -/
def pieces (w : Window α) (l : Polyline α) : List (List (Point α)) :=
  if l.fill && w.contains l.start && w.contains l.last then w.rejoin (w.runs l) else w.runs l

def split (w : Window α) (l : Polyline α) : List (Polyline α) :=
  (w.pieces l).filterMap fun p => Polyline.ofVertices? p l.fill

def splitAll (w : Window α) (ls : List (Polyline α)) : List (Polyline α) := ls.flatMap w.split

/-- What is said of a polyline that did not stay as it was. -/
def splitNotices (w : Window α) (l : Polyline α) : List Notice :=
  let pieces := w.split l
  if pieces.map Polyline.size = [l.size] then []
  else [.debug s!"Split primitive of {l.size} vertices into {pieces.length} piece(s)"]

def splitAllNotices (w : Window α) (ls : List (Polyline α)) : List Notice :=
  ls.flatMap w.splitNotices ++
    [.info s!"Clipped {ls.length} primitive(s) to {(w.splitAll ls).length} piece(s)"]

end Window

end BoardPlotter
