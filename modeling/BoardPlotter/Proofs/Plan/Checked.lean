import BoardPlotter.Proofs.Plan.Coverage
import BoardPlotter.Proofs.Plan.Pieces
import BoardPlotter.Proofs.Scalar.Order

/-!
# Clipping with every step checked

Clipping as it is carried out: a walk holds the run it is on only while it is inside, a
quotient needs a divisor, sorting needs numbers, and an end needs a list that has one.
`Checked.split` stops where one of these is missing.

On doubles it never stops. A step stops only for want of a run (`Walk.step_returns_iff`), and
the walk is on one precisely while the vertex it is at is inside (`Walk.step_arrived`,
`Walk.through_arrived`). Parallel lines are told before anything is divided (`lines_eq`), and
only parameters that passed a comparison are sorted (`unit_of_mem_hits`). So it does what
`Window.split` does (`Checked.split_total`).
-/

namespace BoardPlotter.Checked

open Scalar

/-- What a step of clipping may miss: a divisor, a number to sort by, the run to go on with, an
end of a list, or vertices for a piece. -/
inductive Stop where
  | divisor (x : Fault)
  | number
  | run
  | entry
  | vertices
  deriving DecidableEq, Repr

section Definitions

variable {α : Type} [Scalar α]

/-! ### Crossings -/

/-- The crossing of two lines, with what is divided by checked. -/
def lines (p₁ p₂ q₁ q₂ : Point α) : Except Fault (Option (Crossing α)) :=
  let r := p₂ - p₁
  let s := q₂ - q₁
  let denom := r.det s
  if denom == 0 then .ok none
  else do
    let qp := q₁ - p₁
    let t ← div? (qp.det s) denom
    let u ← div? (qp.det r) denom
    return some ⟨p₁ + r.scale t, t, u⟩

def segments (eps : α) (p₁ p₂ q₁ q₂ : Point α) : Except Fault (Option (Crossing α)) := do
  match ← lines p₁ p₂ q₁ q₂ with
  | none => return none
  | some hit =>
    if Crossing.within eps hit.t && Crossing.within eps hit.u then
      let t := clampUnit hit.t
      return some ⟨p₁ + (p₂ - p₁).scale t, t, clampUnit hit.u⟩
    else return none

/-- Crossings by their parameters, if these are numbers. -/
def sort (hits : List (Crossing α)) : Except Stop (List (Crossing α)) :=
  if hits.all fun h => h.t == h.t then .ok (hits.mergeSort fun g h => g.t ≤ h.t)
  else .error .number

def crossings (w : Window α) (a b : Point α) : Except Stop (List (Crossing α)) := do
  let hits ← w.boundary.mapM fun edge =>
    (segments w.eps a b edge.1 edge.2).mapError .divisor
  return Window.mergeNear w.eps (← sort (hits.filterMap id))

/-! ### The walk, one segment at a time -/

/-- The runs that have ended, and the one that goes on. -/
structure Walk (α : Type) where
  ended : List (List (Point α))
  run : Option (List (Point α))
  deriving DecidableEq, Repr

namespace Walk

/-- A walk that is at its first vertex. -/
def begin (w : Window α) (p : Point α) : Walk α :=
  ⟨[], if w.contains p then some [p] else none⟩

/-- The run to go on with. -/
def going (s : Walk α) : Except Stop (List (Point α)) :=
  match s.run with
  | some run => .ok run
  | none => .error .run

/-- The walk behind the segment from `a` to `b`. -/
def step (w : Window α) (s : Walk α) (a b : Point α) : Except Stop (Walk α) :=
  match w.contains a, w.contains b with
  | true, true => do
    let run ← s.going
    return { s with run := some (run ++ [b]) }
  | true, false => do
    let hits ← crossings w a b
    let run ← s.going
    return ⟨s.ended ++ [run ++ [(hits.getLast?.map Crossing.point).getD a]], none⟩
  | false, true => do
    let hits ← crossings w a b
    return { s with run := some [(hits.head?.map Crossing.point).getD b, b] }
  | false, false => do
    match ← crossings w a b with
    | first :: second :: more =>
      let last := (second :: more).getLast?.getD second
      return { s with ended := s.ended ++ [[first.point, last.point]] }
    | _ => return s

/-- The walk behind all of the vertices after `a`. -/
def through (w : Window α) (s : Walk α) (a : Point α) : List (Point α) → Except Stop (Walk α)
  | [] => .ok s
  | b :: rest => do (← s.step w a b).through w b rest

end Walk

/-! ### Pieces -/

def entry {β : Type} : Option β → Except Stop β
  | some x => .ok x
  | none => .error .entry

/-- Appends the first run to the last one and puts the result in its place. -/
def rejoin (w : Window α) (runs : List (List (Point α))) :
    Except Stop (List (List (Point α))) := do
  let first ← entry runs.head?
  let last ← entry runs.getLast?
  let p ← entry last.getLast?
  let q ← entry first.head?
  let joined := last ++ if p.closeTo q w.eps then first.drop 1 else first
  match runs.dropLast with
  | _ :: others => return joined :: others
  | [] => throw .entry

/-- The runs, the first and the last one joined if the outline was cut open at its start. -/
def join (w : Window α) (l : Polyline α) (runs : List (List (Point α))) :
    Except Stop (List (List (Point α))) :=
  if l.fill && 1 < runs.length && w.contains l.start && w.contains l.last then rejoin w runs
  else .ok runs

def polyline (fill : Bool) (ps : List (Point α)) : Except Stop (Polyline α) :=
  match Polyline.ofVertices? ps fill with
  | some l => .ok l
  | none => .error .vertices

/-- The pieces of a polyline, unless something on the way to them is missing. -/
def split (w : Window α) (l : Polyline α) : Except Stop (List (Polyline α)) := do
  let walk ← (Walk.begin w l.start).through w l.start l.rest
  let runs := ((walk.ended ++ walk.run.toList).map (Window.dropClose w.eps)).filter
    fun run => 2 ≤ run.length
  (← join w l runs).mapM (polyline l.fill)

end Definitions

/-! ### What sorting and dividing need -/

section Crossings

variable {α : Type} [Scalar α]

/-- Lines that are divided by are not parallel. -/
theorem lines_eq (p₁ p₂ q₁ q₂ : Point α) :
    lines p₁ p₂ q₁ q₂ = .ok (Crossing.ofLines? p₁ p₂ q₁ q₂) := by
  rw [lines, Crossing.ofLines?]
  split
  · rfl
  · rename_i skew
    simp only [div?, if_neg skew]
    rfl

theorem segments_eq (eps : α) (p₁ p₂ q₁ q₂ : Point α) :
    segments eps p₁ p₂ q₁ q₂ = .ok (Crossing.ofSegments? eps p₁ p₂ q₁ q₂) := by
  rw [segments, lines_eq, Crossing.ofSegments?]
  cases Crossing.ofLines? p₁ p₂ q₁ q₂ with
  | none => rfl
  | some hit =>
    simp only [bind, Except.bind, Option.bind]
    split <;> rfl

/-- The crossings of a segment with the edges, one edge after another. -/
def hits (w : Window α) (a b : Point α) : List (Crossing α) :=
  w.boundary.filterMap fun edge => Crossing.ofSegments? w.eps a b edge.1 edge.2

end Crossings

variable {w : Window Float} {a b : Point Float}

theorem unit_of_mem_hits {h : Crossing Float} (hh : h ∈ hits w a b) : 0 ≤ h.t ∧ h.t ≤ 1 := by
  obtain ⟨edge, -, hit⟩ := List.mem_filterMap.mp hh
  rw [Crossing.ofSegments?] at hit
  simp only [Option.bind_eq_bind, Option.bind_eq_some_iff, Option.ite_none_right_eq_some,
    Option.some.injEq] at hit
  obtain ⟨g, -, inside, rfl⟩ := hit
  -- What is no number is in no interval.
  simp only [Crossing.within, Bool.and_eq_true, decide_eq_true_eq] at inside
  exact Double.clampUnit_mem (Double.numbers_of_le inside.1.2).1

theorem sort_hits (w : Window Float) (a b : Point Float) :
    sort (hits w a b) = .ok ((hits w a b).mergeSort fun g h => g.t ≤ h.t) := by
  refine if_pos (List.all_eq_true.mpr fun h hh => ?_)
  exact Double.beq_self_of_number (Double.numbers_of_le (unit_of_mem_hits hh).2).1

/-- Sorted by numbers, the hits are in order. -/
theorem hits_sorted (w : Window Float) (a b : Point Float) :
    ((hits w a b).mergeSort fun g h => g.t ≤ h.t).Pairwise fun g h => g.t ≤ h.t := by
  have number {h : Crossing Float} (hh : h ∈ hits w a b) : Double.parts h.t ≠ .notANumber :=
    (Double.numbers_of_le (unit_of_mem_hits hh).2).1
  let place (h : Crossing Float) := Double.rank (Double.parts h.t)
  -- The order of the places is total, and on the hits it is the same.
  have same : (hits w a b).mergeSort (fun g h => g.t ≤ h.t) =
      (hits w a b).mergeSort fun g h => place g ≤ place h := by
    have mapped := List.map_mergeSort (f := id) (l := hits w a b)
      (r := fun g h => decide (g.t ≤ h.t)) (s := fun g h => decide (place g ≤ place h)) ?_
    · rwa [List.map_id, List.map_id] at mapped
    · intro g hg h hh
      rw [decide_eq_decide, Double.le_iff_rank]
      simp [number hg, number hh, place]
  rw [same]
  have sorted : ((hits w a b).mergeSort fun g h => place g ≤ place h).Pairwise
      fun g h => decide (place g ≤ place h) = true := by
    apply List.pairwise_mergeSort
    · simpa using fun a b c => le_trans
    · simpa using fun a b => le_total _ _
  refine sorted.imp_of_mem fun {g h} hg hh le => ?_
  rw [List.mem_mergeSort] at hg hh
  exact Double.le_iff_rank.mpr ⟨number hg, number hh, of_decide_eq_true le⟩

theorem crossings_eq (w : Window Float) (a b : Point Float) :
    crossings w a b = .ok (w.crossings a b) := by
  have found : (w.boundary.mapM fun edge =>
      (segments w.eps a b edge.1 edge.2).mapError Stop.divisor) =
        .ok (w.boundary.map fun edge => Crossing.ofSegments? w.eps a b edge.1 edge.2) := by
    simp only [segments_eq]
    exact List.mapM_pure
  rw [crossings, found]
  have flat : (w.boundary.map fun edge => Crossing.ofSegments? w.eps a b edge.1 edge.2).filterMap
      id = hits w a b := by
    rw [List.filterMap_map]
    rfl
  simp only [bind, Except.bind, flat, sort_hits]
  rfl

/-! ### The walk -/

namespace Walk

/-- A walk at `a` that is on a run precisely if `a` is inside. -/
def arrived (w : Window Float) (ended : List (List (Point Float))) (a : Point Float)
    (run : List (Point Float)) : Walk Float :=
  ⟨ended, if w.contains a then some run.reverse else none⟩

/-- **A step that finds the run there if it needs one leaves it so.** -/
theorem step_arrived (w : Window Float) (ended : List (List (Point Float))) (a b : Point Float)
    (run : List (Point Float)) :
    (arrived w ended a run).step w a b =
      .ok (arrived w (ended ++ (w.step a run b).1) b (w.step a run b).2) := by
  rw [step, Window.step]
  cases ha : w.contains a <;> cases hb : w.contains b
  · simp only [crossings_eq, Window.chord, bind, Except.bind]
    rcases w.crossings a b with _ | ⟨first, _ | ⟨second, more⟩⟩ <;>
      simp [arrived, ha, hb, pure, Except.pure]
  · simp [crossings_eq, Window.entry, arrived, hb, bind, Except.bind, pure, Except.pure]
  · simp [crossings_eq, Window.exit, arrived, going, ha, hb, bind, Except.bind, pure, Except.pure]
  · simp [arrived, going, ha, hb, bind, Except.bind, pure, Except.pure]

/-- Nothing else stops a step. -/
theorem step_returns_iff (w : Window Float) (s : Walk Float) (a b : Point Float) :
    (∃ next, s.step w a b = .ok next) ↔ (w.contains a = true → s.run.isSome = true) := by
  obtain ⟨ended, run⟩ := s
  rw [step]
  cases ha : w.contains a <;> cases hb : w.contains b
  · simp only [crossings_eq, bind, Except.bind]
    rcases w.crossings a b with _ | ⟨first, _ | ⟨second, more⟩⟩ <;> simp [pure, Except.pure]
  · simp [crossings_eq, bind, Except.bind, pure, Except.pure]
  · cases run <;> simp [crossings_eq, going, bind, Except.bind, pure, Except.pure]
  · cases run <;> simp [going, bind, Except.bind, pure, Except.pure]

/-- **The walk is on a run precisely while it is inside**, however often it leaves and
enters. -/
theorem through_arrived (rest : List (Point Float)) (ended : List (List (Point Float)))
    (a : Point Float) (run : List (Point Float)) :
    ∃ s, (arrived w ended a run).through w a rest = .ok s ∧
      s.run.isSome = w.contains (rest.getLast?.getD a) ∧
        s.ended ++ s.run.toList = ended ++ w.runsFrom a run rest := by
  induction rest generalizing ended a run with
  | nil =>
    refine ⟨arrived w ended a run, rfl, ?_, ?_⟩
    · rw [List.getLast?_nil, Option.getD_none, arrived]
      cases w.contains a <;> rfl
    · rw [arrived, Window.runsFrom]
      cases w.contains a <;> rfl
  | cons b rest ih =>
    obtain ⟨s, walked, tracks, runs⟩ := ih (ended ++ (w.step a run b).1) b (w.step a run b).2
    refine ⟨s, ?_, ?_, ?_⟩
    · rw [through, step_arrived]
      exact walked
    · rw [tracks, List.getLast?_cons]
      rfl
    · rw [runs, Window.runsFrom_cons, List.append_assoc]

theorem begin_eq (w : Window Float) (p : Point Float) : begin w p = arrived w [] p [p] := rfl

end Walk

/-! ### Pieces -/

/-- Two runs that have ends can be joined. -/
theorem rejoin_eq (w : Window Float) {runs : List (List (Point Float))}
    (several : 2 ≤ runs.length) (long : ∀ r ∈ runs, r ≠ []) :
    rejoin w runs = .ok (w.rejoin runs) := by
  rcases runs with _ | ⟨first, others⟩
  · simp at several
  rcases List.eq_nil_or_concat others with rfl | ⟨mid, last, rfl⟩
  · simp at several
  rw [List.concat_eq_append] at long ⊢
  obtain ⟨q, fs, rfl⟩ := List.exists_cons_of_ne_nil (long first (by simp))
  rcases List.eq_nil_or_concat last with rfl | ⟨ls, p, rfl⟩
  · exact absurd rfl (long [] (by simp))
  rw [List.concat_eq_append, Window.rejoin_concat, rejoin, ← List.cons_append,
    List.getLast?_concat, List.dropLast_concat]
  simp only [List.cons_append, List.head?_cons, entry, List.getLast?_concat, bind, Except.bind,
    List.drop_one, List.tail_cons]
  rfl

theorem mapM_polyline (fill : Bool) {ps : List (List (Point Float))} (long : ∀ r ∈ ps, r ≠ []) :
    ps.mapM (polyline fill) = .ok (ps.filterMap fun r => Polyline.ofVertices? r fill) := by
  induction ps with
  | nil => rfl
  | cons r ps ih =>
    obtain ⟨first, later⟩ := List.forall_mem_cons.mp long
    obtain ⟨p, r, rfl⟩ := List.exists_cons_of_ne_nil first
    rw [List.mapM_cons, ih later]
    rfl

theorem join_eq (w : Window Float) (l : Polyline Float) :
    join w l (w.runs l) = .ok (w.pieces l) := by
  rw [join]
  split
  · rename_i joins
    simp only [Bool.and_eq_true, decide_eq_true_eq] at joins
    obtain ⟨⟨⟨fill, several⟩, start⟩, last⟩ := joins
    have long : ∀ r ∈ w.runs l, r ≠ [] := by
      intro r hr
      obtain ⟨-, -, -, two⟩ := Window.mem_runs_iff.mp hr
      exact List.length_pos_iff.mp (by omega)
    rw [rejoin_eq w several long, Window.pieces, fill, start, last]
    rfl
  · rename_i apart
    refine congrArg Except.ok (Window.pieces_of_not_joins fun joins => apart ?_).symm
    simp only [Bool.and_eq_true, decide_eq_true_eq]
    exact ⟨⟨⟨joins.fill, joins.several⟩, joins.start⟩, joins.last⟩

/-- Nothing that clipping needs is missing. -/
theorem split_eq (w : Window Float) (l : Polyline Float) : split w l = .ok (w.split l) := by
  obtain ⟨s, walked, -, runs⟩ := Walk.through_arrived l.rest [] l.start [l.start]
  have thinned : ((s.ended ++ s.run.toList).map (Window.dropClose w.eps)).filter
      (fun run => 2 ≤ run.length) = w.runs l := by
    rw [runs]
    rfl
  rw [split, Walk.begin_eq, walked]
  simp only [bind, Except.bind, thinned, join_eq]
  refine mapM_polyline l.fill ?_
  intro r hr
  have two := Window.two_le_length_of_mem_pieces hr
  exact List.length_pos_iff.mp (by omega)

/-- **Clipping is total on doubles**, the infinite ones and what is no number included. No step
of it misses anything, and the walk is on a run precisely while the vertex before is inside.
Crossings are sorted by numbers of the unit interval. Pieces have at least two vertices and the
fill of what they come from, and if no two of them are joined, neighbours are never close. -/
theorem split_total (w : Window Float) (l : Polyline Float) :
    split w l = .ok (w.split l) ∧
      (∀ before, before <+: l.rest → ∃ s,
        (Walk.begin w l.start).through w l.start before = .ok s ∧
          s.run.isSome = w.contains (before.getLast?.getD l.start)) ∧
      (∀ a b, (∀ h ∈ hits w a b, 0 ≤ h.t ∧ h.t ≤ 1) ∧
        (w.crossings a b).Pairwise fun g h => g.t ≤ h.t) ∧
      (∀ q ∈ w.split l, 2 ≤ q.size ∧ q.fill = l.fill) ∧
      (¬ w.Joins l → ∀ q ∈ w.split l,
        q.vertices.IsChain fun p v => p.closeTo v w.eps = false) := by
  refine ⟨?_, ?_, ?_, ?_, fun apart q hq => Window.spaced_of_mem_split apart hq⟩
  · exact split_eq w l
  · intro before _
    obtain ⟨s, walked, tracks, -⟩ := Walk.through_arrived before [] l.start [l.start]
    exact ⟨s, walked, tracks⟩
  · intro a b
    exact ⟨fun h hh => unit_of_mem_hits hh,
      (hits_sorted w a b).sublist (Window.mergeNear_sublist w.eps _)⟩
  · intro q hq
    refine ⟨?_, Window.fill_of_mem_split hq⟩
    have two := Window.two_le_length_of_mem_pieces (Window.vertices_mem_pieces hq)
    rwa [Polyline.vertices, List.length_cons] at two

/-- A way through infinity and through what is no number. -/
theorem split_total_stray :
    let w : Window Float := ⟨10, 10, epsilon⟩
    let stray : Polyline Float :=
      ⟨⟨5, 5⟩, [⟨1 / 0, 5⟩, ⟨0 / 0, 5⟩, ⟨5, 6⟩, ⟨6, 6⟩, ⟨4, 15⟩], false⟩
    ¬ w.Joins stray ∧ (w.split stray).map Polyline.size = [3] ∧
      ∀ q ∈ w.split stray, q.vertices.IsChain fun p v => p.closeTo v w.eps = false := by
  intro w stray
  have apart : ¬ w.Joins stray := fun joins => Bool.false_ne_true joins.fill
  have one : (w.split stray).map Polyline.size = [3] := by decide +kernel
  exact ⟨apart, one, (split_total w stray).2.2.2.2 apart⟩

end BoardPlotter.Checked
