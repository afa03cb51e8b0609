import BoardPlotter.Proofs.Motion.Strokes
import BoardPlotter.Proofs.Plan.Margin

/-!
# Where the robot goes

A tool goes only to the points of its operations (`Tool.run_points`), and strokes
are never refused (`Tool.makes_strokes`). So a conversion is always carried out, and its
motions end at vertices of pieces and ends of passes: on the board up to the margin
of the window, or above such a place by the departure along the unit normal
(`Conversion.motions_near_board`).
-/

namespace BoardPlotter

open Point

/-! ### The points of operations -/

namespace Operation

variable {α : Type}

/-- The points an operation goes to. -/
def points : Operation α → List (Point α)
  | travel p | line p _ => [p]
  | polyline p q rest _ => p :: q :: rest
  | lift | lower | other => []

/-- The strokes of outlines go to their vertices. -/
theorem points_ofPolylines {ls : List (Polyline α)} {feed : Option α} {op : Operation α}
    (hop : op ∈ ofPolylines ls feed) : ∀ p ∈ op.points, ∃ l ∈ ls, p ∈ l.start :: l.rest := by
  intro p hp
  obtain ⟨l, hl, hop⟩ := List.mem_flatMap.mp hop
  refine ⟨l, hl, ?_⟩
  rcases l with ⟨start, _ | ⟨q, rest⟩, fill⟩
  · exact absurd hop List.not_mem_nil
  · simp only [stroke, Except.toOption, Option.getD_some, List.mem_cons, List.not_mem_nil,
      or_false] at hop
    rcases hop with rfl | rfl | rfl | rfl
    · rw [List.mem_singleton.mp hp]
      exact List.mem_cons_self
    · exact absurd hp List.not_mem_nil
    · exact hp
    · exact absurd hp List.not_mem_nil

/-- The strokes of passes go to their ends. -/
theorem points_ofPasses [BEq (Point α)] {passes : List (Pass α)} {feed : Option α}
    {op : Operation α} (hop : op ∈ ofPasses passes feed) :
    ∀ p ∈ op.points, ∃ pass ∈ passes, p = pass.entry ∨ p = pass.exit := by
  intro p hp
  obtain ⟨pass, hpass, hop⟩ := List.mem_flatMap.mp hop
  refine ⟨pass, hpass, ?_⟩
  split at hop
  · exact absurd hop List.not_mem_nil
  · simp only [List.mem_cons, List.not_mem_nil, or_false] at hop
    rcases hop with rfl | rfl | rfl | rfl
    · exact .inl (List.mem_singleton.mp hp)
    · exact absurd hp List.not_mem_nil
    · exact .inr (List.mem_singleton.mp hp)
    · exact absurd hp List.not_mem_nil

end Operation

namespace Tool

section Points

variable {α : Type} {P : Point α → Prop}

/-- A tool is where its last motion ended. -/
theorem after_points {t : Tool α} (ht : ∀ p ∈ t.position?, P p) {moves : List (Motion α)}
    (hmoves : ∀ a ∈ moves, P a.point) : ∀ p ∈ (t.after moves).position?, P p := by
  induction moves generalizing t with
  | nil => exact ht
  | cons a moves ih =>
    obtain ⟨first, later⟩ := List.forall_mem_cons.mp hmoves
    refine ih (t := a.leaves) ?_ later
    cases a <;> simpa [Motion.leaves, position?, Motion.point] using first

theorem lift_points {t : Tool α} (ht : ∀ p ∈ t.position?, P p) :
    ∀ a ∈ t.lift.motions, P a.point := by
  cases t with
  | idle | up p => simp [lift]
  | down p => simpa [lift, Motion.point, position?] using ht

variable [Scalar α]

theorem draw_points (feed : α) (t : Tool α) {ps : List (Point α)} (hps : ∀ p ∈ ps, P p) :
    ∀ a ∈ (draw feed t ps).motions, P a.point := by
  induction ps generalizing t with
  | nil => simp [draw]
  | cons p ps ih =>
    obtain ⟨first, later⟩ := List.forall_mem_cons.mp hps
    rw [draw]
    split
    · exact List.forall_mem_cons.mpr ⟨first, ih (.down p) later⟩
    · simp [refuse]

/-- **An operation moves the tool to its points** or where it is. -/
theorem step_points (feed : α) {t : Tool α} (ht : ∀ p ∈ t.position?, P p) {op : Operation α}
    (hop : ∀ p ∈ op.points, P p) : ∀ a ∈ (t.step feed op).motions, P a.point := by
  cases op with
  | lift => exact lift_points ht
  | other => simp [step]
  | lower =>
    cases t with
    | idle | down p => simp [step, refuse]
    | up p => simpa [step, Motion.point, position?] using ht
  | travel p =>
    have moved : ∀ a ∈ (if isFinitePoint p then ⟨.up p, [.lifted p], none⟩
        else t.refuse (.notFinite p) : ToolRun α).motions, P a.point := by
      split
      · simpa [Motion.point, Operation.points] using hop
      · simp [refuse]
    cases t with
    | down q => simp [step, refuse]
    | idle | up q => exact moved
  | line p own =>
    cases t with
    | down q => exact draw_points _ _ hop
    | idle | up q => simp [step, refuse]
  | polyline p q rest own =>
    cases t with
    | down r => exact draw_points _ _ hop
    | idle | up r => simp [step, refuse]

/-- **So do operations one after another.** -/
theorem run_points (feed : α) {t : Tool α} (ht : ∀ p ∈ t.position?, P p)
    {ops : List (Operation α)} (hops : ∀ op ∈ ops, ∀ p ∈ op.points, P p) :
    ∀ a ∈ (t.run feed ops).motions, P a.point := by
  induction ops generalizing t with
  | nil => simp [run]
  | cons op ops ih =>
    obtain ⟨first, later⟩ := List.forall_mem_cons.mp hops
    have now := step_points feed ht first
    have there : ∀ p ∈ (t.step feed op).tool.position?, P p := by
      rw [(step_trail feed t op).2]
      exact after_points ht now
    rw [run]
    cases (t.step feed op).error with
    | some e => exact now
    | none =>
      intro a ha
      rcases List.mem_append.mp ha with ha | ha
      · exact now a ha
      · exact ih there later a ha

end Points

end Tool

/-! ### The board -/

namespace Vec3

/-- A vector that is not zero is a positive multiple of a unit vector. -/
theorem normalize_spec {v : Vec3 ℝ} (h : v ≠ ⟨0, 0, 0⟩) :
    v.normalize.dot v.normalize = 1 ∧ ∃ k, 0 < k ∧ v = v.normalize.scale k := by
  obtain ⟨x, y, z⟩ := v
  have positive : 0 < x * x + y * y + z * z := by
    by_contra zero
    have hx := mul_self_nonneg x
    have hy := mul_self_nonneg y
    have hz := mul_self_nonneg z
    apply h
    rw [mk.injEq]
    exact ⟨mul_self_eq_zero.mp (by linarith), mul_self_eq_zero.mp (by linarith),
      mul_self_eq_zero.mp (by linarith)⟩
  have root : (mk x y z).length * (mk x y z).length = x * x + y * y + z * z :=
    Real.mul_self_sqrt positive.le
  have long : 0 < (mk x y z).length := Real.sqrt_pos.mpr positive
  have unit : (mk x y z).normalize =
      ⟨x / (mk x y z).length, y / (mk x y z).length, z / (mk x y z).length⟩ := by
    simp [normalize, long.ne']
  rw [unit]
  refine ⟨?_, _, long, ?_⟩
  · rw [dot]
    field_simp
    linarith
  · simp only [scale, div_mul_cancel₀ _ long.ne']

end Vec3

namespace Board

/-- What the unit normal of a board with edges that are not parallel is: it is
perpendicular to both, to the side to which they turn counterclockwise. -/
structure IsNormal (b : Board ℝ) (n : Vec3 ℝ) : Prop where
  unit : n.dot n = 1
  right : n.dot b.edgeX = 0 ∧ n.dot b.edgeY = 0
  side : ∃ k, 0 < k ∧ b.edgeX.cross b.edgeY = n.scale k

theorem normal_isNormal {b : Board ℝ} (skew : b.edgeX.cross b.edgeY ≠ ⟨0, 0, 0⟩) :
    b.IsNormal b.normal := by
  obtain ⟨unit, k, positive, scaled⟩ := Vec3.normalize_spec skew
  refine ⟨unit, ?_, k, positive, scaled⟩
  change b.edgeX.cross b.edgeY = b.normal.scale k at scaled
  simp only [Vec3.cross, Vec3.scale, Vec3.mk.injEq] at scaled
  obtain ⟨hx, hy, hz⟩ := scaled
  constructor <;> apply mul_left_cancel₀ positive.ne' <;> simp only [Vec3.dot]
  · linear_combination -b.edgeX.x * hx - b.edgeX.y * hy - b.edgeX.z * hz
  · linear_combination -b.edgeY.x * hx - b.edgeY.y * hy - b.edgeY.z * hz

end Board

/-! ### Conversions -/

namespace Conversion

/-- All operations of a conversion go near its window if its polylines and passes
lie there. -/
theorem points_near {r : Conversion ℝ} {near : Set (Point ℝ)}
    (hlines : ∀ l ∈ r.polylines, ∀ p ∈ l.vertices, p ∈ near)
    (hpasses : ∀ pass ∈ r.passes, pass.entry ∈ near ∧ pass.exit ∈ near) :
    ∀ op ∈ r.operations, ∀ p ∈ op.points, p ∈ near := by
  intro op hop p hp
  rcases List.mem_append.mp hop with hop | hop
  · obtain ⟨l, hl, hp⟩ := Operation.points_ofPolylines hop p hp
    exact hlines l hl p hp
  · obtain ⟨pass, hpass, rfl | rfl⟩ := Operation.points_ofPasses hop p hp
    · exact (hpasses pass hpass).1
    · exact (hpasses pass hpass).2

/-- The operations of a conversion are carried out, and the tool goes to their points
only. -/
theorem exists_motions (r : Conversion ℝ) (tool : ToolSettings ℝ) {P : Point ℝ → Prop}
    (hops : ∀ op ∈ r.operations, ∀ p ∈ op.points, P p) :
    ∃ moves, (r.plotter tool).motions r.operations = .ok moves ∧ ∀ move ∈ moves, P move.point := by
  have idle : ∀ p ∈ (Tool.idle : Tool ℝ).position?, P p := by simp [Tool.position?]
  have goes := Tool.run_points tool.drawFeed idle hops
  -- Real coordinates are finite.
  have strokes : Tool.Makes tool.drawFeed r.operations _ :=
    Tool.makes_strokes tool.drawFeed none (fun _ _ _ _ => rfl) fun _ _ => ⟨rfl, rfl⟩
  obtain ⟨t, -, carried⟩ := strokes .idle rfl
  have ends : ∀ p ∈ (Tool.idle.run tool.drawFeed r.operations).tool.position?, P p := by
    rw [(Tool.run_trail tool.drawFeed .idle r.operations).2]
    exact Tool.after_points idle goes
  have made : (r.plotter tool).motions r.operations = .ok
      ((Tool.idle.run tool.drawFeed r.operations).motions ++
        (Tool.idle.run tool.drawFeed r.operations).tool.lift.motions) := by
    simp only [Plotter.motions, Plotter.run, plotter, carried]
  refine ⟨_, made, fun move hmove => ?_⟩
  rcases List.mem_append.mp hmove with hmove | hmove
  · exact goes move hmove
  · exact Tool.lift_points ends move hmove

/-- **The robot stays on the board.** Whatever polylines are converted for a
viewport and a board, they are clipped, filled and carried out, and every motion goes
to the place on the board of a point within the margin of the viewport. The motions
above the board, and only they, keep off it by the departure along its unit normal. -/
theorem motions_near_board (v : Viewport ℝ) (hw : 0 < v.width) (hh : 0 < v.height)
    (origin edgeX edgeY : Vec3 ℝ) (skew : edgeX.cross edgeY ≠ ⟨0, 0, 0⟩) (tolerance : ℝ)
    {step : ℝ} (hstep : 0 < step) (tool : ToolSettings ℝ) (ls : List (Polyline ℝ)) :
    let board : Board ℝ := ⟨v.width, v.height, origin, edgeX, edgeY, hw.not_ge, hh.not_ge⟩
    let p : Placement ℝ := ⟨v, board, tolerance, step⟩
    let d : ℝ := 1 / 10 ^ 9 * max 1 (max v.width v.height)
    ∃ passes moves normal, p.fill (p.window.splitAll ls) = .ok passes ∧ board.IsNormal normal ∧
      let r : Conversion ℝ := ⟨p, p.window.splitAll ls, passes⟩
      (r.plotter tool).motions r.operations = .ok moves ∧
      ∀ move ∈ moves, ∃ x y, (-d ≤ x ∧ x ≤ v.width + d) ∧ (-d ≤ y ∧ y ≤ v.height + d) ∧
        let place := origin + (edgeX.scale (x / v.width) + edgeY.scale (y / v.height))
        (r.plotter tool).target move =
          if move.onBoard then place else place + normal.scale tool.departure := by
  intro board p d
  have proper : p.window.IsProper := ⟨by
    change (0 : ℝ) ≤ Scalar.epsilon
    rw [Exact.epsilon_eq]
    norm_num, hw, hh⟩
  have margin : p.window.margin = d := congrArg (· * _) Exact.epsilon_eq
  obtain ⟨passes, filled, ends⟩ := Placement.exists_fill proper hstep ls
  have pieces (l : Polyline ℝ) (hl : l ∈ p.window.splitAll ls) :
      ∀ q ∈ l.vertices, q ∈ p.window.near := by
    obtain ⟨source, -, hl⟩ := List.mem_flatMap.mp hl
    exact proper.mem_near_of_mem_split hl
  obtain ⟨moves, carried, near⟩ :=
    exists_motions ⟨p, p.window.splitAll ls, passes⟩ tool (points_near pieces ends)
  refine ⟨passes, moves, board.normal, filled, Board.normal_isNormal skew, carried,
    fun move hmove => ?_⟩
  obtain ⟨x, y⟩ := near move hmove
  rw [margin] at x y
  refine ⟨move.point.x, move.point.y, x, y, ?_⟩
  cases move <;> rfl

/-- A region that reaches out of the viewport is drawn on a slanted board up to the
edge of the board and no further. -/
theorem motions_near_board_slanted :
    let board : Board ℝ :=
      ⟨10, 20, ⟨1, 2, 3⟩, ⟨100, 0, 0⟩, ⟨0, 200, 50⟩, by norm_num, by norm_num⟩
    let p : Placement ℝ := ⟨⟨10, 20, .identity⟩, board, 1, 2⟩
    let region : Polyline ℝ := ⟨⟨5, 5⟩, [⟨15, 5⟩, ⟨5, 25⟩, ⟨5, 5⟩], true⟩
    ∃ passes moves, p.fill (p.window.splitAll [region]) = .ok passes ∧
      let r : Conversion ℝ := ⟨p, p.window.splitAll [region], passes⟩
      (r.plotter ⟨5, 40, 120⟩).motions r.operations = .ok moves ∧
      ∀ move ∈ moves, move.onBoard = true →
        ((r.plotter ⟨5, 40, 120⟩).target move).x ≤ 101 + 2 / 10 ^ 7 := by
  intro board p region
  have skew : board.edgeX.cross board.edgeY ≠ ⟨0, 0, 0⟩ := by norm_num [Vec3.cross, board]
  obtain ⟨passes, moves, normal, filled, -, carried, places⟩ :=
    motions_near_board p.viewport (by norm_num [p]) (by norm_num [p]) ⟨1, 2, 3⟩ ⟨100, 0, 0⟩
      ⟨0, 200, 50⟩ skew 1 two_pos ⟨5, 40, 120⟩ [region]
  refine ⟨passes, moves, filled, carried, fun move hmove down => ?_⟩
  obtain ⟨x, y, ⟨-, right⟩, -, place⟩ := places move hmove
  refine (congrArg Vec3.x (place.trans (if_pos down))).trans_le ?_
  have at_x : ((⟨1, 2, 3⟩ : Vec3 ℝ) + ((⟨100, 0, 0⟩ : Vec3 ℝ).scale (x / p.viewport.width) +
      (⟨0, 200, 50⟩ : Vec3 ℝ).scale (y / p.viewport.height))).x =
        1 + (100 * (x / 10) + 0 * (y / 20)) := rfl
  rw [at_x]
  norm_num [p] at right
  linarith

end Conversion

end BoardPlotter
