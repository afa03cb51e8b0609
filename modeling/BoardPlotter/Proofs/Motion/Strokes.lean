import BoardPlotter.Proofs.Motion.Contact

/-!
# What strokes draw

A stroke finds the tool lifted and leaves it lifted, so strokes do not depend on
one another: each makes its own motions wherever the tool comes from, and a job of
strokes makes them one after the other (`Tool.Makes`).

The program of outlines and passes is therefore spelled out by its geometry
(`Program.text_strokes`). Its head divides by the sides of the board, and so does every
position; a board has no side by which that fails (`Board.scaleX_checked`,
`Board.scaleY_checked`, `Board.offset_checked`).
-/

namespace BoardPlotter

section Motions

variable {α : Type}

/-- The motions along an outline: above its start, onto it, through all vertices,
and up from the last. An outline of one vertex has none. -/
def Polyline.motions (lowering feed : α) (l : Polyline α) : List (Motion α) :=
  if l.rest.isEmpty then []
  else .lifted l.start :: .surface l.start lowering ::
    (l.start :: l.rest).map (.surface · feed) ++ [.lifted (l.rest.getLast?.getD l.start)]

/-- The motions of a pass, none if it has no length. -/
def Pass.motions [BEq (Point α)] (lowering feed : α) (s : Pass α) : List (Motion α) :=
  if s.entry == s.exit then []
  else [.lifted s.entry, .surface s.entry lowering, .surface s.exit feed, .lifted s.exit]

end Motions

namespace Tool

variable {α : Type} [Scalar α]

/-- From anywhere above the board, these operations make these motions and end above
the board again. -/
def Makes (feed : α) (ops : List (Operation α)) (moves : List (Motion α)) : Prop :=
  ∀ t : Tool α, t.isUp = true → ∃ t' : Tool α, t'.isUp = true ∧ t.run feed ops = ⟨t', moves, none⟩

/-- An operation that is carried out leaves the tool to those behind it. -/
theorem run_cons {feed : α} {t t' : Tool α} {op : Operation α} {moves : List (Motion α)}
    (carried : t.step feed op = ⟨t', moves, none⟩) (ops : List (Operation α)) :
    t.run feed (op :: ops) =
      { t'.run feed ops with motions := moves ++ (t'.run feed ops).motions } := by
  rw [run, carried]

/-- So do operations that were all carried out. -/
theorem run_append {feed : α} {t t' : Tool α} {first : List (Operation α)}
    {moves : List (Motion α)} (carried : t.run feed first = ⟨t', moves, none⟩)
    (second : List (Operation α)) :
    t.run feed (first ++ second) =
      { t'.run feed second with motions := moves ++ (t'.run feed second).motions } := by
  induction first generalizing t moves with
  | nil =>
    cases carried
    rfl
  | cons op first ih =>
    cases stopped : (t.step feed op).error with
    | some e =>
      simp only [run, stopped] at carried
      rw [carried] at stopped
      cases stopped
    | none =>
      have step : t.step feed op = ⟨(t.step feed op).tool, (t.step feed op).motions, none⟩ := by
        rw [← stopped]
      rw [run_cons step] at carried
      obtain ⟨tool, made, error⟩ := ToolRun.mk.inj carried
      have rest : (t.step feed op).tool.run feed first =
          ⟨t', ((t.step feed op).tool.run feed first).motions, none⟩ := by
        rw [← tool, ← error]
      rw [List.cons_append, run_cons step, ih rest, ← made, List.append_assoc]

theorem Makes.nil (feed : α) : Makes feed [] ([] : List (Motion α)) := fun t up => ⟨t, up, rfl⟩

theorem Makes.append {feed : α} {first second : List (Operation α)} {as bs : List (Motion α)}
    (h₁ : Makes feed first as) (h₂ : Makes feed second bs) :
    Makes feed (first ++ second) (as ++ bs) := by
  intro t up
  obtain ⟨t', lifted, carried⟩ := h₁ t up
  obtain ⟨t'', lifted, rest⟩ := h₂ t' lifted
  exact ⟨t'', lifted, by rw [run_append carried, rest]⟩

theorem Makes.flatMap {β : Type} {feed : α} {ops : β → List (Operation α)}
    {moves : β → List (Motion α)} {xs : List β} (h : ∀ x ∈ xs, Makes feed (ops x) (moves x)) :
    Makes feed (xs.flatMap ops) (xs.flatMap moves) := by
  induction xs with
  | nil => exact Makes.nil feed
  | cons x xs ih =>
    obtain ⟨first, later⟩ := List.forall_mem_cons.mp h
    rw [List.flatMap_cons, List.flatMap_cons]
    exact first.append (ih later)

/-- Finite points are drawn through to the last. -/
theorem draw_eq (feed : α) (q : Point α) {ps : List (Point α)}
    (finite : ∀ p ∈ ps, isFinitePoint p = true) :
    draw feed (down q) ps =
      ⟨down (ps.getLast?.getD q), ps.map (Motion.surface · feed), none⟩ := by
  induction ps generalizing q with
  | nil => rfl
  | cons p ps ih =>
    obtain ⟨first, later⟩ := List.forall_mem_cons.mp finite
    rw [draw, if_pos first, ih p later, List.getLast?_cons, Option.getD_some]
    rfl

/-- A stroke goes above its start, onto it, draws what it has to, and goes up. -/
theorem makes_stroke {feed : α} {p q : Point α} {mark : Operation α} {marks : List (Motion α)}
    (finite : isFinitePoint p = true)
    (drawn : step feed (down p) mark = ⟨down q, marks, none⟩) :
    Makes feed [.travel p, .lower, mark, .lift]
      (.lifted p :: .surface p feed :: marks ++ [.lifted q]) := by
  intro t lifted
  have travel : t.step feed (.travel p) = ⟨up p, [.lifted p], none⟩ := by
    cases t with
    | down r => cases lifted
    | idle | up r => simp only [step, finite, if_true]
  refine ⟨up q, rfl, ?_⟩
  rw [run_cons travel, run_cons (t := up p) rfl, run_cons drawn, run_cons (t := down q) rfl]
  rfl

theorem makes_ofPolylines (feed : α) (own : Option α) {ls : List (Polyline α)}
    (finite : ∀ l ∈ ls, ∀ p ∈ l.vertices, isFinitePoint p = true) :
    Makes feed (Operation.ofPolylines ls own)
      (ls.flatMap (Polyline.motions feed (own.getD feed))) := by
  apply Makes.flatMap
  rintro ⟨start, _ | ⟨q, rest⟩, fill⟩ hl
  · exact Makes.nil feed
  · have vertices : ∀ p ∈ start :: q :: rest, isFinitePoint p = true := finite _ hl
    have drawn := draw_eq (own.getD feed) start vertices
    rw [List.getLast?_cons, Option.getD_some] at drawn
    exact makes_stroke (vertices start List.mem_cons_self) drawn

theorem makes_ofPasses (feed : α) (own : Option α) {passes : List (Pass α)}
    (finite : ∀ s ∈ passes, isFinitePoint s.entry = true ∧ isFinitePoint s.exit = true) :
    Makes feed (Operation.ofPasses passes own)
      (passes.flatMap (Pass.motions feed (own.getD feed))) := by
  apply Makes.flatMap
  intro s hs
  obtain ⟨entry, exit⟩ := finite s hs
  rw [Pass.motions]
  split
  · exact Makes.nil feed
  · have drawn : step feed (down s.entry) (.line s.exit own) =
        ⟨down s.exit, [.surface s.exit (own.getD feed)], none⟩ :=
      draw_eq _ _ (List.forall_mem_singleton.mpr exit)
    exact makes_stroke entry drawn

/-- Outlines and passes behind them are carried out to the end. -/
theorem makes_strokes (feed : α) (own : Option α) {ls : List (Polyline α)}
    {passes : List (Pass α)} (outlines : ∀ l ∈ ls, ∀ p ∈ l.vertices, isFinitePoint p = true)
    (hatching : ∀ s ∈ passes, isFinitePoint s.entry = true ∧ isFinitePoint s.exit = true) :
    Makes feed (Operation.ofPolylines ls own ++ Operation.ofPasses passes own)
      (ls.flatMap (Polyline.motions feed (own.getD feed)) ++
        passes.flatMap (Pass.motions feed (own.getD feed))) :=
  (makes_ofPolylines feed own outlines).append (makes_ofPasses feed own hatching)

end Tool

namespace Program

/-- A motion as a line: its word, where the robot goes and at which feed. -/
def motionLine (word : String) (v : Vec3 Float) (feed : Float) : String :=
  s!"{word} X{Double.fixed 3 v.x} Y{Double.fixed 3 v.y} Z{Double.fixed 3 v.z}" ++
    s!" F{Double.fixed 1 (feed * 60.0)}\n"

/-- The line that goes above a point. -/
def liftedLine (m : Plotter Float) (p : Point Float) : String :=
  motionLine "G0" (m.board.above p m.settings.departure) m.settings.travelFeed

/-- The line that goes to a point on the board. -/
def surfaceLine (m : Plotter Float) (feed : Float) (p : Point Float) : String :=
  motionLine "G1" (m.board.place p) feed

theorem text_of_makes {m : Plotter Float} {ops : List (Operation Float)}
    {moves : List (Motion Float)} (made : Tool.Makes m.settings.drawFeed ops moves) :
    text m ops = .ok (head m.board ++ lines m moves ++ tail m []) := by
  obtain ⟨t, up, carried⟩ := made .idle rfl
  have lifted : t.lift.motions = [] := by
    cases t with
    | down p => cases up
    | idle | up p => rfl
  rw [text, Plotter.run, carried]
  simp only [lifted]

theorem lines_flatMap {β : Type} (m : Plotter Float) (f : β → List (Motion Float)) (xs : List β) :
    (xs.flatMap f).map (line m) = xs.flatMap fun x => (f x).map (line m) :=
  List.map_flatMap

/-- **A program draws the geometry.** Whatever the board and the tool, the strokes of
outlines and passes with finite coordinates are never refused. The lines between the
head and the tail of the program go, for each outline of two vertices or more, above
its start, down onto it, through every vertex and up from the last; then, for each
pass that goes somewhere, above its entry, down, to its exit and up. Nothing else
moves the robot. -/
theorem text_strokes (m : Plotter Float) (own : Option Float) (ls : List (Polyline Float))
    (passes : List (Pass Float))
    (outlines : ∀ l ∈ ls, ∀ p ∈ l.vertices, Tool.isFinitePoint p = true)
    (hatching : ∀ s ∈ passes,
      Tool.isFinitePoint s.entry = true ∧ Tool.isFinitePoint s.exit = true) :
    let lowering := surfaceLine m m.settings.drawFeed
    let drawing := surfaceLine m (own.getD m.settings.drawFeed)
    text m (Operation.ofPolylines ls own ++ Operation.ofPasses passes own) = .ok
      (head m.board ++
        String.join (
          (ls.flatMap fun l => match l.vertices with
            | p :: q :: rest =>
              liftedLine m p :: lowering p :: (p :: q :: rest).map drawing ++ [liftedLine m l.last]
            | _ => []) ++
          passes.flatMap fun s =>
            if s.entry == s.exit then []
            else [liftedLine m s.entry, lowering s.entry, drawing s.exit, liftedLine m s.exit]) ++
        "\n; --- End of job ---\nM400 ; wait for motion complete\n") := by
  intro lowering drawing
  have made := Tool.makes_strokes m.settings.drawFeed own outlines hatching
  have ending : tail m [] = "\n; --- End of job ---\nM400 ; wait for motion complete\n" := rfl
  rw [text_of_makes made, ending, lines, List.map_append, lines_flatMap, lines_flatMap]
  congr 6
  · funext l
    obtain ⟨start, _ | ⟨q, rest⟩, fill⟩ := l
    · rfl
    · simp only [Polyline.motions, Polyline.vertices, List.isEmpty_cons, Bool.false_eq_true,
        if_false, List.map_cons, List.map_append, List.map_map, List.map_nil]
      rfl
  · funext s
    rw [Pass.motions, apply_ite (List.map (line m))]
    rfl

/-- An open outline, one of a single vertex, a pass of no length and one of two
units. -/
theorem text_strokes_mixed :
    let m := doubled
    let ls : List (Polyline Float) := [⟨⟨1, 2⟩, [⟨3, 4⟩, ⟨5, 6⟩], false⟩, ⟨⟨9, 9⟩, [], true⟩]
    let passes : List (Pass Float) := [⟨⟨1, 1⟩, ⟨1, 1⟩⟩, ⟨⟨2, 2⟩, ⟨4, 2⟩⟩]
    (∀ l ∈ ls, ∀ p ∈ l.vertices, Tool.isFinitePoint p = true) ∧
    (∀ s ∈ passes, Tool.isFinitePoint s.entry = true ∧ Tool.isFinitePoint s.exit = true) ∧
    text m (Operation.ofPolylines ls none ++ Operation.ofPasses passes none) = .ok
      (head m.board ++
        String.join [liftedLine m ⟨1, 2⟩, surfaceLine m 40 ⟨1, 2⟩, surfaceLine m 40 ⟨1, 2⟩,
          surfaceLine m 40 ⟨3, 4⟩, surfaceLine m 40 ⟨5, 6⟩, liftedLine m ⟨5, 6⟩,
          liftedLine m ⟨2, 2⟩, surfaceLine m 40 ⟨2, 2⟩, surfaceLine m 40 ⟨4, 2⟩,
          liftedLine m ⟨4, 2⟩] ++
        "\n; --- End of job ---\nM400 ; wait for motion complete\n") := by
  intro m ls passes
  have outlines : ∀ l ∈ ls, ∀ p ∈ l.vertices, Tool.isFinitePoint p = true := by decide
  have hatching : ∀ s ∈ passes,
      Tool.isFinitePoint s.entry = true ∧ Tool.isFinitePoint s.exit = true := by decide
  exact ⟨outlines, hatching, text_strokes m none ls passes outlines hatching⟩

end Program

end BoardPlotter
