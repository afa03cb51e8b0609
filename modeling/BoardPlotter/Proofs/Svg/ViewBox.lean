import BoardPlotter.Svg.Viewport
import BoardPlotter.Proofs.Motion.Board

/-!
# View boxes on the board

Where there is a view box, the sides of the viewport are positive, however many of
them the root element gives (`Viewport.sides_pos`), and each part of the box becomes the
same part of the viewport (`Viewport.fit_part`). The board spans the same parts of its
edges (`Board.place_part`), so the two divisions by a side cancel
(`Viewport.place_viewBox`).
-/

namespace BoardPlotter

/-- A view box that is read spans an area. -/
theorem ViewBox.pos_of_ofString? {value : String} {box : ViewBox ℝ}
    (read : ofString? value = some box) : 0 < box.width ∧ 0 < box.height := by
  rw [ofString?] at read
  split at read
  · split at read
    · cases read
    · rename_i spans
      obtain rfl := Option.some.inj read
      exact (not_or.mp spans).imp lt_of_not_ge lt_of_not_ge
  · cases read

namespace Viewport

theorem pos_of_mem_sideOf {root : Element} {name : String} {x : ℝ}
    (given : x ∈ (sideOf root name).1) : 0 < x := by
  rw [sideOf] at given
  split at given
  · cases given
  · split at given
    · split at given
      · obtain rfl := Option.some.inj given
        assumption
      · cases given
    · cases given

variable {box : ViewBox ℝ} (wide : 0 < box.width) (high : 0 < box.height)
include wide high

/-- Sides that are given are positive, so are those that follow from the other one. -/
theorem sides_pos {w h : Option ℝ} (hw : ∀ x ∈ w, 0 < x) (hh : ∀ x ∈ h, 0 < x) :
    0 < (sides box w h).1 ∧ 0 < (sides box w h).2 := by
  cases w with
  | none =>
    cases h with
    | none => exact ⟨wide, high⟩
    | some h =>
      have tall : 0 < h := hh h rfl
      exact ⟨by rw [sides]; positivity, tall⟩
  | some w =>
    have broad : 0 < w := hw w rfl
    cases h with
    | none => exact ⟨broad, by rw [sides]; positivity⟩
    | some h => exact ⟨broad, hh h rfl⟩

/-- **Parts of a view box become the same parts of the rectangle.** -/
theorem fit_part (w h s t : ℝ) :
    (fit box w h).apply ⟨box.x + s * box.width, box.y + t * box.height⟩ = ⟨s * w, t * h⟩ := by
  simp only [fit, Affine.apply, Affine.comp, Affine.scale, Affine.translate, Point.mk.injEq]
  constructor <;> field_simp <;> ring

omit wide high

/-- A root element with a view box has it fitted into a viewport that spans an area. -/
theorem resolve_viewBox {root : Element} {value : String}
    (given : root.get? "viewBox" = some value) (read : ViewBox.ofString? value = some box)
    (defaultWidth defaultHeight : ℝ) :
    let v := (resolve root defaultWidth defaultHeight).1
    0 < v.width ∧ 0 < v.height ∧ v.transform = fit box v.width v.height := by
  obtain ⟨wide, high⟩ := ViewBox.pos_of_ofString? read
  obtain ⟨broad, tall⟩ := sides_pos wide high (w := (sideOf root "width").1)
    (h := (sideOf root "height").1) (fun _ => pos_of_mem_sideOf) fun _ => pos_of_mem_sideOf
  simp only [resolve, boxOf, given, read]
  exact ⟨broad, tall, trivial⟩

/-- **A view box lands on the corners of the board.** Whatever sides the root element
gives, lacks or gives wrongly, the viewport of a root element with a view box has positive
sides, so that it is placed on the board, and each part of the view box comes to lie at
the same parts of the edges from the origin. -/
theorem place_viewBox {root : Element} {value : String} {box : ViewBox ℝ}
    (given : root.get? "viewBox" = some value) (read : ViewBox.ofString? value = some box)
    (defaultWidth defaultHeight : ℝ) (origin cornerX cornerY : Vec3 ℝ) :
    let v := (resolve root defaultWidth defaultHeight).1
    0 < v.width ∧ 0 < v.height ∧
      ∃ board, Board.ofCorners v.width v.height origin cornerX cornerY = .ok board ∧
        ∀ s t : ℝ, board.place
            (v.transform.apply ⟨box.x + s * box.width, box.y + t * box.height⟩) =
          origin + ((cornerX - origin).scale s + (cornerY - origin).scale t) := by
  intro v
  obtain ⟨broad, tall, fits⟩ := resolve_viewBox given read defaultWidth defaultHeight
  obtain ⟨wide, high⟩ := ViewBox.pos_of_ofString? read
  refine ⟨broad, tall, _, dif_neg (not_or.mpr ⟨broad.not_ge, tall.not_ge⟩), fun s t => ?_⟩
  rw [fits, fit_part wide high]
  exact Board.place_part _ s t

/-- The far corner of a view box, on a slanted board and with a width that is no length. -/
theorem place_viewBox_percent :
    let root := Element.mk "svg" [("viewBox", "10 20 50 25"), ("width", "50%"), ("height", "10")] []
    let v : Viewport ℝ := (resolve root 297 210).1
    root.get? "viewBox" = some "10 20 50 25" ∧
      ViewBox.ofString? "10 20 50 25" = some (⟨10, 20, 50, 25⟩ : ViewBox ℝ) ∧
      ∃ board, Board.ofCorners v.width v.height ⟨1, 2, 3⟩ ⟨101, 2, 3⟩ ⟨1, 42, 33⟩ = .ok board ∧
        board.place (v.transform.apply ⟨60, 45⟩) = ⟨101, 42, 33⟩ := by
  intro root v
  have given : root.get? "viewBox" = some "10 20 50 25" := rfl
  have numerals : Numeral.findAll "10 20 50 25".toList =
      [⟨false, 10, 0⟩, ⟨false, 20, 0⟩, ⟨false, 50, 0⟩, ⟨false, 25, 0⟩] := by
    decide +kernel
  have value (m : ℕ) : (Numeral.value ⟨false, m, 0⟩ : ℝ) = m := by
    rw [Numeral.value]
    exact mul_one _
  have read : ViewBox.ofString? "10 20 50 25" = some (⟨10, 20, 50, 25⟩ : ViewBox ℝ) := by
    rw [ViewBox.ofString?, numerals]
    simp only [List.map_cons, List.map_nil, value]
    norm_num
  obtain ⟨-, -, board, made, places⟩ :=
    place_viewBox given read 297 210 ⟨1, 2, 3⟩ ⟨101, 2, 3⟩ ⟨1, 42, 33⟩
  refine ⟨given, read, board, made, ?_⟩
  have corner : board.place (v.transform.apply ⟨10 + 1 * 50, 20 + 1 * 25⟩) =
      ⟨1 + ((101 - 1) * 1 + (1 - 1) * 1), 2 + ((2 - 2) * 1 + (42 - 2) * 1),
        3 + ((3 - 3) * 1 + (33 - 3) * 1)⟩ := places 1 1
  norm_num at corner
  exact corner

end Viewport

end BoardPlotter
