import BoardPlotter.Motion.Board
import BoardPlotter.Proofs.Scalar.Order

/-!
# The sides of a board

A board has no side of zero or less, so whatever is divided by a side has a quotient
(`Board.div?_width`, `Board.div?_height`). The scales and displacements of a board are
what they are with every division checked.
-/

namespace BoardPlotter.Board

open Scalar

section Quotients

variable {α : Type} [Scalar α] [OrderedEq α] (b : Board α)

theorem div?_width (x : α) : div? x b.width = .ok (x / b.width) :=
  if_neg fun zero => b.wide (OrderedEq.le_of_beq zero)

theorem div?_height (y : α) : div? y b.height = .ok (y / b.height) :=
  if_neg fun zero => b.high (OrderedEq.le_of_beq zero)

theorem scaleX_checked : div? b.edgeX.length b.width = .ok b.scaleX := b.div?_width _

theorem scaleY_checked : div? b.edgeY.length b.height = .ok b.scaleY := b.div?_height _

/-- **Every displacement has one on the board.** -/
theorem offset_checked (p : Point α) :
    (do
      let x ← div? p.x b.width
      let y ← div? p.y b.height
      return b.edgeX.scale x + b.edgeY.scale y) = .ok (b.offset p) := by
  rw [div?_width, div?_height]
  rfl

end Quotients

variable (b : Board ℝ)

theorem width_pos : 0 < b.width := not_le.mp b.wide

theorem height_pos : 0 < b.height := not_le.mp b.high

/-- Parts of the viewport are the same parts of the edges of the board. -/
theorem place_part (s t : ℝ) :
    b.place ⟨s * b.width, t * b.height⟩ =
      b.origin + (b.edgeX.scale s + b.edgeY.scale t) := by
  rw [place, offset, mul_div_cancel_right₀ s b.width_pos.ne',
    mul_div_cancel_right₀ t b.height_pos.ne']

end BoardPlotter.Board
