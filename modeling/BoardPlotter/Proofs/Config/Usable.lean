import BoardPlotter.Motion.Board
import BoardPlotter.Proofs.Config.Refusal
import BoardPlotter.Proofs.Except

/-!
# What a loaded configuration is good for

The numbers of a configuration that is loaded are in range (`Config.InRange`). Its corners are of
use to the board (`Corners.Usable`) precisely if the cross product of its edges has a finite
length (`Config.ofValue_usable`): a sine that is no number is not less than the least one, so
corners out of reach pass for corners that span a plane.
-/

namespace BoardPlotter

open Double Scalar Value

def Double.Positive (x : Float) : Prop := x.isFinite ∧ 0 < x

namespace Config

/-- What passes a check that refuses all that is not finite. -/
theorem finite_eq_ok_iff {ε : Type} {x : Float} {p : Prop} [Decidable p] {e : ε} :
    (if !x.isFinite || p then .error e else .ok () : Except ε Unit) = .ok () ↔
      x.isFinite ∧ ¬ p := by
  rw [Except.guard_eq_ok_iff, Bool.or_eq_true, not_or, decide_eq_true_iff]
  simp

theorem positive_eq_ok_iff {name : String} {x : Float} :
    positive name x = .ok () ↔ Positive x := by
  refine finite_eq_ok_iff.trans (and_congr_right fun finite => ?_)
  exact (lt_iff_not_le (ne_notANumber_of_isFinite finite) zero_ne_notANumber).symm

theorem atLeastOne_eq_ok_iff {name : String} {n : Int} :
    atLeastOne (α := Float) name n = .ok () ↔ 1 ≤ n := by
  rw [atLeastOne, Except.guard_eq_ok_iff, Int.not_lt]

/-- All numbers but those of the corners are in range. -/
structure InRange (c : Config Float) : Prop where
  accuracy : Positive c.accuracy
  fillSpacing : Positive c.fillSpacing
  drawFeed : Positive c.tool.drawFeed
  travelFeed : Positive c.tool.travelFeed
  departure : c.tool.departure.isFinite ∧ 0 ≤ c.tool.departure
  defaultWidth : Positive c.defaultWidth
  defaultHeight : Positive c.defaultHeight
  depth : 1 ≤ c.depth
  segments : ∀ n ∈ c.segments, 1 ≤ n

end Config

namespace Corners

/-- The corners are finite, the edges have lengths and span a plane, and a board between them has
a finite normal that is not zero. -/
structure Usable (c : Corners Float) : Prop where
  origin : c.origin.IsFinite
  endX : c.endX.IsFinite
  endY : c.endY.IsFinite
  apart : 0 < c.edgeX.length * c.edgeY.length
  plane : leastSine ≤ c.sine
  normal : ∀ width height board, Board.ofCorners width height c.origin c.endX c.endY = .ok board →
    board.normal.IsFinite ∧ ∃ x ∈ board.normal.coords, ¬ (x == 0) = true

variable {c : Corners Float}

theorem ofCorners_normal {width height : Float} {board : Board Float}
    (h : Board.ofCorners width height c.origin c.endX c.endY = .ok board) :
    board.normal = (c.edgeX.cross c.edgeY).normalize := by
  unfold Board.ofCorners at h
  split at h
  · cases h
  · cases h
    rfl

theorem check_eq_ok_iff : c.check = .ok () ↔
    (¬ (c.edgeX.length == 0) = true ∧ ¬ (c.edgeY.length == 0) = true) ∧ ¬ c.sine < leastSine := by
  rw [check_eq, ← not_or, ← Bool.or_eq_true]
  split
  next short => exact ⟨nofun, fun h => (h.1 short).elim⟩
  next some_ => exact Except.guard_eq_ok_iff.trans (and_iff_right some_).symm

theorem zero_lt_leastSine : (0 : Float) < leastSine := by decide +kernel

/-- The edges of a plane have a cross product other than zero. -/
theorem cross_length_ne_zero (apart : 0 < c.edgeX.length * c.edgeY.length)
    (plane : leastSine ≤ c.sine) :
    ¬ ((c.edgeX.cross c.edgeY).length == 0) = true := by
  intro zero
  obtain ⟨s, zero⟩ := beq_zero_iff.mp zero
  exact ne_zero_of_le zero_lt_leastSine plane (beq_zero_iff.mpr (zero_div apart zero))

/-- A sine that is finite and not refused makes the corners usable. -/
theorem usable_of_isFinite (h : c.check = .ok ())
    (finite : (c.edgeX.cross c.edgeY).length.isFinite) : c.Usable := by
  obtain ⟨⟨x, y⟩, sine⟩ := check_eq_ok_iff.mp h
  obtain ⟨finiteX, finiteY⟩ := Vec3.isFinite_of_cross (Vec3.isFinite_of_length finite)
  obtain ⟨endX, origin⟩ := Vec3.isFinite_of_sub finiteX
  obtain ⟨endY, -⟩ := Vec3.isFinite_of_sub finiteY
  have apart := Vec3.length_mul_length_pos finiteX finiteY x y
  have least : parts leastSine ≠ .notANumber := ne_notANumber_of_isFinite (by decide +kernel)
  have plane : leastSine ≤ c.sine :=
    (le_iff_not_lt (div_ne_notANumber apart finite) least).mpr sine
  have normal := (Vec3.normalize_ne_zero_iff (cross_length_ne_zero apart plane)).mpr finite
  refine ⟨origin, endX, endY, apart, plane, fun width height board h => ?_⟩
  rw [← ofCorners_normal h] at normal
  exact normal

theorem usable_iff (h : c.check = .ok ()) :
    c.Usable ↔ (c.edgeX.cross c.edgeY).length.isFinite := by
  refine ⟨fun usable => ?_, usable_of_isFinite h⟩
  have normal := usable.normal 1 1 _ rfl
  exact (Vec3.normalize_ne_zero_iff (cross_length_ne_zero usable.apart usable.plane)).mp normal

end Corners

namespace Config

theorem checkRobot_eq_ok_iff (c : Config Float) : c.checkRobot = .ok () ↔
    Positive c.accuracy ∧ Positive c.fillSpacing ∧ Positive c.tool.drawFeed ∧
      Positive c.tool.travelFeed ∧ c.tool.departure.isFinite ∧ 0 ≤ c.tool.departure := by
  unfold checkRobot
  simp only [Except.then_eq_ok_iff, positive_eq_ok_iff]
  refine Iff.rfl.and (Iff.rfl.and (Iff.rfl.and (Iff.rfl.and ?_)))
  refine finite_eq_ok_iff.trans (and_congr_right fun finite => ?_)
  exact (le_iff_not_lt (ne_notANumber_of_isFinite finite) zero_ne_notANumber).symm

theorem checkLimits_eq_ok_iff (c : Config Float) : c.checkLimits = .ok () ↔
    Positive c.defaultWidth ∧ Positive c.defaultHeight ∧ 1 ≤ c.depth ∧
      ∀ n ∈ c.segments, 1 ≤ n := by
  unfold checkLimits
  simp only [Except.then_eq_ok_iff, positive_eq_ok_iff, atLeastOne_eq_ok_iff]
  refine Iff.rfl.and (Iff.rfl.and (Iff.rfl.and ?_))
  cases c.segments with
  | none => exact iff_of_true rfl nofun
  | some n => exact atLeastOne_eq_ok_iff.trans (by simp)

theorem check_eq_ok_iff (c : Config Float) :
    c.check = .ok () ↔ c.InRange ∧ c.corners.check = .ok () := by
  have check : c.check = .ok () ↔
      c.checkRobot = .ok () ∧ c.checkLimits = .ok () ∧ c.corners.check = .ok () := by
    unfold Config.check
    simp only [Except.then_eq_ok_iff, Except.mapError_eq_ok_iff]
  rw [check, checkRobot_eq_ok_iff, checkLimits_eq_ok_iff]
  constructor
  · rintro ⟨⟨accuracy, spacing, draw, travel, departure⟩, ⟨width, height, depth, segments⟩, corners⟩
    exact ⟨⟨accuracy, spacing, draw, travel, departure, width, height, depth, segments⟩, corners⟩
  · rintro ⟨r, corners⟩
    exact ⟨⟨r.accuracy, r.fillSpacing, r.drawFeed, r.travelFeed, r.departure⟩,
      ⟨r.defaultWidth, r.defaultHeight, r.depth, r.segments⟩, corners⟩

theorem check_of_ofValue {path : String} {v : Value} {c : Config Float}
    (h : ofValue path v = .ok c) : c.check = .ok () := by
  by_cases null : v = .null
  · rw [null] at h
    cases h
  · rw [ofValue_eq path null] at h
    obtain ⟨d, -, h⟩ := Except.bind_eq_ok_iff.mp h
    obtain ⟨⟨⟩, checked, h⟩ := Except.bind_eq_ok_iff.mp h
    cases h
    exact checked

/-- **What loading promises.** The numbers of a configuration that is loaded are in range. Its
corners are usable precisely if the cross product of the edges has a finite length. -/
theorem ofValue_usable {path : String} {v : Value} {c : Config Float}
    (h : ofValue path v = .ok c) : c.InRange ∧
      (c.corners.Usable ↔ (c.corners.edgeX.cross c.corners.edgeY).length.isFinite) := by
  obtain ⟨inRange, corners⟩ := (check_eq_ok_iff c).mp (check_of_ofValue h)
  exact ⟨inRange, Corners.usable_iff corners⟩

theorem flat_sheet_usable : ∃ c,
    ofValue "converter.yaml" (sheet [.int 297, .int 0, .int 0] [.int 0, .int 210, .int 0] []) =
      .ok c ∧ c.InRange ∧ c.corners.Usable := by
  obtain ⟨c, loaded, finite⟩ := Except.exists_of_any (p := fun c : Config Float =>
      (c.corners.edgeX.cross c.corners.edgeY).length.isFinite)
    (x := ofValue "converter.yaml"
      (sheet [.int 297, .int 0, .int 0] [.int 0, .int 210, .int 0] [])) (by decide +kernel)
  obtain ⟨inRange, usable⟩ := ofValue_usable loaded
  exact ⟨c, loaded, inRange, usable.mpr finite⟩

/-- Edges that are one and the same are taken for those of a plane if their squares are infinite. -/
theorem distant_parallel_not_usable : ∃ c,
    ofValue "converter.yaml" (sheet [.float 1e200, .float 1e200, .int 0]
      [.float 1e200, .float 1e200, .int 0] []) = .ok c ∧ ¬ c.corners.Usable := by
  obtain ⟨c, loaded, sine⟩ := Except.exists_of_any (p := fun c : Config Float =>
      !decide (Corners.leastSine ≤ c.corners.sine))
    (x := ofValue "converter.yaml" (sheet [.float 1e200, .float 1e200, .int 0]
      [.float 1e200, .float 1e200, .int 0] [])) (by decide +kernel)
  refine ⟨c, loaded, fun usable => ?_⟩
  rw [decide_eq_true usable.plane] at sine
  cases sine

end Config

end BoardPlotter
