import Mathlib.Data.Prod.Lex
import BoardPlotter.Proofs.Scalar.Magnitude
import BoardPlotter.Proofs.Scalar.Real

/-!
# Comparisons that chain

Where numbers are only compared, all that matters is that comparisons chain
(`Scalar.Chained`). Those of the reals do. Those of doubles do as well: nothing compares
with what is no number, and the others are ordered by sign, exponent and mantissa
(`Double.compare_eq_rank`). Of both kinds, equal numbers are in order as well
(`Scalar.OrderedEq`), so only what is zero or less can equal zero.
-/

namespace BoardPlotter

/-- What lies below a bound lies below any greater one. -/
class Scalar.Chained (α : Type) [Scalar α] : Prop where
  le_trans {x y z : α} : x ≤ y → y ≤ z → x ≤ z
  lt_of_lt_of_le {x y z : α} : x < y → y ≤ z → x < z

/-- Numbers that are equal are in order. -/
class Scalar.OrderedEq (α : Type) [Scalar α] : Prop where
  le_of_beq {x y : α} : (x == y) = true → x ≤ y

instance Exact.instChained : Scalar.Chained ℝ where
  le_trans h h' := h.trans h'
  lt_of_lt_of_le h h' := h.trans_le h'

instance Exact.instOrderedEq : Scalar.OrderedEq ℝ where
  le_of_beq h := (beq_iff_eq.mp h).le

namespace Double

open Float.Model Float.Model.UnpackedFloat

/-- The place of a number among the others: its sign, then how far it is from zero. -/
def rank : UnpackedFloat → ℤ ×ₗ ℤ ×ₗ ℤ
  | .infinity .negative => toLex (-2, toLex (0, 0))
  | .finite .negative m e _ => toLex (-1, toLex (-e, -m))
  | .notANumber | .zero _ => toLex (0, toLex (0, 0))
  | .finite .positive m e _ => toLex (1, toLex (e, m))
  | .infinity .positive => toLex (2, toLex (0, 0))

theorem compare_neg (a b : ℤ) : compare (-a) (-b) = compare b a := by
  simp [compare, compareOfLessAndEq, eq_comm]

theorem compare_cast (a b : ℕ) : compare (a : ℤ) (b : ℤ) = compare a b := by
  simp [compare, compareOfLessAndEq]

/-- On one side of zero exponents go first, then mantissas. -/
theorem compare_toLex (k a b a' b' : ℤ) :
    compare (toLex (k, toLex (a, b))) (toLex (k, toLex (a', b'))) =
      (compare a a').then (compare b b') := by
  simp [Prod.Lex.compare_def, compareLex, compareOn]

/-- Numbers compare as their places do. -/
theorem compare_eq_rank {u v : UnpackedFloat} (hu : u ≠ .notANumber) (hv : v ≠ .notANumber) :
    u.compare v = some (compare (rank u) (rank v)) := by
  cases u with
  | notANumber => exact (hu rfl).elim
  | zero s => cases v with
    | notANumber => exact (hv rfl).elim
    | zero => rfl
    | infinity t | finite t => cases t <;> rfl
  | infinity s => cases v with
    | notANumber => exact (hv rfl).elim
    | zero => cases s <;> rfl
    | infinity t | finite t => cases s <;> cases t <;> rfl
  | finite s m e pos => cases v with
    | notANumber => exact (hv rfl).elim
    | zero => cases s <;> rfl
    | infinity t => cases s <;> cases t <;> rfl
    | finite t m' e' pos' =>
      cases s <;> cases t
      · -- Below zero the greater magnitude is the lesser number.
        change some ((compare e e').then (compare m m')).swap =
          some (compare (toLex (-1, toLex (-e, -(m : ℤ)))) (toLex (-1, toLex (-e', -(m' : ℤ)))))
        rw [compare_toLex, compare_neg, compare_neg, compare_cast, Ordering.swap_then,
          ← Std.OrientedCmp.eq_swap, ← Std.OrientedCmp.eq_swap]
      · rfl
      · rfl
      · change some ((compare e e').then (compare m m')) =
          some (compare (toLex (1, toLex (e, (m : ℤ)))) (toLex (1, toLex (e', (m' : ℤ)))))
        rw [compare_toLex, compare_cast]

/-- What compares is a number. -/
theorem ne_notANumber_of_compare {u v : UnpackedFloat} {o : Ordering}
    (h : u.compare v = some o) : u ≠ .notANumber ∧ v ≠ .notANumber := by
  constructor
  · rintro rfl
    cases h
  · rintro rfl
    cases u <;> cases h

variable {x y : Float}

theorem le_iff_rank : x ≤ y ↔
    parts x ≠ .notANumber ∧ parts y ≠ .notANumber ∧ rank (parts x) ≤ rank (parts y) := by
  rw [le_iff]
  constructor
  · intro h
    obtain ⟨hx, hy⟩ := h.elim ne_notANumber_of_compare ne_notANumber_of_compare
    rw [compare_eq_rank hx hy, Option.some.injEq, Option.some.injEq, compare_lt_iff_lt,
      compare_eq_iff_eq, ← le_iff_lt_or_eq] at h
    exact ⟨hx, hy, h⟩
  · rintro ⟨hx, hy, le⟩
    rw [compare_eq_rank hx hy, Option.some.injEq, Option.some.injEq, compare_lt_iff_lt,
      compare_eq_iff_eq, ← le_iff_lt_or_eq]
    exact le

theorem lt_iff_rank : x < y ↔
    parts x ≠ .notANumber ∧ parts y ≠ .notANumber ∧ rank (parts x) < rank (parts y) := by
  rw [lt_iff]
  constructor
  · intro h
    obtain ⟨hx, hy⟩ := ne_notANumber_of_compare h
    rw [compare_eq_rank hx hy, Option.some.injEq, compare_lt_iff_lt] at h
    exact ⟨hx, hy, h⟩
  · rintro ⟨hx, hy, lt⟩
    rw [compare_eq_rank hx hy, Option.some.injEq, compare_lt_iff_lt]
    exact lt

instance instChained : Scalar.Chained Float where
  le_trans h h' := by
    obtain ⟨hx, -, le⟩ := le_iff_rank.mp h
    obtain ⟨-, hz, le'⟩ := le_iff_rank.mp h'
    exact le_iff_rank.mpr ⟨hx, hz, le.trans le'⟩
  lt_of_lt_of_le h h' := by
    obtain ⟨hx, -, lt⟩ := lt_iff_rank.mp h
    obtain ⟨-, hz, le⟩ := le_iff_rank.mp h'
    exact lt_iff_rank.mpr ⟨hx, hz, lt.trans_le le⟩

instance instOrderedEq : Scalar.OrderedEq Float where
  le_of_beq h := le_iff.mpr (.inr (beq_iff_eq.mp h))

/-! ### Numbers -/

theorem numbers_of_le (h : x ≤ y) : parts x ≠ .notANumber ∧ parts y ≠ .notANumber :=
  ⟨(le_iff_rank.mp h).1, (le_iff_rank.mp h).2.1⟩

theorem le_refl_of_number (h : parts x ≠ .notANumber) : x ≤ x :=
  le_iff_rank.mpr ⟨h, h, le_rfl⟩

/-- Only what is no number differs from itself. -/
theorem beq_self_of_number (h : parts x ≠ .notANumber) : (x == x) = true := by
  change ((parts x).compare (parts x) == some .eq) = true
  rw [compare_eq_rank h h, compare_eq_iff_eq.mpr rfl]
  rfl

/-- A number has a nearest point of the unit interval, an infinite one included. -/
theorem clampUnit_mem (h : parts x ≠ .notANumber) :
    0 ≤ Scalar.clampUnit x ∧ Scalar.clampUnit x ≤ 1 := by
  have unit : (0 : Float) ≤ 1 := by decide +kernel
  obtain ⟨zero, one⟩ := numbers_of_le unit
  have low : 0 ≤ Scalar.larger x 0 := by
    rw [Scalar.larger]
    split
    · exact le_refl_of_number zero
    · rename_i above
      exact (le_iff_not_lt h zero).mpr above
  rw [Scalar.clampUnit, Scalar.smaller]
  split
  · exact ⟨unit, le_refl_of_number one⟩
  · rename_i below
    exact ⟨low, (le_iff_not_lt one (numbers_of_le low).2).mpr below⟩

end Double

end BoardPlotter
