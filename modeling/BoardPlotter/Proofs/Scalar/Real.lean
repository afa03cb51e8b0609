import Mathlib.Analysis.SpecialFunctions.Complex.Arg
import BoardPlotter.Text.Numeral

/-!
# The real numbers as scalars

Exact arithmetic for everything said about lengths, positions and tolerances.
Sums, products, quotients, the order and the literals are the usual ones, so a
statement about reals reads as ordinary mathematics.
-/

namespace BoardPlotter.Exact

open Scalar

-- Without these two, `/` and numerals from two on would be found through `Scalar`.
noncomputable instance instDiv : Div ℝ := inferInstance

noncomputable instance instOfNat (n : ℕ) [n.AtLeastTwo] : OfNat ℝ n := instOfNatAtLeastTwo

-- Named, so that all definitions with a two share one proof that it is a literal.
instance instAtLeastTwo : Nat.AtLeastTwo 2 := inferInstance

noncomputable instance instScalar : Scalar ℝ where
  toBEq := instBEqOfDecidableEq
  decLt := inferInstance
  decLe := inferInstance
  -- By cases, so that each literal unfolds to the usual one.
  ofNat
    | 0 => 0
    | 1 => 1
    | n + 2 => OfNat.ofNat (n + 2)
  ofDecimal m e := m * 10 ^ e
  abs x := |x|
  sqrt := Real.sqrt
  hypot x y := Real.sqrt (x ^ 2 + y ^ 2)
  sin := Real.sin
  cos := Real.cos
  tan := Real.tan
  atan2 y x := Complex.arg ⟨x, y⟩
  pi := Real.pi
  isFinite _ := true
  floor x := ⌊x⌋₊

@[simp] theorem abs_eq (x : ℝ) : Scalar.abs x = |x| := rfl

theorem ofNat_eq (n : ℕ) : (Scalar.ofNat n : ℝ) = n := by
  match n with
  | 0 => exact Nat.cast_zero.symm
  | 1 => exact Nat.cast_one.symm
  | n + 2 => exact (Nat.cast_ofNat (R := ℝ) (n := n + 2)).symm

@[simp] theorem smaller_eq (a b : ℝ) : Scalar.smaller a b = min a b := by
  rw [Scalar.smaller]
  split
  · exact (min_eq_right (le_of_lt ‹_›)).symm
  · exact (min_eq_left (not_lt.mp ‹_›)).symm

@[simp] theorem larger_eq (a b : ℝ) : Scalar.larger a b = max a b := by
  rw [Scalar.larger]
  split
  · exact (max_eq_right (le_of_lt ‹_›)).symm
  · exact (max_eq_left (not_lt.mp ‹_›)).symm

theorem epsilon_eq : (epsilon : ℝ) = 1 / 10 ^ 9 := by
  change ((1 : ℕ) : ℝ) * 10 ^ (-9 : ℤ) = 1 / 10 ^ 9
  norm_num

theorem clampUnit_eq (t : ℝ) : clampUnit t = min (max t 0) 1 := by
  rw [clampUnit, larger_eq, smaller_eq]

/-- What a numeral without a sign stands for. -/
theorem value_eq (m : ℕ) (e : ℤ) : (Numeral.value ⟨false, m, e⟩ : ℝ) = m * 10 ^ e := rfl

/-- A parameter of the unit interval is its own nearest point. -/
theorem clampUnit_of_mem {t : ℝ} (h₀ : 0 ≤ t) (h₁ : t ≤ 1) : clampUnit t = t := by
  rw [clampUnit_eq, max_eq_left h₀, min_eq_left h₁]

end BoardPlotter.Exact
