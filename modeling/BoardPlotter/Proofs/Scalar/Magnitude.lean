import BoardPlotter.Proofs.Scalar.Rounding

/-!
# Magnitudes of doubles

Sums, products, quotients and roots of doubles, as far as the places of leading bits go: which
results are finite, which are zero, and between which powers of two the others lie.
-/

namespace BoardPlotter.Double

open Float.Model Float.Model.UnpackedFloat

/-- A double taken apart. -/
abbrev parts (x : Float) : UnpackedFloat := x.toModel.unpack

theorem parts_add (x y : Float) :
    parts (x + y) = (pack (UnpackedFloat.add Format.binary64 (parts x) (parts y))).unpack := rfl

theorem parts_mul (x y : Float) :
    parts (x * y) = (pack (UnpackedFloat.mul Format.binary64 (parts x) (parts y))).unpack := rfl

theorem parts_div (x y : Float) :
    parts (x / y) = (pack (UnpackedFloat.div Format.binary64 (parts x) (parts y))).unpack := rfl

theorem parts_sqrt (x : Float) :
    parts x.sqrt = (pack (UnpackedFloat.sqrt Format.binary64 (parts x))).unpack := rfl

theorem isFinite_eq (x : Float) : x.isFinite = (parts x).isFinite := rfl

theorem not_isNaN_of_isInf {x : Float} (h : x.isInf) : ¬ x.isNaN := by
  have inf : x.isInf = (parts x).isInf := rfl
  have nan : x.isNaN = (parts x).isNaN := rfl
  rw [inf] at h
  rw [nan]
  cases hx : parts x with
  | infinity s => exact Bool.false_ne_true
  | notANumber | zero | finite =>
    rw [hx] at h
    cases h

theorem parts_canonical {x : Float} {s : Sign} {m : Nat} {e : Int} {pos : 0 < m}
    (h : parts x = .finite s m e pos) :
    Canonical m e ∧ -1074 ≤ order m e ∧ order m e ≤ 1023 := by
  obtain ⟨canonical, within⟩ := canonical_of_unpack h
  have := canonical.above
  refine ⟨canonical, ?_, within⟩
  rw [order]
  omega

/-! ## What is finite -/

theorem ne_notANumber_of_isFinite {x : Float} (h : x.isFinite) : parts x ≠ .notANumber := by
  intro eq
  rw [isFinite_eq, eq] at h
  cases h

theorem cases_of_isFinite {x : Float} (h : x.isFinite) :
    (∃ s, parts x = .zero s) ∨ ∃ s m e pos, parts x = .finite s m e pos := by
  rw [isFinite_eq] at h
  cases eq : parts x with
  | notANumber | infinity =>
    rw [eq] at h
    cases h
  | zero s => exact .inl ⟨s, rfl⟩
  | finite s m e pos => exact .inr ⟨s, m, e, pos, rfl⟩

/-- What is not finite stays so when it is packed. -/
theorem isFinite_unpack_pack {u : UnpackedFloat} (h : (pack u).unpack.isFinite) : u.isFinite := by
  cases u with
  | notANumber => cases h
  | infinity s =>
    rw [unpack_pack_infinity] at h
    cases h
  | zero | finite => rfl

/-- Both terms of a finite sum are finite. -/
theorem isFinite_of_add {x y : Float} (h : (x + y).isFinite) : x.isFinite ∧ y.isFinite := by
  have terms {a b : UnpackedFloat} (h : (UnpackedFloat.add Format.binary64 a b).isFinite) :
      a.isFinite ∧ b.isFinite := by
    cases a <;> cases b <;> first
      | exact ⟨rfl, rfl⟩
      | cases h
      | rename_i s s'
        cases s <;> cases s' <;> cases h
  exact terms (isFinite_unpack_pack h)

theorem isFinite_of_sub {x y : Float} (h : (x - y).isFinite) : x.isFinite ∧ y.isFinite := by
  have terms {a b : UnpackedFloat} (h : (UnpackedFloat.sub Format.binary64 a b).isFinite) :
      a.isFinite ∧ b.isFinite := by
    cases a <;> cases b <;> first
      | exact ⟨rfl, rfl⟩
      | cases h
      | rename_i s s'
        cases s <;> cases s' <;> cases h
  exact terms (isFinite_unpack_pack h)

theorem isFinite_of_mul {x y : Float} (h : (x * y).isFinite) : x.isFinite ∧ y.isFinite := by
  have factors {a b : UnpackedFloat} (h : (UnpackedFloat.mul Format.binary64 a b).isFinite) :
      a.isFinite ∧ b.isFinite := by
    cases a <;> cases b <;> first
      | exact ⟨rfl, rfl⟩
      | cases h
  exact factors (isFinite_unpack_pack h)

theorem isFinite_of_sqrt {x : Float} (h : x.sqrt.isFinite) : x.isFinite := by
  have square {a : UnpackedFloat} (h : (UnpackedFloat.sqrt Format.binary64 a).isFinite) :
      a.isFinite := by
    cases a with
    | notANumber => cases h
    | infinity s => cases s <;> cases h
    | zero | finite => rfl
  exact square (isFinite_unpack_pack h)

/-- Nothing but zero is left of what is divided by no finite number. -/
theorem zero_of_div {x y : Float} (infinite : ¬ y.isFinite) (h : (x / y).isFinite) :
    ∃ s, parts (x / y) = .zero s := by
  have divided {a b : UnpackedFloat} (infinite : ¬ b.isFinite)
      (h : (UnpackedFloat.div Format.binary64 a b).isFinite) :
      ∃ s, UnpackedFloat.div Format.binary64 a b = .zero s := by
    cases b with
    | zero | finite => exact (infinite rfl).elim
    | notANumber => cases a <;> cases h
    | infinity s =>
      cases a with
      | notANumber | infinity => cases h
      | zero | finite => exact ⟨_, rfl⟩
  obtain ⟨s, eq⟩ := divided infinite (isFinite_unpack_pack h)
  rw [parts_div, eq]
  exact ⟨s, unpack_pack_zero s⟩

theorem mul_notANumber {x y : Float} (h : parts x = .notANumber ∨ parts y = .notANumber) :
    parts (x * y) = .notANumber := by
  rw [parts_mul]
  rcases h with h | h
  · rw [h]
    exact unpack_pack_notANumber
  · rw [h]
    cases parts x <;> exact unpack_pack_notANumber

/-! ## Where the leading bit of a result is -/

theorem rounds_mul {x y : Float} {s₁ s₂ : Sign} {m₁ m₂ : Nat} {e₁ e₂ : Int} {pos₁ : 0 < m₁}
    {pos₂ : 0 < m₂} (hx : parts x = .finite s₁ m₁ e₁ pos₁) (hy : parts y = .finite s₂ m₂ e₂ pos₂) :
    ∃ o, order m₁ e₁ + order m₂ e₂ ≤ o ∧ o ≤ order m₁ e₁ + order m₂ e₂ + 1 ∧
      Rounds (s₁ * s₂) o (parts (x * y)) := by
  obtain ⟨⟨-, above₁, full₁⟩, -⟩ := parts_canonical hx
  obtain ⟨⟨-, above₂, full₂⟩, -⟩ := parts_canonical hy
  obtain ⟨low, high⟩ := log2_mul (Nat.ne_of_gt pos₁) (Nat.ne_of_gt pos₂)
  have some_ : m₁ * m₂ ≠ 0 := Nat.ne_of_gt (Nat.mul_pos pos₁ pos₂)
  have fine : Fine (m₁ * m₂) (e₁ + e₂) := by
    rw [← Nat.le_log2 (Nat.ne_of_gt pos₁)] at full₁
    rw [← Nat.le_log2 (Nat.ne_of_gt pos₂)] at full₂
    rw [Fine]
    omega
  refine ⟨order (m₁ * m₂) (e₁ + e₂), ?_, ?_, ?_⟩
  · simp only [order]
    omega
  · simp only [order]
    omega
  · rw [parts_mul, hx, hy]
    exact rounds_roundWithAccuracy _ .exact fine (by rw [if_neg some_])

theorem rounds_sqrt {x : Float} {m : Nat} {e : Int} {pos : 0 < m}
    (hx : parts x = .finite .positive m e pos) :
    Rounds .positive (order m e / 2) (parts x.sqrt) := by
  let t := min (e / 2) (Format.binary64.targetExponent ((totalExponent m e + 1) / 2))
  let k := (e - 2 * t).toNat
  have shifted : (k : Int) = e - 2 * t := by
    have le : t ≤ e / 2 := min_le_left _ _
    omega
  have bits : (m <<< k).log2 = m.log2 + k := by
    rw [Nat.shiftLeft_eq, log2_mul_two_pow (Nat.ne_of_gt pos)]
  have some_ : m <<< k ≠ 0 := Nat.ne_of_gt (Nat.shiftLeft_pos_iff.mpr pos)
  have root := log2_sqrt some_
  have rootPos : (m <<< k).sqrt ≠ 0 := Nat.ne_of_gt (Nat.sqrt_pos.mpr (Nat.pos_of_ne_zero some_))
  have place : order m e / 2 = order (m <<< k).sqrt t := by
    rw [order, order, root, bits]
    omega
  have fine : Fine (m <<< k).sqrt t := by
    have least : t ≤ max ((order m e + 2) / 2 - 53) (-1074) := by
      refine (min_le_right _ _).trans ?_
      simp only [binary64_targetExponent, totalExponent, order]
      omega
    simp only [order] at place least
    rw [Fine]
    omega
  have kept : if (m <<< k).sqrt = 0 then order m e / 2 < -1074
      else order m e / 2 = order (m <<< k).sqrt t := by
    rw [if_neg rootPos, place]
  rw [parts_sqrt, hx]
  exact rounds_roundWithAccuracy _ _ fine kept

theorem rounds_div {x y : Float} {s₁ s₂ : Sign} {m₁ m₂ : Nat} {e₁ e₂ : Int} {pos₁ : 0 < m₁}
    {pos₂ : 0 < m₂} (hx : parts x = .finite s₁ m₁ e₁ pos₁) (hy : parts y = .finite s₂ m₂ e₂ pos₂) :
    ∃ o, order m₁ e₁ - order m₂ e₂ - 1 ≤ o ∧ o ≤ order m₁ e₁ - order m₂ e₂ ∧
      Rounds (s₁ / s₂) o (parts (x / y)) := by
  let t := min (e₁ - e₂)
    (Format.binary64.targetExponent (totalExponent m₁ e₁ - totalExponent m₂ e₂))
  let k := (e₁ - e₂ - t).toNat
  let q := (m₁ <<< k) / m₂
  have shifted : (k : Int) = e₁ - e₂ - t := by
    have le : t ≤ e₁ - e₂ := min_le_left _ _
    omega
  have bits : (m₁ <<< k).log2 = m₁.log2 + k := by
    rw [Nat.shiftLeft_eq, log2_mul_two_pow (Nat.ne_of_gt pos₁)]
  have least : t ≤ max (order m₁ e₁ - order m₂ e₂ - 53) (-1074) := by
    refine (min_le_right _ _).trans ?_
    simp only [binary64_targetExponent, totalExponent, order]
    omega
  have result (o : Int) (fine : Fine q t) (place : if q = 0 then o < -1074 else o = order q t) :
      Rounds (s₁ / s₂) o (parts (x / y)) := by
    rw [parts_div, hx, hy]
    exact rounds_roundWithAccuracy _ _ fine place
  by_cases none_ : q = 0
  · -- The quotient is less than one in the last place.
    have less : m₁ <<< k < m₂ := (Nat.div_eq_zero_iff_lt pos₂).mp none_
    have fewer : m₁.log2 + k ≤ m₂.log2 := by
      rw [← bits]
      exact log2_mono (Nat.ne_of_gt (Nat.shiftLeft_pos_iff.mpr pos₁)) less.le
    have tiny : order m₁ e₁ - order m₂ e₂ - 1 < -1074 ∧ t ≤ -1074 := by
      simp only [order] at least ⊢
      omega
    refine ⟨order m₁ e₁ - order m₂ e₂ - 1, le_rfl, by omega, result _ (.inr tiny.2) ?_⟩
    rw [if_pos none_]
    exact tiny.1
  · obtain ⟨low, high⟩ : q.log2 + m₂.log2 ≤ (m₁ <<< k).log2 ∧
        (m₁ <<< k).log2 ≤ q.log2 + m₂.log2 + 1 := log2_div none_
    have fine : Fine q t := by
      simp only [order] at least
      rw [Fine]
      omega
    refine ⟨order q t, ?_, ?_, result _ fine (by rw [if_neg none_])⟩
    · simp only [order]
      omega
    · simp only [order]
      omega

theorem rounds_add {x y : Float} {m₁ m₂ : Nat} {e₁ e₂ : Int} {pos₁ : 0 < m₁}
    {pos₂ : 0 < m₂} (hx : parts x = .finite .positive m₁ e₁ pos₁)
    (hy : parts y = .finite .positive m₂ e₂ pos₂) :
    ∃ o, max (order m₁ e₁) (order m₂ e₂) ≤ o ∧ o ≤ max (order m₁ e₁) (order m₂ e₂) + 1 ∧
      Rounds .positive o (parts (x + y)) := by
  let e := min e₁ e₂
  let n₁ := m₁ <<< (e₁ - e).toNat
  let n₂ := m₂ <<< (e₂ - e).toNat
  have bits {m : Nat} (pos : 0 < m) (k : Nat) : (m <<< k).log2 = m.log2 + k := by
    rw [Nat.shiftLeft_eq, log2_mul_two_pow (Nat.ne_of_gt pos)]
  have bits₁ : n₁.log2 = m₁.log2 + (e₁ - e).toNat := bits pos₁ _
  have bits₂ : n₂.log2 = m₂.log2 + (e₂ - e).toNat := bits pos₂ _
  have some₁ : 0 < n₁ := Nat.shiftLeft_pos_iff.mpr pos₁
  have some₂ : 0 < n₂ := Nat.shiftLeft_pos_iff.mpr pos₂
  obtain ⟨low, high⟩ := log2_add (Nat.ne_of_gt some₁) (Nat.ne_of_gt some₂)
  have positive : compare ((n₁ : Int) + n₂) 0 = .gt :=
    Int.compare_eq_gt.mpr (Int.add_pos (Int.natCast_pos.mpr some₁) (Int.natCast_pos.mpr some₂))
  have sum : UnpackedFloat.add Format.binary64 (parts x) (parts y) =
      round Format.binary64 .positive (n₁ + n₂) e := by
    rw [hx, hy]
    change UnpackedFloat.normalize Format.binary64 ((n₁ : Int) + n₂) e .positive = _
    rw [UnpackedFloat.normalize, positive]
    rfl
  refine ⟨order (n₁ + n₂) e, ?_, ?_, ?_⟩
  · simp only [order]
    omega
  · simp only [order]
    omega
  · rw [parts_add, sum]
    exact rounds_round .positive (Nat.add_pos_left some₁ n₂) e

/-! ## Between powers of two -/

/-- Neither negative nor undefined. -/
inductive Nonneg : UnpackedFloat → Prop
  | zero (s : Sign) : Nonneg (.zero s)
  | finite {m e} (pos : 0 < m) : Nonneg (.finite .positive m e pos)
  | infinity : Nonneg (.infinity .positive)

/-- Positive, with the leading bit at `k` or above. -/
inductive AtLeast (k : Int) : UnpackedFloat → Prop
  | finite {m e} (pos : 0 < m) : k ≤ order m e → AtLeast k (.finite .positive m e pos)
  | infinity : AtLeast k (.infinity .positive)

/-- Zero, or positive with the leading bit at `k` or below. -/
inductive AtMost (k : Int) : UnpackedFloat → Prop
  | zero (s : Sign) : AtMost k (.zero s)
  | finite {m e} (pos : 0 < m) : order m e ≤ k → AtMost k (.finite .positive m e pos)

theorem AtLeast.nonneg {k : Int} {u : UnpackedFloat} (h : AtLeast k u) : Nonneg u := by
  cases h with
  | finite pos => exact .finite pos
  | infinity => exact .infinity

theorem AtMost.nonneg {k : Int} {u : UnpackedFloat} (h : AtMost k u) : Nonneg u := by
  cases h with
  | zero s => exact .zero s
  | finite pos => exact .finite pos

/-- What is infinite stays so when it is packed. -/
theorem AtLeast.packed {k : Int} {u : UnpackedFloat} (h : u = .infinity .positive) :
    AtLeast k (pack u).unpack := by
  rw [h, unpack_pack_infinity]
  exact .infinity

theorem AtLeast.mono {j k : Int} {u : UnpackedFloat} (h : AtLeast k u) (le : j ≤ k) :
    AtLeast j u := by
  cases h with
  | finite pos at_ => exact .finite pos (le.trans at_)
  | infinity => exact .infinity

theorem AtMost.mono {j k : Int} {u : UnpackedFloat} (h : AtMost j u) (le : j ≤ k) :
    AtMost k u := by
  cases h with
  | zero s => exact .zero s
  | finite pos at_ => exact .finite pos (at_.trans le)

namespace Rounds

variable {o k : Int} {u : UnpackedFloat}

theorem nonneg (h : Rounds .positive o u) : Nonneg u := by
  cases h with
  | zero => exact .zero _
  | finite pos => exact .finite pos
  | infinity => exact .infinity

theorem atLeast (h : Rounds .positive o u) (above : -1074 ≤ o) : AtLeast o u := by
  cases h with
  | zero tiny => omega
  | finite pos low => exact .finite pos low
  | infinity => exact .infinity

theorem atMost (h : Rounds .positive o u) (le : o + 1 ≤ k) (above : -1074 ≤ k) (below : k ≤ 1023) :
    AtMost k u := by
  cases h with
  | zero => exact .zero _
  | finite pos _ high => exact .finite pos (by omega)
  | infinity huge => omega

theorem isFinite {s : Sign} (h : Rounds s o u) (below : o < 1023) : u.isFinite := by
  cases h with
  | zero | finite => rfl
  | infinity huge => omega

theorem ne_notANumber {s : Sign} (h : Rounds s o u) : u ≠ .notANumber := by
  rintro rfl
  cases h

theorem of_zero {s t : Sign} (h : Rounds s o (.zero t)) : o < -1074 := by
  cases h with
  | zero tiny => exact tiny

end Rounds

theorem unpack_pack_parts (x : Float) : (pack (parts x)).unpack = parts x := by
  cases h : parts x with
  | notANumber => rfl
  | infinity s => exact unpack_pack_infinity s
  | zero s => exact unpack_pack_zero s
  | finite s m e pos =>
    obtain ⟨canonical, -, within⟩ := parts_canonical h
    rw [unpack_pack_finite s pos canonical, if_pos within]

theorem Sign.mul_self (s : Sign) : s * s = .positive := by
  cases s <;> rfl

variable {x y : Float} {j k : Int}

theorem nonneg_mul_self (h : parts x ≠ .notANumber) : Nonneg (parts (x * x)) := by
  cases hx : parts x with
  | notANumber => exact (h hx).elim
  | infinity s =>
    rw [parts_mul, hx]
    cases s <;> exact .infinity
  | zero s =>
    rw [parts_mul, hx]
    cases s <;> exact .zero _
  | finite s m e pos =>
    obtain ⟨o, -, -, rounds⟩ := rounds_mul hx hx
    rw [Sign.mul_self] at rounds
    exact rounds.nonneg

theorem atLeast_mul_self {s : Sign} {m : Nat} {e : Int} {pos : 0 < m}
    (hx : parts x = .finite s m e pos) (above : -1074 ≤ 2 * order m e) :
    AtLeast (2 * order m e) (parts (x * x)) := by
  obtain ⟨o, low, -, rounds⟩ := rounds_mul hx hx
  rw [Sign.mul_self] at rounds
  exact (rounds.atLeast (by omega)).mono (by omega)

theorem atMost_mul_self {s : Sign} {m : Nat} {e : Int} {pos : 0 < m}
    (hx : parts x = .finite s m e pos) (le : order m e ≤ k) (above : -538 ≤ k) (below : k ≤ 510) :
    AtMost (2 * k + 2) (parts (x * x)) := by
  obtain ⟨o, -, high, rounds⟩ := rounds_mul hx hx
  rw [Sign.mul_self] at rounds
  exact rounds.atMost (by omega) (by omega) (by omega)

theorem atLeast_mul (hx : AtLeast j (parts x)) (hy : AtLeast k (parts y)) (above : -1074 ≤ j + k) :
    AtLeast (j + k) (parts (x * y)) := by
  generalize ux : parts x = u at hx
  generalize uy : parts y = v at hy
  cases hx with
  | finite pos at₁ =>
    cases hy with
    | finite pos' at₂ =>
      obtain ⟨o, low, -, rounds⟩ := rounds_mul ux uy
      exact (Rounds.atLeast rounds (by omega)).mono (by omega)
    | infinity =>
      rw [parts_mul, ux, uy]
      exact .packed rfl
  | infinity =>
    rw [parts_mul, ux, uy]
    cases hy <;> exact .packed rfl

/-- A sum of which one term is zero. -/
theorem parts_add_of_zero {s : Sign} (hx : parts x = .zero s) (hy : Nonneg (parts y)) :
    (∃ s', parts (x + y) = .zero s') ∧ (∃ s', parts (y + x) = .zero s') ∧ (∃ s', parts y = .zero s') ∨
      parts (x + y) = parts y ∧ parts (y + x) = parts y := by
  have kept := unpack_pack_parts y
  rw [parts_add, parts_add, hx]
  generalize parts y = v at hy kept ⊢
  cases hy with
  | zero s' => cases s <;> cases s' <;> exact .inl ⟨⟨_, rfl⟩, ⟨_, rfl⟩, ⟨_, rfl⟩⟩
  | finite pos => exact .inr ⟨kept, kept⟩
  | infinity => exact .inr ⟨unpack_pack_infinity _, unpack_pack_infinity _⟩

theorem nonneg_add (hx : Nonneg (parts x)) (hy : Nonneg (parts y)) :
    Nonneg (parts (x + y)) := by
  generalize ux : parts x = u at hx
  cases hx with
  | zero s =>
    obtain ⟨⟨s', zero⟩, -⟩ | ⟨same, -⟩ := parts_add_of_zero ux hy
    · rw [zero]
      exact .zero s'
    · rwa [same]
  | finite pos =>
    have hx : Nonneg (parts x) := ux ▸ .finite pos
    generalize uy : parts y = v at hy
    cases hy with
    | zero s =>
      obtain ⟨-, ⟨s', zero⟩, -⟩ | ⟨-, same⟩ := parts_add_of_zero uy hx
      · rw [zero]
        exact .zero s'
      · rwa [same]
    | finite pos' =>
      obtain ⟨o, -, -, rounds⟩ := rounds_add ux uy
      exact rounds.nonneg
    | infinity =>
      rw [parts_add, ux, uy]
      exact (AtLeast.packed (k := 0) rfl).nonneg
  | infinity =>
    rw [parts_add, ux]
    generalize parts y = v at hy
    cases hy <;> exact (AtLeast.packed (k := 0) rfl).nonneg

theorem atLeast_add (hx : AtLeast k (parts x)) (hy : Nonneg (parts y)) (above : -1074 ≤ k) :
    AtLeast k (parts (x + y)) ∧ AtLeast k (parts (y + x)) := by
  have hx' := hx
  generalize ux : parts x = u at hx
  generalize uy : parts y = v at hy
  cases hy with
  | zero s =>
    obtain ⟨-, -, s', zero⟩ | ⟨left, right⟩ := parts_add_of_zero uy hx'.nonneg
    · rw [zero] at hx'
      cases hx'
    · rw [left, right]
      exact ⟨hx', hx'⟩
  | finite pos =>
    cases hx with
    | finite pos' at_ =>
      obtain ⟨o, low, -, rounds⟩ := rounds_add ux uy
      obtain ⟨o', low', -, rounds'⟩ := rounds_add uy ux
      exact ⟨(rounds.atLeast (by omega)).mono (by omega), (rounds'.atLeast (by omega)).mono (by omega)⟩
    | infinity =>
      rw [parts_add, parts_add, ux, uy]
      exact ⟨.packed rfl, .packed rfl⟩
  | infinity =>
    rw [parts_add, parts_add, ux, uy]
    cases hx <;> exact ⟨.packed rfl, .packed rfl⟩

theorem atMost_add (hx : AtMost k (parts x)) (hy : AtMost k (parts y)) (above : -1074 ≤ k)
    (below : k ≤ 1021) : AtMost (k + 2) (parts (x + y)) := by
  have hx' := hx
  have hy' := hy
  generalize ux : parts x = u at hx
  generalize uy : parts y = v at hy
  cases hx with
  | zero s =>
    obtain ⟨⟨s', zero⟩, -⟩ | ⟨same, -⟩ := parts_add_of_zero ux hy'.nonneg
    · rw [zero]
      exact .zero s'
    · rw [same]
      exact hy'.mono (by omega)
  | finite pos at₁ =>
    cases hy with
    | zero s =>
      obtain ⟨-, ⟨s', zero⟩, -⟩ | ⟨-, same⟩ := parts_add_of_zero uy hx'.nonneg
      · rw [zero]
        exact .zero s'
      · rw [same]
        exact hx'.mono (by omega)
    | finite pos' at₂ =>
      obtain ⟨o, -, high, rounds⟩ := rounds_add ux uy
      exact rounds.atMost (by omega) (by omega) (by omega)

theorem nonneg_sqrt (hx : Nonneg (parts x)) : Nonneg (parts x.sqrt) := by
  generalize ux : parts x = u at hx
  cases hx with
  | zero s =>
    rw [parts_sqrt, ux]
    cases s <;> exact .zero _
  | finite pos => exact (rounds_sqrt ux).nonneg
  | infinity =>
    rw [parts_sqrt, ux]
    exact .infinity

theorem atLeast_sqrt (hx : AtLeast k (parts x)) (above : -1074 ≤ k) :
    AtLeast (k / 2) (parts x.sqrt) := by
  generalize ux : parts x = u at hx
  cases hx with
  | finite pos at_ => exact ((rounds_sqrt ux).atLeast (by omega)).mono (by omega)
  | infinity =>
    rw [parts_sqrt, ux]
    exact .infinity

theorem atMost_sqrt (hx : AtMost k (parts x)) (above : -1074 ≤ k) (below : k ≤ 1021) :
    AtMost (k / 2 + 1) (parts x.sqrt) := by
  generalize ux : parts x = u at hx
  cases hx with
  | zero s =>
    rw [parts_sqrt, ux]
    cases s <;> exact .zero _
  | finite pos at_ => exact (rounds_sqrt ux).atMost (by omega) (by omega) (by omega)

/-- A root is undefined, zero, or far above the least double. -/
theorem sqrt_cases (x : Float) : parts x.sqrt = .notANumber ∨ (∃ s, parts x.sqrt = .zero s) ∨
    AtLeast (-537) (parts x.sqrt) := by
  rw [parts_sqrt]
  cases hx : parts x with
  | notANumber => exact .inl rfl
  | zero s => exact .inr (.inl ⟨s, unpack_pack_zero s⟩)
  | infinity s =>
    cases s with
    | negative => exact .inl rfl
    | positive => exact .inr (.inr (.packed rfl))
  | finite s m e pos =>
    cases s with
    | negative => exact .inl unpack_pack_notANumber
    | positive =>
      obtain ⟨-, above, -⟩ := parts_canonical hx
      have rounds := rounds_sqrt hx
      rw [parts_sqrt, hx] at rounds
      exact .inr (.inr ((rounds.atLeast (by omega)).mono (by omega)))

/-! ## Comparisons -/

theorem lt_iff : x < y ↔ (parts x).compare (parts y) = some .lt := by
  refine decide_eq_true_iff.trans ?_
  change ((parts x).compare (parts y) == some .lt) = true ↔ _
  exact beq_iff_eq

theorem le_iff :
    x ≤ y ↔ (parts x).compare (parts y) = some .lt ∨ (parts x).compare (parts y) = some .eq := by
  refine decide_eq_true_iff.trans ?_
  change ((parts x).compare (parts y)).any (·.isLE) = true ↔ _
  cases (parts x).compare (parts y) with
  | none => simp
  | some o => cases o <;> simp

theorem compare_swap (u v : UnpackedFloat) :
    v.compare u = (u.compare v).map Ordering.swap := by
  have digits (m₁ m₂ : Nat) (e₁ e₂ : Int) : (compare e₂ e₁).then (compare m₂ m₁) =
      ((compare e₁ e₂).then (compare m₁ m₂)).swap := by
    rw [Ordering.swap_then, ← Std.OrientedCmp.eq_swap, ← Std.OrientedCmp.eq_swap]
  cases u with
  | notANumber => cases v <;> rfl
  | zero s => cases v with
    | notANumber | zero => rfl
    | infinity t | finite t => cases t <;> rfl
  | infinity s => cases v with
    | notANumber | zero | finite => cases s <;> rfl
    | infinity t => cases s <;> cases t <;> rfl
  | finite s m₁ e₁ pos₁ => cases v with
    | notANumber | zero => cases s <;> rfl
    | infinity t => cases s <;> cases t <;> rfl
    | finite t m₂ e₂ pos₂ =>
      cases s <;> cases t
      · exact congrArg (fun o => some o.swap) (digits m₁ m₂ e₁ e₂)
      · rfl
      · rfl
      · exact congrArg some (digits m₁ m₂ e₁ e₂)

theorem exists_compare {u v : UnpackedFloat} (hu : u ≠ .notANumber) (hv : v ≠ .notANumber) :
    ∃ o, u.compare v = some o := by
  cases u with
  | notANumber => exact (hu rfl).elim
  | zero s => cases v with
    | notANumber => exact (hv rfl).elim
    | zero => exact ⟨_, rfl⟩
    | infinity t | finite t => cases t <;> exact ⟨_, rfl⟩
  | infinity s => cases v with
    | notANumber => exact (hv rfl).elim
    | zero | finite => cases s <;> exact ⟨_, rfl⟩
    | infinity t => exact ⟨_, rfl⟩
  | finite s => cases v with
    | notANumber => exact (hv rfl).elim
    | zero => cases s <;> exact ⟨_, rfl⟩
    | infinity t | finite t => cases s <;> cases t <;> exact ⟨_, rfl⟩

/-- Numbers are ordered. -/
theorem le_iff_not_lt (hx : parts x ≠ .notANumber) (hy : parts y ≠ .notANumber) :
    y ≤ x ↔ ¬ x < y := by
  rw [lt_iff, le_iff, compare_swap]
  obtain ⟨o, eq⟩ := exists_compare hx hy
  rw [eq]
  cases o <;> simp

theorem lt_iff_not_le (hx : parts x ≠ .notANumber) (hy : parts y ≠ .notANumber) :
    y < x ↔ ¬ x ≤ y := by
  rw [le_iff_not_lt hy hx, not_not]

theorem beq_zero_iff : (x == 0) = true ↔ ∃ s, parts x = .zero s := by
  change ((parts x).compare (.zero .positive) == some .eq) = true ↔ _
  cases parts x with
  | notANumber => exact iff_of_false (by decide) (fun ⟨s, h⟩ => by cases h)
  | zero s => exact iff_of_true rfl ⟨s, rfl⟩
  | infinity s | finite s =>
    refine iff_of_false ?_ (fun ⟨s, h⟩ => by cases h)
    cases s <;> exact Bool.false_ne_true

/-- A number that is neither zero nor infinite. -/
theorem exists_of_nonneg (nonneg : Nonneg (parts x)) (finite : x.isFinite)
    (some_ : ¬ (x == 0) = true) : ∃ m e pos, parts x = .finite .positive m e pos := by
  rw [beq_zero_iff] at some_
  rw [isFinite_eq] at finite
  generalize parts x = u at *
  cases nonneg with
  | zero s => exact (some_ ⟨s, rfl⟩).elim
  | finite pos => exact ⟨_, _, pos, rfl⟩
  | infinity => cases finite

theorem zero_ne_notANumber : parts 0 ≠ .notANumber := ne_notANumber_of_isFinite rfl

theorem pos_cases (h : 0 < x) :
    parts x = .infinity .positive ∨ ∃ m e pos, parts x = .finite .positive m e pos := by
  rw [lt_iff] at h
  change (UnpackedFloat.zero .positive).compare (parts x) = _ at h
  cases hx : parts x with
  | notANumber | zero =>
    rw [hx] at h
    cases h
  | infinity s =>
    rw [hx] at h
    cases s with
    | negative => cases h
    | positive => exact .inl rfl
  | finite s m e pos =>
    rw [hx] at h
    cases s with
    | negative => cases h
    | positive => exact .inr ⟨m, e, pos, rfl⟩

/-- What is no less than a positive number is not zero. -/
theorem ne_zero_of_le (hx : 0 < x) (le : x ≤ y) : ¬ (y == 0) = true := by
  rw [beq_zero_iff]
  rintro ⟨s, zero⟩
  rw [le_iff, zero] at le
  obtain hx | ⟨m, e, pos, hx⟩ := pos_cases hx
  all_goals
    rw [hx] at le
    rcases le with le | le <;> cases le

section Quotients

variable (pos : 0 < y)

include pos

theorem zero_div {s : Sign} (zero : parts x = .zero s) : ∃ t, parts (x / y) = .zero t := by
  rw [parts_div, zero]
  obtain hy | ⟨m, e, pos, hy⟩ := pos_cases pos <;> rw [hy] <;> exact ⟨_, unpack_pack_zero _⟩

theorem div_ne_notANumber (finite : x.isFinite) : parts (x / y) ≠ .notANumber := by
  obtain ⟨s, zero⟩ | ⟨s, m, e, pos', hx⟩ := cases_of_isFinite finite
  · obtain ⟨t, quotient⟩ := zero_div pos zero
    rw [quotient]
    exact nofun
  · obtain hy | ⟨m', e', pos, hy⟩ := pos_cases pos
    · rw [parts_div, hx, hy]
      exact (unpack_pack_zero _).symm ▸ nofun
    · obtain ⟨o, -, -, rounds⟩ := rounds_div hx hy
      exact rounds.ne_notANumber

end Quotients

theorem zero_lt_of_atLeast (h : AtLeast k (parts x)) : 0 < x := by
  rw [lt_iff]
  change (UnpackedFloat.zero .positive).compare (parts x) = _
  generalize parts x = u at h ⊢
  cases h <;> rfl

end BoardPlotter.Double
