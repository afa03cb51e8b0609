import Mathlib.Algebra.Group.Nat.Defs
import Mathlib.Algebra.Order.Group.Int
import Mathlib.Data.Nat.Sqrt
import BoardPlotter.Scalar.Double

/-!
# Rounding

Whether a result is zero, finite or infinite depends on little more than where its leading bit
is. The place of the leading bit of `m * 2 ^ e` is `order m e`; rounding moves it by one at most
(`Rounds`), and what rounds to zero lies below all doubles, what rounds to infinity above.
-/

namespace BoardPlotter.Double

open Float.Model Float.Model.UnpackedFloat

/-! ## Leading bits -/

theorem log2_eq_of_le_of_lt {m k : Nat} (low : 2 ^ k ≤ m) (high : m < 2 ^ (k + 1)) : m.log2 = k :=
  (Nat.log2_eq_iff (Nat.ne_of_gt (Nat.lt_of_lt_of_le (Nat.two_pow_pos k) low))).mpr ⟨low, high⟩

theorem two_pow_log2_le {m : Nat} (h : m ≠ 0) : 2 ^ m.log2 ≤ m := (Nat.le_log2 h).mp le_rfl

theorem lt_two_pow_log2 (m : Nat) : m < 2 ^ (m.log2 + 1) := Nat.lt_log2_self

theorem log2_mono {m n : Nat} (h : m ≠ 0) (le : m ≤ n) : m.log2 ≤ n.log2 :=
  (Nat.le_log2 (by omega)).mpr ((two_pow_log2_le h).trans le)

theorem log2_div_two_pow {m k : Nat} (h : m ≠ 0) (le : k ≤ m.log2) :
    (m / 2 ^ k).log2 = m.log2 - k := by
  apply log2_eq_of_le_of_lt
  · rw [Nat.le_div_iff_mul_le (Nat.two_pow_pos k), ← Nat.pow_add, Nat.sub_add_cancel le]
    exact two_pow_log2_le h
  · rw [Nat.div_lt_iff_lt_mul (Nat.two_pow_pos k), ← Nat.pow_add]
    have place : m.log2 - k + 1 + k = m.log2 + 1 := by omega
    rw [place]
    exact lt_two_pow_log2 m

theorem log2_mul_two_pow {m : Nat} (h : m ≠ 0) (k : Nat) : (m * 2 ^ k).log2 = m.log2 + k := by
  apply log2_eq_of_le_of_lt
  · rw [Nat.pow_add]
    exact Nat.mul_le_mul_right _ (two_pow_log2_le h)
  · have place : m.log2 + k + 1 = m.log2 + 1 + k := by omega
    rw [place, Nat.pow_add]
    exact Nat.mul_lt_mul_of_pos_right (lt_two_pow_log2 m) (Nat.two_pow_pos k)

theorem log2_mul {m n : Nat} (hm : m ≠ 0) (hn : n ≠ 0) :
    m.log2 + n.log2 ≤ (m * n).log2 ∧ (m * n).log2 ≤ m.log2 + n.log2 + 1 := by
  constructor
  · rw [Nat.le_log2 (Nat.mul_ne_zero hm hn), Nat.pow_add]
    exact Nat.mul_le_mul (two_pow_log2_le hm) (two_pow_log2_le hn)
  · rw [← Nat.lt_succ_iff, Nat.log2_lt (Nat.mul_ne_zero hm hn)]
    have place : (m.log2 + n.log2 + 1).succ = (m.log2 + 1) + (n.log2 + 1) := by omega
    rw [place, Nat.pow_add]
    exact Nat.mul_lt_mul'' (lt_two_pow_log2 m) (lt_two_pow_log2 n)

theorem log2_succ (m : Nat) : (m + 1).log2 ≤ m.log2 + 1 := by
  rw [← Nat.lt_succ_iff, Nat.log2_lt (Nat.succ_ne_zero m)]
  calc m + 1 ≤ 2 ^ (m.log2 + 1) := lt_two_pow_log2 m
    _ < 2 ^ (m.log2 + 1).succ := Nat.pow_lt_pow_right (by decide) (Nat.lt_succ_self _)

theorem log2_add {m n : Nat} (hm : m ≠ 0) (hn : n ≠ 0) :
    max m.log2 n.log2 ≤ (m + n).log2 ∧ (m + n).log2 ≤ max m.log2 n.log2 + 1 := by
  constructor
  · exact max_le (log2_mono hm (by omega)) (log2_mono hn (by omega))
  · rw [← Nat.lt_succ_iff, Nat.log2_lt (by omega)]
    have below {k : Nat} (h : k.log2 ≤ max m.log2 n.log2) : k < 2 ^ (max m.log2 n.log2 + 1) :=
      (lt_two_pow_log2 k).trans_le (Nat.pow_le_pow_right (by decide) (by omega))
    have first := below (le_max_left m.log2 n.log2)
    have second := below (le_max_right m.log2 n.log2)
    rw [Nat.pow_succ]
    omega

theorem log2_sqrt {m : Nat} (h : m ≠ 0) : m.sqrt.log2 = m.log2 / 2 := by
  apply log2_eq_of_le_of_lt
  · rw [Nat.le_sqrt', ← Nat.pow_mul]
    exact (Nat.pow_le_pow_right (by decide) (by omega)).trans (two_pow_log2_le h)
  · rw [Nat.sqrt_lt', ← Nat.pow_mul]
    exact (lt_two_pow_log2 m).trans_le (Nat.pow_le_pow_right (by decide) (by omega))

theorem log2_div {m n : Nat} (h : m / n ≠ 0) :
    (m / n).log2 + n.log2 ≤ m.log2 ∧ m.log2 ≤ (m / n).log2 + n.log2 + 1 := by
  have hm : m ≠ 0 := by
    rintro rfl
    exact h (Nat.zero_div n)
  have hn : n ≠ 0 := by
    rintro rfl
    exact h (Nat.div_zero m)
  constructor
  · rw [Nat.le_log2 hm, Nat.pow_add]
    exact (Nat.mul_le_mul (two_pow_log2_le h) (two_pow_log2_le hn)).trans (Nat.div_mul_le_self m n)
  · rw [← Nat.lt_succ_iff, Nat.log2_lt hm]
    have place : ((m / n).log2 + n.log2 + 1).succ = ((m / n).log2 + 1) + (n.log2 + 1) := by omega
    rw [place, Nat.pow_add]
    calc m < n * (m / n + 1) := Nat.lt_mul_div_succ m (Nat.pos_of_ne_zero hn)
      _ = (m / n + 1) * n := Nat.mul_comm _ _
      _ ≤ 2 ^ ((m / n).log2 + 1) * 2 ^ (n.log2 + 1) :=
        Nat.mul_le_mul (lt_two_pow_log2 _) (lt_two_pow_log2 n).le

/-- The place of the leading bit of `m * 2 ^ e`. -/
def order (m : Nat) (e : Int) : Int := m.log2 + e

theorem binary64_targetExponent (t : Int) :
    Format.binary64.targetExponent t = max (t - 53) (-1074) := rfl

/-- The exponent of the last bit that is kept. -/
theorem targetExponent_eq (m : Nat) (e : Int) :
    Format.binary64.targetExponent (totalExponent m e) = max (order m e - 52) (-1074) := by
  rw [binary64_targetExponent, totalExponent, order]
  omega

/-! ## Shifting -/

theorem mantissa_shiftRight (em : ExtendedMantissa) (k : Nat) :
    (em >>> k).mantissa = em.mantissa / 2 ^ k := by
  induction k with
  | zero => exact (Nat.div_one _).symm
  | succ k ih =>
    change (em >>> k).mantissa / 2 = _
    rw [ih, Nat.div_div_eq_div_mul, Nat.pow_succ]

theorem mantissa_ofMantissaAndAccuracy (m : Nat) (a : Accuracy) :
    (ExtendedMantissa.ofMantissaAndAccuracy m a).mantissa = m := by
  cases a with
  | exact => rfl
  | inexact o => cases o <;> rfl

/-- The bits that are dropped raise the mantissa by one at most. -/
theorem roundedMantissa_mem (em : ExtendedMantissa) :
    em.mantissa ≤ em.roundedMantissa ∧ em.roundedMantissa ≤ em.mantissa + 1 := by
  obtain ⟨m, r, s⟩ := em
  rw [ExtendedMantissa.roundedMantissa]
  cases r <;> cases s <;> simp only [ExtendedMantissa.accuracy, Accuracy.roundToNearestEven] <;>
    omega

/-- A mantissa of at most 53 bits is shifted no further. -/
theorem shift_short {m : Nat} {e : Int} (short : m < 2 ^ 53) (above : -1074 ≤ e) :
    shiftToTargetExponent Format.binary64 m e .exact = (⟨m, false, false⟩, e) := by
  have bits : m.log2 ≤ 52 := by
    by_cases h : m = 0
    · simp [h]
    · exact Nat.lt_succ_iff.mp ((Nat.log2_lt h).mpr short)
  have stays : (max (order m e - 52) (-1074) - e).toNat = 0 := by
    rw [order]
    omega
  rw [shiftToTargetExponent, targetExponent_eq, shiftToExponent, stays]
  exact Prod.ext rfl (Int.add_zero e)

theorem shift_carry {e : Int} (above : -1074 ≤ e) :
    shiftToTargetExponent Format.binary64 (2 ^ 53) e .exact = (⟨2 ^ 52, false, false⟩, e + 1) := by
  have once : (max (order (2 ^ 53) e - 52) (-1074) - e).toNat = 1 := by
    rw [order, Nat.log2_two_pow]
    omega
  rw [shiftToTargetExponent, targetExponent_eq, shiftToExponent, once]
  rfl

/-! ## Rounding to doubles -/

/-- Mantissa and exponent of a double other than zero. -/
structure Canonical (m : Nat) (e : Int) : Prop where
  short : m < 2 ^ 53
  above : -1074 ≤ e
  full : 2 ^ 52 ≤ m ∨ e = -1074

/-- A mantissa that was rounded, with the bit that it may have gained carried over. -/
def carried (s : Sign) (r : Nat) (t : Int) : UnpackedFloat :=
  if h : r = 0 then .zero s
  else if r < 2 ^ 53 then .finite s r t (Nat.pos_of_ne_zero h)
  else .finite s (2 ^ 52) (t + 1) (by decide)

theorem carried_of_lt (s : Sign) {r : Nat} (t : Int) (short : r < 2 ^ 53) :
    carried s r t = if h : r = 0 then .zero s else .finite s r t (Nat.pos_of_ne_zero h) := by
  by_cases none_ : r = 0
  · rw [carried, dif_pos none_, dif_pos none_]
  · rw [carried, dif_neg none_, dif_neg none_, if_pos short]

/-- Where the last kept bit is, seen from `e`. -/
def drop (m : Nat) (e : Int) : Nat := (max (order m e - 52) (-1074) - e).toNat

theorem div_two_pow_drop_lt (m : Nat) (e : Int) : m / 2 ^ drop m e < 2 ^ 53 := by
  rw [Nat.div_lt_iff_lt_mul (Nat.two_pow_pos _), ← Nat.pow_add]
  refine (lt_two_pow_log2 m).trans_le (Nat.pow_le_pow_right (by decide) ?_)
  rw [drop, order]
  omega

/-- Rounding cuts the mantissa and raises what is left by one at most. -/
theorem exists_carried (s : Sign) (m : Nat) (e : Int) (a : Accuracy) :
    ∃ r, m / 2 ^ drop m e ≤ r ∧ r ≤ m / 2 ^ drop m e + 1 ∧
      roundWithAccuracy Format.binary64 s m e a = carried s r (e + drop m e) := by
  let first := ExtendedMantissa.ofMantissaAndAccuracy m a >>> drop m e
  have cut : first.mantissa = m / 2 ^ drop m e := by
    rw [mantissa_shiftRight, mantissa_ofMantissaAndAccuracy]
  obtain ⟨low, high⟩ := roundedMantissa_mem first
  rw [cut] at low high
  refine ⟨first.roundedMantissa, low, high, ?_⟩
  have shifted : shiftToTargetExponent Format.binary64 m e a = (first, e + drop m e) := by
    rw [shiftToTargetExponent, targetExponent_eq]
    rfl
  have above : -1074 ≤ e + (drop m e : Int) := by
    rw [drop]
    omega
  have most : first.roundedMantissa ≤ 2 ^ 53 := high.trans (div_two_pow_drop_lt m e)
  rw [roundWithAccuracy, shifted]
  dsimp only
  rcases most.lt_or_eq with short | long
  · rw [shift_short short above]
    exact (carried_of_lt s _ short).symm
  · rw [long, shift_carry above]
    rfl

/-- A number that keeps all bits that a double has room for. -/
def Fine (m : Nat) (e : Int) : Prop := 52 ≤ m.log2 ∨ e ≤ -1074

theorem Fine.add_drop {m : Nat} {e : Int} (fine : Fine m e) :
    e + (drop m e : Int) = max (order m e - 52) (-1074) := by
  rw [drop]
  rcases fine with bits | below
  · rw [order]
    omega
  · omega

theorem carried_one (s : Sign) (t : Int) : carried s 1 t = .finite s 1 t Nat.one_pos := rfl

/-- A mantissa with its leading bit carried over keeps its place. -/
theorem carried_eq_finite (s : Sign) {r : Nat} {t : Int} (pos : r ≠ 0) (most : r ≤ 2 ^ 53)
    (above : -1074 ≤ t) (full : 2 ^ 52 ≤ r ∨ t = -1074) :
    ∃ m e h, carried s r t = .finite s m e h ∧ Canonical m e ∧ order m e = order r t := by
  rcases most.lt_or_eq with short | rfl
  · rw [carried_of_lt s t short, dif_neg pos]
    exact ⟨r, t, _, rfl, ⟨short, above, full⟩, rfl⟩
  · rw [carried, dif_neg pos, if_neg (Nat.lt_irrefl _)]
    refine ⟨2 ^ 52, t + 1, _, rfl, ⟨by decide, by omega, .inl le_rfl⟩, ?_⟩
    rw [order, order, Nat.log2_two_pow, Nat.log2_two_pow]
    omega

/-- Where nothing is left of the mantissa, the number is less than the least double. -/
theorem Fine.tiny {m : Nat} {e o : Int} (fine : Fine m e)
    (place : if m = 0 then o < -1074 else o = order m e) (cut : m / 2 ^ drop m e = 0) :
    o < -1074 ∧ max (order m e - 52) (-1074) = -1074 := by
  have last := fine.add_drop
  by_cases none_ : m = 0
  · subst none_
    have below : e ≤ -1074 := fine.resolve_left (by simp)
    simp only [if_true] at place
    rw [order, Nat.log2_zero]
    omega
  · have bits : m.log2 < drop m e :=
      (Nat.log2_lt none_).mpr ((Nat.div_eq_zero_iff_lt (Nat.two_pow_pos _)).mp cut)
    rw [if_neg none_, order] at place
    rw [order] at last ⊢
    omega

/-- Rounding what is left moves the leading bit by one at most. -/
theorem Fine.exists_canonical {m r : Nat} {e : Int} (fine : Fine m e) (s : Sign)
    (left : m / 2 ^ drop m e ≠ 0) (low : m / 2 ^ drop m e ≤ r) (high : r ≤ m / 2 ^ drop m e + 1) :
    ∃ m' e' pos, carried s r (max (order m e - 52) (-1074)) = .finite s m' e' pos ∧
      Canonical m' e' ∧ order m e ≤ order m' e' ∧ order m' e' ≤ order m e + 1 := by
  have last := fine.add_drop
  have some_ : m ≠ 0 := by
    rintro rfl
    exact left (Nat.zero_div _)
  have bits : drop m e ≤ m.log2 := by
    rw [Nat.le_log2 some_]
    exact Nat.one_le_div_iff (Nat.two_pow_pos _) |>.mp (Nat.pos_of_ne_zero left)
  have kept := log2_div_two_pow some_ bits
  have pos : r ≠ 0 := Nat.ne_of_gt ((Nat.pos_of_ne_zero left).trans_le low)
  have lower : (m / 2 ^ drop m e).log2 ≤ r.log2 := log2_mono left low
  have upper : r.log2 ≤ (m / 2 ^ drop m e).log2 + 1 := (log2_mono pos high).trans (log2_succ _)
  have most : r ≤ 2 ^ 53 := high.trans (div_two_pow_drop_lt m e)
  have full : 2 ^ 52 ≤ r ∨ max (order m e - 52) (-1074) = -1074 := by
    by_cases lowest : max (order m e - 52) (-1074) = -1074
    · exact .inr lowest
    · rw [← Nat.le_log2 pos]
      rw [order] at lowest last
      omega
  obtain ⟨m', e', h, eq, canonical, same⟩ := carried_eq_finite s pos most (le_max_right _ _) full
  refine ⟨m', e', h, eq, canonical, ?_, ?_⟩
  all_goals
    rw [same, order, order]
    rw [order] at last
    omega

/-- Rounded to the precision of doubles, but not to their range. -/
theorem round_fine (s : Sign) {m : Nat} {e o : Int} (a : Accuracy) (fine : Fine m e)
    (place : if m = 0 then o < -1074 else o = order m e) :
    (roundWithAccuracy Format.binary64 s m e a = .zero s ∧ o < -1074) ∨
      ∃ m' e' pos, roundWithAccuracy Format.binary64 s m e a = .finite s m' e' pos ∧
        Canonical m' e' ∧ o ≤ order m' e' ∧ order m' e' ≤ max (o + 1) (-1074) := by
  obtain ⟨r, low, high, eq⟩ := exists_carried s m e a
  rw [eq, fine.add_drop]
  by_cases cut : m / 2 ^ drop m e = 0
  · -- Nothing is left but what rounding may add.
    obtain ⟨tiny, lowest⟩ := fine.tiny place cut
    rw [cut] at high
    rw [lowest]
    obtain rfl | rfl : r = 0 ∨ r = 1 := by omega
    · exact .inl ⟨rfl, tiny⟩
    · have least : order 1 (-1074) = -1074 := by decide
      refine .inr ⟨1, -1074, Nat.one_pos, carried_one s _, ⟨by decide, le_rfl, .inr rfl⟩, ?_, ?_⟩
      · omega
      · omega
  · have some_ : m ≠ 0 := by
      rintro rfl
      exact cut (Nat.zero_div _)
    obtain ⟨m', e', pos, eq', canonical, lower, upper⟩ := fine.exists_canonical s cut low high
    rw [if_neg some_] at place
    exact .inr ⟨m', e', pos, eq', canonical, place.le.trans lower,
      place ▸ upper.trans (le_max_left _ _)⟩

/-! ## The range of doubles -/

theorem unpack_pack_notANumber : (Float.Model.pack .notANumber).unpack = .notANumber := rfl

theorem unpack_pack_zero (s : Sign) : (Float.Model.pack (.zero s)).unpack = .zero s := by
  cases s <;> rfl

theorem unpack_pack_infinity (s : Sign) :
    (Float.Model.pack (.infinity s)).unpack = .infinity s := by
  cases s <;> rfl

theorem unpackSign_packComponents (s : Sign) (x : BitVec 11) (f : BitVec 52) :
    unpackSign (packComponents Format.binary64 s x f) = s.toBitVec := by
  ext i hi
  obtain rfl : i = 0 := by omega
  have top : (s.toBitVec ++ x ++ f).getLsbD 63 = s.toBitVec.getLsbD 0 := by
    rw [BitVec.getLsbD_append, if_neg (by decide), BitVec.getLsbD_append, if_neg (by decide)]
  change ((s.toBitVec ++ x ++ f).extractLsb' 63 1)[0] = s.toBitVec[0]
  rw [BitVec.getElem_extractLsb']
  exact top

theorem ofBitVec_toBitVec (s : Sign) : Sign.ofBitVec s.toBitVec = s := by
  cases s <;> rfl

theorem toNat_one_append (f : BitVec 52) : (1#1 ++ f).toNat = 2 ^ 52 + f.toNat := by
  rw [BitVec.toNat_append, ← Nat.shiftLeft_add_eq_or_of_lt f.isLt]
  rfl

theorem finite_congr {s s' : Sign} {m m' : Nat} {e e' : Int} {pos : 0 < m} {pos' : 0 < m'}
    (hs : s = s') (hm : m = m') (he : e = e') :
    UnpackedFloat.finite s m e pos = .finite s' m' e' pos' := by
  subst hs hm he
  rfl

/-- The number with these parts. -/
def ofParts (s : Sign) (exponent : BitVec 11) (fraction : BitVec 52) : UnpackedFloat :=
  if exponent = -1#11 then if fraction = 0#52 then .infinity s else .notANumber
  else if exponent = 0#11 then
    if none_ : fraction = 0#52 then .zero s
    else .finite s fraction.toNat (exponent.toNat - 1075 + 1) (by
      simpa [BitVec.toNat_pos, BitVec.pos_iff_ne_zero])
  else .finite s (1#1 ++ fraction).toNat (exponent.toNat - 1075) (by
    rw [toNat_one_append]
    omega)

theorem unpack_eq_ofParts (b : BitVec Format.binary64.numBits) :
    UnpackedFloat.unpack Format.binary64 b =
      ofParts (Sign.ofBitVec (unpackSign b)) (unpackExponent b) (unpackMantissa b) := rfl

theorem unpack_packComponents (s : Sign) (x : BitVec 11) (f : BitVec 52) :
    UnpackedFloat.unpack Format.binary64 (packComponents Format.binary64 s x f) =
      ofParts s x f := by
  rw [unpack_eq_ofParts, unpackSign_packComponents, ofBitVec_toBitVec,
    unpackExponent_packComponents, unpackMantissa_packComponents]

theorem unpack_normal (s : Sign) {x : BitVec 11} (f : BitVec 52) (top : x ≠ -1#11)
    (bottom : x ≠ 0#11) :
    UnpackedFloat.unpack Format.binary64 (packComponents Format.binary64 s x f) =
      .finite s (2 ^ 52 + f.toNat) (x.toNat - 1075) (by omega) := by
  rw [unpack_packComponents, ofParts, if_neg top, if_neg bottom]
  exact finite_congr rfl (toNat_one_append f) rfl

theorem unpack_subnormal (s : Sign) {f : BitVec 52} (some_ : f ≠ 0#52) :
    UnpackedFloat.unpack Format.binary64 (packComponents Format.binary64 s 0#11 f) =
      .finite s f.toNat (-1074) (by simpa [BitVec.toNat_pos, BitVec.pos_iff_ne_zero]) := by
  have top : 0#11 ≠ -1#11 := by decide
  rw [unpack_packComponents, ofParts, if_neg top, if_pos rfl, dif_neg some_]
  rfl

/-- A double that has all its bits survives in range, and becomes infinite above it. -/
theorem unpack_pack_normal (s : Sign) {m : Nat} {e : Int} (pos : 0 < m) (h : Canonical m e)
    (full : m.log2 = 52) : (Float.Model.pack (.finite s m e pos)).unpack =
      if order m e ≤ 1023 then .finite s m e pos else .infinity s := by
  have above := h.above
  change UnpackedFloat.unpack Format.binary64 (
    if 2 ^ 11 ≤ (e + 1023 + 52).toNat + 1 then packedInfinity Format.binary64 s
    else if m.log2 + 1 = 53 then
      packComponents Format.binary64 s (BitVec.ofNat 11 (e + 1023 + 52).toNat) (BitVec.ofNat 52 m)
    else packComponents Format.binary64 s 0#11 (BitVec.ofNat 52 m)) = _
  rw [order, full]
  by_cases within : ((52 : Nat) : Int) + e ≤ 1023
  · have fraction : 2 ^ 52 + m % 2 ^ 52 = m := by
      have low := (Nat.le_log2 (Nat.ne_of_gt pos)).mp full.ge
      have high := h.short
      omega
    have biased : (BitVec.ofNat 11 (e + 1023 + 52).toNat).toNat = (e + 1023 + 52).toNat :=
      Nat.mod_eq_of_lt (by omega)
    rw [if_pos within, if_neg (by omega), if_pos rfl, unpack_normal]
    · apply finite_congr rfl
      · rw [BitVec.toNat_ofNat, fraction]
      · rw [biased]
        omega
    · intro eq
      have := congrArg BitVec.toNat eq
      rw [biased] at this
      change _ = 2047 at this
      omega
    · intro eq
      have := congrArg BitVec.toNat eq
      rw [biased] at this
      change _ = 0 at this
      omega
  · rw [if_neg within, if_pos (by omega)]
    exact unpack_pack_infinity s

theorem unpack_pack_subnormal (s : Sign) {m : Nat} (pos : 0 < m) (small : m < 2 ^ 52) :
    (Float.Model.pack (.finite s m (-1074) pos)).unpack = .finite s m (-1074) pos := by
  have few : m.log2 < 52 := (Nat.log2_lt (Nat.ne_of_gt pos)).mpr small
  have same : (BitVec.ofNat 52 m).toNat = m := Nat.mod_eq_of_lt small
  change UnpackedFloat.unpack Format.binary64 (
    if m.log2 + 1 = 53 then
      packComponents Format.binary64 s (BitVec.ofNat 11 1) (BitVec.ofNat 52 m)
    else packComponents Format.binary64 s 0#11 (BitVec.ofNat 52 m)) = _
  rw [if_neg (by omega), unpack_subnormal]
  · exact finite_congr rfl same rfl
  · intro eq
    rw [eq] at same
    exact Nat.ne_of_lt pos same

/-- A double within range survives, and one above it becomes infinite. -/
theorem unpack_pack_finite (s : Sign) {m : Nat} {e : Int} (pos : 0 < m) (h : Canonical m e) :
    (Float.Model.pack (.finite s m e pos)).unpack =
      if order m e ≤ 1023 then .finite s m e pos else .infinity s := by
  by_cases full : 2 ^ 52 ≤ m
  · exact unpack_pack_normal s pos h (log2_eq_of_le_of_lt full h.short)
  · have small : m < 2 ^ 52 := Nat.lt_of_not_le full
    have few : m.log2 < 52 := (Nat.log2_lt (Nat.ne_of_gt pos)).mpr small
    obtain rfl := h.full.resolve_left full
    rw [unpack_pack_subnormal s pos small, if_pos (by rw [order]; omega)]

theorem canonical_of_unpack {x : Float.Model} {s : Sign} {m : Nat} {e : Int} {pos : 0 < m}
    (h : x.unpack = .finite s m e pos) : Canonical m e ∧ order m e ≤ 1023 := by
  let f := @unpackMantissa Format.binary64 x.toBits.toBitVec
  let k := @unpackExponent Format.binary64 x.toBits.toBitVec
  have fraction : f.toNat < 2 ^ 52 := f.isLt
  have biased : k.toNat < 2 ^ 11 := k.isLt
  have bits : m < 2 ^ 53 → m.log2 ≤ 52 := fun short =>
    Nat.lt_succ_iff.mp ((Nat.log2_lt (Nat.ne_of_gt pos)).mpr short)
  change ofParts _ k f = _ at h
  by_cases top : k = -1#11
  · rw [ofParts, if_pos top] at h
    by_cases none_ : f = 0#52
    · rw [if_pos none_] at h
      cases h
    · rw [if_neg none_] at h
      cases h
  rw [ofParts, if_neg top] at h
  by_cases bottom : k = 0#11
  · rw [if_pos bottom] at h
    by_cases none_ : f = 0#52
    · rw [dif_pos none_] at h
      cases h
    rw [dif_neg none_] at h
    injection h with _ hm he
    have exponent : e = -1074 := by
      rw [← he, bottom]
      rfl
    have short : m < 2 ^ 53 := by omega
    refine ⟨⟨short, exponent.ge, .inr exponent⟩, ?_⟩
    have := bits short
    rw [order]
    omega
  · rw [if_neg bottom] at h
    injection h with _ hm he
    rw [toNat_one_append] at hm
    have below : k.toNat ≠ 2047 := fun eq => top (BitVec.eq_of_toNat_eq eq)
    have above_zero : k.toNat ≠ 0 := fun eq => bottom (BitVec.eq_of_toNat_eq eq)
    have short : m < 2 ^ 53 := by omega
    refine ⟨⟨short, by omega, .inl (by omega)⟩, ?_⟩
    have := bits short
    rw [order]
    omega

/-- What becomes of a number with the sign `s` and the leading bit at `o`. -/
inductive Rounds (s : Sign) (o : Int) : UnpackedFloat → Prop
  | zero : o < -1074 → Rounds s o (.zero s)
  | finite {m e} (pos : 0 < m) : o ≤ order m e → order m e ≤ max (o + 1) (-1074) →
      order m e ≤ 1023 → Rounds s o (.finite s m e pos)
  | infinity : 1023 ≤ o → Rounds s o (.infinity s)

theorem rounds_roundWithAccuracy (s : Sign) {m : Nat} {e o : Int} (a : Accuracy) (fine : Fine m e)
    (place : if m = 0 then o < -1074 else o = order m e) :
    Rounds s o (Float.Model.pack (roundWithAccuracy Format.binary64 s m e a)).unpack := by
  obtain ⟨eq, tiny⟩ | ⟨m', e', pos, eq, canonical, low, high⟩ := round_fine s a fine place
  · rw [eq, unpack_pack_zero]
    exact .zero tiny
  · rw [eq, unpack_pack_finite s pos canonical]
    by_cases within : order m' e' ≤ 1023
    · rw [if_pos within]
      exact .finite pos low high within
    · rw [if_neg within]
      exact .infinity (by omega)

theorem rounds_round (s : Sign) {m : Nat} (pos : 0 < m) (e : Int) :
    Rounds s (order m e) (Float.Model.pack (round Format.binary64 s m e)).unpack := by
  -- Zeros are put behind the mantissa until it has all bits that are kept.
  let k := (e - max (order m e - 52) (-1074)).toNat
  have bits : (m <<< k).log2 = m.log2 + k := by
    rw [Nat.shiftLeft_eq, log2_mul_two_pow (Nat.ne_of_gt pos)]
  have same : order (m <<< k) (e - k) = order m e := by
    rw [order, order, bits]
    omega
  have fine : Fine (m <<< k) (e - k) := by
    rw [Fine, bits]
    have def_ : k = (e - max (order m e - 52) (-1074)).toNat := rfl
    rw [order] at def_
    omega
  have some_ : m <<< k ≠ 0 := Nat.ne_of_gt (Nat.shiftLeft_pos_iff.mpr pos)
  rw [UnpackedFloat.round, targetExponent_eq, decreaseExponent]
  exact rounds_roundWithAccuracy s .exact fine (by rw [if_neg some_, same])

end BoardPlotter.Double
