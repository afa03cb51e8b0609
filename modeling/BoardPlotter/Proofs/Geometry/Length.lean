import BoardPlotter.Geometry.Vec3
import BoardPlotter.Proofs.Scalar.Magnitude

/-!
# Lengths in space

A vector of doubles that has a finite length other than zero has a unit vector that is finite
and not zero, however far rounding takes the squares. If a coordinate is so small that its
square is lost, the others or the least double keep the length from being much smaller than it.
-/

namespace BoardPlotter.Vec3

open Double Float.Model Float.Model.UnpackedFloat

variable {p q : Vec3 Float} {k : Int}

def coords (p : Vec3 Float) : List Float := [p.x, p.y, p.z]

def IsFinite (p : Vec3 Float) : Prop := ∀ c ∈ p.coords, c.isFinite

theorem isFinite_iff : p.IsFinite ↔ p.x.isFinite ∧ p.y.isFinite ∧ p.z.isFinite := by
  simp [IsFinite, coords]

theorem length_eq (p : Vec3 Float) :
    p.length = (p.x * p.x + p.y * p.y + p.z * p.z).sqrt := rfl

theorem isFinite_of_length (h : p.length.isFinite) : p.IsFinite := by
  obtain ⟨xy, z⟩ := isFinite_of_add (isFinite_of_sqrt h)
  obtain ⟨x, y⟩ := isFinite_of_add xy
  exact isFinite_iff.mpr ⟨(isFinite_of_mul x).1, (isFinite_of_mul y).1, (isFinite_of_mul z).1⟩

theorem isFinite_of_sub (h : (p - q).IsFinite) : p.IsFinite ∧ q.IsFinite := by
  obtain ⟨x, y, z⟩ := isFinite_iff.mp h
  have x := Double.isFinite_of_sub x
  have y := Double.isFinite_of_sub y
  have z := Double.isFinite_of_sub z
  exact ⟨isFinite_iff.mpr ⟨x.1, y.1, z.1⟩, isFinite_iff.mpr ⟨x.2, y.2, z.2⟩⟩

theorem isFinite_of_cross (h : (p.cross q).IsFinite) : p.IsFinite ∧ q.IsFinite := by
  obtain ⟨x, y, -⟩ := isFinite_iff.mp h
  obtain ⟨yz, zy⟩ := Double.isFinite_of_sub x
  obtain ⟨zx, xz⟩ := Double.isFinite_of_sub y
  have yz := isFinite_of_mul yz
  have zy := isFinite_of_mul zy
  have zx := isFinite_of_mul zx
  have xz := isFinite_of_mul xz
  exact ⟨isFinite_iff.mpr ⟨xz.1, yz.1, zy.1⟩, isFinite_iff.mpr ⟨zx.2, zy.2, yz.2⟩⟩

/-! ## How long a vector is -/

/-- A vector is no shorter than a coordinate with a square that is not lost. -/
theorem atLeast_length (finite : p.IsFinite) {c : Float} (mem : c ∈ p.coords) {s : Sign} {m : Nat}
    {e : Int} {pos : 0 < m} (hc : parts c = .finite s m e pos) (above : -537 ≤ order m e) :
    AtLeast (order m e) (parts p.length) := by
  have square (c : Float) (h : c ∈ p.coords) : Nonneg (parts (c * c)) :=
    nonneg_mul_self (ne_notANumber_of_isFinite (finite c h))
  have x := square p.x (by simp [coords])
  have y := square p.y (by simp [coords])
  have z := square p.z (by simp [coords])
  have own := atLeast_mul_self hc (by omega)
  have half : 2 * order m e / 2 = order m e := by omega
  have sum : AtLeast (2 * order m e) (parts (p.x * p.x + p.y * p.y + p.z * p.z)) := by
    have cases_ : c = p.x ∨ c = p.y ∨ c = p.z := by simpa [coords] using mem
    rcases cases_ with rfl | rfl | rfl
    · exact (atLeast_add (atLeast_add own y (by omega)).1 z (by omega)).1
    · exact (atLeast_add (atLeast_add own x (by omega)).2 z (by omega)).1
    · exact (atLeast_add own (nonneg_add x y) (by omega)).2
  rw [length_eq, ← half]
  exact atLeast_sqrt sum (by omega)

/-- Zero, or with the leading bit at `k` or below. -/
def Small (k : Int) (c : Float) : Prop :=
  (∃ s, parts c = .zero s) ∨ ∃ s m e pos, parts c = .finite s m e pos ∧ order m e ≤ k

/-- A vector of small coordinates is not much longer than they are. -/
theorem atMost_length (small : ∀ c ∈ p.coords, Small k c) (above : -537 ≤ k) (below : k ≤ 500) :
    AtMost (k + 4) (parts p.length) := by
  have square (c : Float) (h : c ∈ p.coords) : AtMost (2 * k + 2) (parts (c * c)) := by
    obtain ⟨s, zero⟩ | ⟨s, m, e, pos, hc, le⟩ := small c h
    · rw [parts_mul, zero]
      exact (unpack_pack_zero (s * s)).symm ▸ .zero _
    · exact atMost_mul_self hc le (by omega) (by omega)
  have x := square p.x (by simp [coords])
  have y := square p.y (by simp [coords])
  have z := square p.z (by simp [coords])
  have xy := atMost_add x y (by omega) (by omega)
  have sum := atMost_add xy (z.mono (by omega)) (by omega) (by omega)
  rw [length_eq]
  exact (atMost_sqrt sum (by omega) (by omega)).mono (by omega)

theorem length_of_zero (zero : ∀ c ∈ p.coords, ∃ s, parts c = .zero s) :
    ∃ s, parts p.length = .zero s := by
  have square (c : Float) (h : c ∈ p.coords) : ∃ s, parts (c * c) = .zero s := by
    obtain ⟨s, hc⟩ := zero c h
    rw [parts_mul, hc]
    exact ⟨s * s, unpack_pack_zero _⟩
  have add {x y : Float} : (∃ s, parts x = .zero s) → (∃ s, parts y = .zero s) →
      ∃ s, parts (x + y) = .zero s := by
    rintro ⟨s, hx⟩ ⟨t, hy⟩
    rw [parts_add, hx, hy]
    cases s <;> cases t <;> exact ⟨_, rfl⟩
  obtain ⟨s, sum⟩ := add (add (square p.x (by simp [coords])) (square p.y (by simp [coords])))
    (square p.z (by simp [coords]))
  rw [length_eq, parts_sqrt, sum]
  exact ⟨s, unpack_pack_zero s⟩

theorem nonneg_length (finite : p.IsFinite) : Nonneg (parts p.length) := by
  have square (c : Float) (h : c ∈ p.coords) : Nonneg (parts (c * c)) :=
    nonneg_mul_self (ne_notANumber_of_isFinite (finite c h))
  exact nonneg_sqrt (nonneg_add (nonneg_add (square p.x (by simp [coords]))
    (square p.y (by simp [coords]))) (square p.z (by simp [coords])))

/-! ## Unit vectors -/

theorem coords_normalize (some_ : ¬ (p.length == 0) = true) :
    p.normalize.coords = p.coords.map (· / p.length) := by
  have eq : p.normalize = ⟨p.x / p.length, p.y / p.length, p.z / p.length⟩ := if_neg some_
  rw [eq]
  rfl

section Quotients

variable (coordinates : p.IsFinite) {m : Nat} {e : Int} {pos : 0 < m}
  (hn : parts p.length = .finite .positive m e pos)

include coordinates hn

theorem isFinite_div_length {c : Float} (mem : c ∈ p.coords) : (c / p.length).isFinite := by
  rw [isFinite_eq]
  obtain ⟨s, hc⟩ | ⟨s, m', e', pos', hc⟩ := cases_of_isFinite (coordinates c mem)
  · have zero : parts (c / p.length) = .zero (s / .positive) := by
      rw [parts_div, hc, hn]
      exact unpack_pack_zero _
    rw [zero]
    rfl
  · obtain ⟨o, -, high, rounds⟩ := rounds_div hc hn
    have near : order m' e' - order m e ≤ 1022 := by
      obtain ⟨-, least, -⟩ := parts_canonical hn
      by_cases kept : -537 ≤ order m' e'
      · have longer := atLeast_length coordinates mem hc kept
        rw [hn] at longer
        cases longer
        omega
      · omega
    exact rounds.isFinite (by omega)

theorem small_of_div_length {c : Float} (mem : c ∈ p.coords)
    (zero : (c / p.length == 0) = true) : Small (order m e - 1074) c := by
  obtain ⟨t, zero⟩ := beq_zero_iff.mp zero
  obtain ⟨s, hc⟩ | ⟨s, m', e', pos', hc⟩ := cases_of_isFinite (coordinates c mem)
  · exact .inl ⟨s, hc⟩
  · obtain ⟨o, low, -, rounds⟩ := rounds_div hc hn
    rw [zero] at rounds
    have := rounds.of_zero
    exact .inr ⟨s, m', e', pos', hc, by omega⟩

/-- The coordinates would otherwise be so small that the length could not be what it is. -/
theorem exists_div_length_ne_zero : ∃ c ∈ p.coords, ¬ (c / p.length == 0) = true := by
  by_contra none_
  have tiny (c : Float) (mem : c ∈ p.coords) : Small (order m e - 1074) c := by
    by_contra large
    exact none_ ⟨c, mem, fun zero => large (small_of_div_length coordinates hn mem zero)⟩
  obtain ⟨-, -, most⟩ := parts_canonical hn
  have short : AtMost (max (order m e - 1074) (-537) + 4) (parts p.length) := by
    refine atMost_length (fun c mem => ?_) (by omega) (by omega)
    exact (tiny c mem).imp_right fun ⟨s, m', e', pos', hc, le⟩ =>
      ⟨s, m', e', pos', hc, by omega⟩
  rw [hn] at short
  have shortest : order m e ≤ -533 := by
    cases short
    omega
  obtain ⟨s, zero⟩ := length_of_zero fun c mem => by
    obtain zero | ⟨s, m', e', pos', hc, le⟩ := tiny c mem
    · exact zero
    · have := (parts_canonical hc).2.1
      omega
  rw [hn] at zero
  cases zero

end Quotients

/-- **Unit vectors.** A vector of some length has a finite unit vector that is not zero precisely
if its length is finite. -/
theorem normalize_ne_zero_iff (some_ : ¬ (p.length == 0) = true) :
    (p.normalize.IsFinite ∧ ∃ c ∈ p.normalize.coords, ¬ (c == 0) = true) ↔ p.length.isFinite := by
  rw [IsFinite, coords_normalize some_]
  constructor
  · rintro ⟨finite, d, mem, large⟩
    obtain ⟨c, -, rfl⟩ := List.mem_map.mp mem
    by_contra infinite
    exact large (beq_zero_iff.mpr (zero_of_div infinite (finite _ mem)))
  · intro finite
    have coordinates := isFinite_of_length finite
    obtain ⟨m, e, pos, hn⟩ := exists_of_nonneg (nonneg_length coordinates) finite some_
    refine ⟨fun d mem => ?_, ?_⟩
    · obtain ⟨c, here, rfl⟩ := List.mem_map.mp mem
      exact isFinite_div_length coordinates hn here
    · obtain ⟨c, mem, large⟩ := exists_div_length_ne_zero coordinates hn
      exact ⟨_, List.mem_map_of_mem mem, large⟩

/-! ## Products of lengths -/

/-- A length other than zero is far above the least double. -/
theorem length_cases (some_ : ¬ (p.length == 0) = true) :
    parts p.length = .notANumber ∨ AtLeast (-537) (parts p.length) := by
  rw [beq_zero_iff] at some_
  exact (sqrt_cases _).imp_right fun h => h.resolve_left some_

/-- Lengths other than zero have a product other than zero. -/
theorem length_mul_length_ne_zero (hp : ¬ (p.length == 0) = true) (hq : ¬ (q.length == 0) = true) :
    ¬ (p.length * q.length == 0) = true := by
  rw [beq_zero_iff]
  rintro ⟨s, zero⟩
  have undefined (h : parts p.length = .notANumber ∨ parts q.length = .notANumber) : False := by
    rw [mul_notANumber h] at zero
    cases zero
  obtain h | hp := length_cases hp
  · exact undefined (.inl h)
  · obtain h | hq := length_cases hq
    · exact undefined (.inr h)
    · have product := atLeast_mul hp hq (by omega)
      rw [zero] at product
      cases product

theorem length_mul_length_pos (finite : p.IsFinite) (finite' : q.IsFinite)
    (hp : ¬ (p.length == 0) = true) (hq : ¬ (q.length == 0) = true) :
    0 < p.length * q.length := by
  have defined {p : Vec3 Float} (finite : p.IsFinite) (some_ : ¬ (p.length == 0) = true) :
      AtLeast (-537) (parts p.length) := by
    refine (length_cases some_).resolve_left fun undefined => ?_
    have nonneg := nonneg_length finite
    rw [undefined] at nonneg
    cases nonneg
  exact zero_lt_of_atLeast (atLeast_mul (defined finite hp) (defined finite' hq) (by omega))

end BoardPlotter.Vec3
