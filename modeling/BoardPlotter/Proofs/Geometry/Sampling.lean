import Mathlib.Data.List.Chain
import BoardPlotter.Proofs.Geometry.Center
import BoardPlotter.Proofs.Geometry.Flattening

/-!
# The samples of an arc

An arc is sampled by halving its parameter, so wherever halving is exact the samples are
the arc at whole numbers of the least step. Each is written with its number:
`Arc.bisect_eq` says, by the two halves, that the numbers come in order and that
neighbours are near each other or one step apart. Nothing else of the numbers is used
there, neither what a sine nor what a distance is.

`EndpointArc.flatten_steps`: the samples from one end to the other, in exact arithmetic
with any sine, cosine and distance.
-/

namespace BoardPlotter

open Scalar

namespace Arc

variable {α : Type} [Scalar α]

/-- The sample at a number of steps, with the number. -/
def sampleAt (arc : Arc α) (step : ℕ → α) (k : ℕ) : ℕ × Point α := (k, arc.point (step k))

/-- Neighbouring samples: in order, no further apart than a span, and near each other or
one step apart. -/
structure Adjacent (tolerance : α) (span : ℕ) (u v : ℕ × Point α) : Prop where
  order : u.1 < v.1
  within : v.1 ≤ u.1 + span
  near : (v.2 - u.2).length ≤ tolerance ∨ v.1 = u.1 + 1

theorem Adjacent.mono {tolerance : α} {span span' : ℕ} (le : span ≤ span') {u v : ℕ × Point α}
    (adjacent : Adjacent tolerance span u v) : Adjacent tolerance span' u v :=
  ⟨adjacent.order, by have := adjacent.within; omega, adjacent.near⟩

variable {step : ℕ → α}
  (halves : ∀ k depth, (step k + step (k + 2 ^ (depth + 1))) / 2 = step (k + 2 ^ depth))
include halves

/-- **What bisection goes through.** The arc at numbers of steps, each next to the one
before it and the first and the last next to the ends. -/
theorem bisect_eq (arc : Arc α) (tolerance : α) (depth k : ℕ) (a b : Point α) :
    ∃ ks : List ℕ,
      arc.bisect tolerance depth (step k) a (step (k + 2 ^ depth)) b =
        ks.map (fun i => arc.point (step i)) ∧
      ((k, a) :: (ks.map (arc.sampleAt step) ++ [(k + 2 ^ depth, b)])).IsChain
        (Adjacent tolerance (2 ^ depth)) := by
  induction depth generalizing k a b with
  | zero =>
    refine ⟨[], rfl, List.isChain_pair.mpr ⟨?_, le_rfl, .inr rfl⟩⟩
    simp
  | succ depth ih =>
    have positive := Nat.two_pow_pos depth
    by_cases fits : (b - a).length ≤ tolerance
    · refine ⟨[], ?_, List.isChain_pair.mpr ⟨?_, le_rfl, .inl fits⟩⟩
      · rw [bisect, if_pos fits]
        rfl
      · simp
    · -- The middle is the last of the left half and the first of the right.
      obtain ⟨lefts, drawnLeft, chainLeft⟩ := ih k a (arc.point (step (k + 2 ^ depth)))
      obtain ⟨rights, drawnRight, chainRight⟩ :=
        ih (k + 2 ^ depth) (arc.point (step (k + 2 ^ depth))) b
      have whole : k + 2 ^ depth + 2 ^ depth = k + 2 ^ (depth + 1) := by
        rw [pow_succ]
        omega
      have span : 2 ^ depth ≤ 2 ^ (depth + 1) := by
        rw [pow_succ]
        omega
      rw [whole] at drawnRight chainRight
      refine ⟨lefts ++ (k + 2 ^ depth) :: rights, ?_, ?_⟩
      · rw [bisect, if_neg fits, halves]
        dsimp only
        rw [drawnLeft, drawnRight, List.map_append, List.map_cons]
      · rw [List.map_append, List.map_cons, List.append_assoc, List.cons_append,
          ← List.cons_append]
        apply List.isChain_split.mpr
        constructor
        · exact chainLeft.imp fun u v adjacent => adjacent.mono span
        · exact chainRight.imp fun u v adjacent => adjacent.mono span

end Arc

namespace EndpointArc

section Halving

variable {α : Type} [Scalar α]

/-- The ends of an arc and the samples between them, with their numbers. -/
def numbered (e : EndpointArc α) (step : ℕ → α) (last : ℕ) (ks : List ℕ) : List (ℕ × Point α) :=
  (0, e.p₁) :: (ks.map (e.center.sampleAt step) ++ [(last, e.p₂)])

theorem map_snd_numbered (e : EndpointArc α) (step : ℕ → α) (last : ℕ) (ks : List ℕ) :
    (e.numbered step last ks).map Prod.snd =
      e.p₁ :: (ks.map (fun k => e.center.point (step k)) ++ [e.p₂]) := by
  simp [numbered, Arc.sampleAt]

theorem map_fst_numbered (e : EndpointArc α) (step : ℕ → α) (last : ℕ) (ks : List ℕ) :
    (e.numbered step last ks).map Prod.fst = 0 :: (ks ++ [last]) := by
  simp [numbered, Arc.sampleAt, Function.comp_def]

theorem numbers_isChain (e : EndpointArc α) {tolerance : α} {step : ℕ → α} {span last : ℕ}
    {ks : List ℕ} (chain : (e.numbered step last ks).IsChain (Arc.Adjacent tolerance span)) :
    (0 :: (ks ++ [last])).IsChain (· < ·) := by
  rw [← map_fst_numbered e step last ks]
  exact (List.isChain_map Prod.fst).mpr (chain.imp fun u v adjacent => adjacent.order)

theorem le_of_mem_numbered (e : EndpointArc α) {tolerance : α} {step : ℕ → α} {span last : ℕ}
    {ks : List ℕ} (chain : (e.numbered step last ks).IsChain (Arc.Adjacent tolerance span))
    {u : ℕ × Point α} (mem : u ∈ e.numbered step last ks) : u.1 ≤ last := by
  have numbers := List.isChain_iff_pairwise.mp (e.numbers_isChain chain)
  rw [← List.cons_append, List.pairwise_append] at numbers
  have here : u.1 ∈ 0 :: ks ++ [last] := by
    rw [List.cons_append, ← map_fst_numbered e step last ks]
    exact List.mem_map_of_mem mem
  rcases List.mem_append.mp here with before | final
  · exact (numbers.2.2 u.1 before last List.mem_cons_self).le
  · exact (List.mem_singleton.mp final).le

/-- The samples are neighbours all the way from the one end to the other, by way of the
middle. -/
theorem samples_eq (e : EndpointArc α) (tolerance : α) (depth : ℕ) {step : ℕ → α}
    (halves : ∀ k depth, (step k + step (k + 2 ^ (depth + 1))) / 2 = step (k + 2 ^ depth))
    (zero : step 0 = 0) (half : step (2 ^ depth) = 1 / 2) (one : step (2 ^ (depth + 1)) = 1) :
    ∃ ks, e.samples tolerance depth = (e.numbered step (2 ^ (depth + 1)) ks).map Prod.snd ∧
      2 ^ depth ∈ ks ∧
      (e.numbered step (2 ^ (depth + 1)) ks).IsChain (Arc.Adjacent tolerance (2 ^ depth)) := by
  have mid : e.center.point (1 / 2) = e.center.point (step (2 ^ depth)) := by rw [half]
  obtain ⟨lefts, drawnLeft, chainLeft⟩ :=
    Arc.bisect_eq halves e.center tolerance depth 0 e.p₁ (e.center.point (1 / 2))
  obtain ⟨rights, drawnRight, chainRight⟩ :=
    Arc.bisect_eq halves e.center tolerance depth (2 ^ depth) (e.center.point (1 / 2)) e.p₂
  have whole : 2 ^ depth + 2 ^ depth = 2 ^ (depth + 1) := by
    rw [pow_succ]
    omega
  rw [Nat.zero_add, zero, half] at drawnLeft
  rw [whole, half, one] at drawnRight
  rw [Nat.zero_add] at chainLeft
  rw [whole] at chainRight
  refine ⟨lefts ++ 2 ^ depth :: rights, ?_, List.mem_append_right _ List.mem_cons_self, ?_⟩
  · unfold samples
    dsimp only
    rw [map_snd_numbered, drawnLeft, drawnRight, mid]
    simp
  · unfold numbered
    rw [List.map_append, List.map_cons, List.append_assoc, List.cons_append, ← List.cons_append]
    apply List.isChain_split.mpr
    rw [Arc.sampleAt, ← mid]
    exact ⟨chainLeft, chainRight⟩

end Halving

end EndpointArc

namespace Exact

/-- Exact arithmetic with any sine, cosine and distance. -/
noncomputable abbrev scalarWith (sin cos : ℝ → ℝ) (distance : ℝ → ℝ → ℝ) : Scalar ℝ :=
  { instScalar with sin := sin, cos := cos, hypot := distance }

/-- The parameter after a number of steps, of which `2 ^ m` make the whole. -/
noncomputable def param (m k : ℕ) : ℝ := k / 2 ^ m

theorem param_halves (m k depth : ℕ) :
    (param m k + param m (k + 2 ^ (depth + 1))) / 2 = param m (k + 2 ^ depth) := by
  unfold param
  push_cast
  rw [pow_succ]
  ring

theorem param_zero (m : ℕ) : param m 0 = 0 := by
  unfold param
  rw [Nat.cast_zero, zero_div]

theorem param_half (m : ℕ) : param (m + 1) (2 ^ m) = 1 / 2 := by
  unfold param
  push_cast
  rw [pow_succ]
  field_simp

theorem param_one (m : ℕ) : param m (2 ^ m) = 1 := by
  unfold param
  push_cast
  rw [div_self (by positivity)]

theorem param_mem {m k : ℕ} (le : k ≤ 2 ^ m) : param m k ∈ Set.Icc (0 : ℝ) 1 := by
  unfold param
  refine ⟨by positivity, div_le_one_of_le₀ ?_ (by positivity)⟩
  exact_mod_cast le

theorem param_sub (m i j : ℕ) : param m j - param m i = ((j : ℝ) - i) / 2 ^ m := by
  unfold param
  exact (sub_div _ _ _).symm

end Exact

namespace EndpointArc

/-- **The samples of an arc.** Between ends that are apart and with radii other than zero
every arc is sampled, from the first end to the second, at increasing multiples of the least
step, among them the middle. Neighbours are within the tolerance or one step apart. The sine,
the cosine and the distance may be any functions. -/
theorem flatten_steps (sin cos : ℝ → ℝ) (distance : ℝ → ℝ → ℝ) :
    letI : Scalar ℝ := Exact.scalarWith sin cos distance
    ∀ (e : EndpointArc ℝ) (tolerance : ℝ) (depth : ℤ),
      e.p₁ ≠ e.p₂ → e.rx ≠ 0 → e.ry ≠ 0 → 0 < tolerance →
      let m := (max 1 depth).toNat
      ∃ (arc : Arc ℝ) (ks : List ℕ), e.center? = .ok arc ∧
        let between := ks.map fun k : ℕ => (k, arc.point (k / 2 ^ m))
        let samples : List (ℕ × Point ℝ) := (0, e.p₁) :: (between ++ [(2 ^ m, e.p₂)])
        e.flatten tolerance depth = .ok (samples.map Prod.snd) ∧
          (ks.Pairwise (· < ·) ∧ (∀ k ∈ ks, 0 < k ∧ k < 2 ^ m) ∧ 2 ^ (m - 1) ∈ ks) ∧
          samples.length ≤ 2 ^ m + 1 ∧
          samples.IsChain fun u v => (v.2 - u.2).length ≤ tolerance ∨ v.1 = u.1 + 1 := by
  let exact := Exact.scalarWith sin cos distance
  intro e tolerance depth apart hrx hry positive m
  have sound : e.fault? = none := by
    have finite (x : ℝ) : (Scalar.isFinite x : Bool) = true := rfl
    simp [fault?, isInfinite, overflows, finite]
  have round : ¬ (|e.rx| == 0 || |e.ry| == 0) = true := by simp [hrx, hry]
  have found : e.center? = .ok e.center := by
    rw [center?_eq, sound]
    exact if_neg round
  have drawn : e.flatten tolerance depth = .ok (e.samples tolerance (depth - 1).toNat) := by
    rw [flatten_eq, sound]
    refine (if_pos positive).trans ((if_neg ?_).trans ((if_neg ?_).trans (if_neg round)))
    · exact (Point.beq_iff e.p₁ e.p₂).not.mpr apart
    · simp [hrx, hry]
  obtain ⟨depth', deep, less⟩ : ∃ depth', m = depth' + 1 ∧ (depth - 1).toNat = depth' :=
    ⟨(depth - 1).toNat, by omega, rfl⟩
  obtain ⟨ks, samples, middle, chain⟩ :=
    e.samples_eq tolerance depth' (Exact.param_halves (depth' + 1)) (Exact.param_zero _)
      (Exact.param_half depth') (Exact.param_one _)
  rw [less, samples] at drawn
  have numbers := e.numbers_isChain chain
  have last : (0 :: (ks ++ [2 ^ (depth' + 1)])).getLast? = some (2 ^ (depth' + 1)) := by
    rw [← List.cons_append, List.getLast?_concat]
  have room := ControlPolygon.length_le_of_chain numbers last
  rw [List.isChain_iff_pairwise, List.pairwise_cons, List.pairwise_append] at numbers
  obtain ⟨above, order, -, below⟩ := numbers
  rw [deep]
  refine ⟨e.center, ks, found, drawn, ⟨order, ?_, middle⟩, ?_, ?_⟩
  · intro k mem
    exact ⟨above k (List.mem_append_left _ mem), below k mem _ List.mem_cons_self⟩
  · simpa using room
  · exact chain.imp fun u v adjacent => adjacent.near

/-- A turn told by no circle, and lengths along the axes. -/
theorem flatten_steps_taxicab :
    letI : Scalar ℝ := Exact.scalarWith (fun x => x) (fun _ => 1) (fun x y => |x| + |y|)
    let e : EndpointArc ℝ := ⟨⟨0, 0⟩, ⟨2, 0⟩, 1, -3, 45, false, true⟩
    (e.p₁ ≠ e.p₂ ∧ e.rx ≠ 0 ∧ e.ry ≠ 0 ∧ (0 : ℝ) < 1 / 10) ∧
      ∃ points, e.flatten (1 / 10) 5 = .ok points ∧ points.head? = some ⟨0, 0⟩ ∧
        points.getLast? = some ⟨2, 0⟩ ∧ points.length ≤ 33 := by
  let exact := Exact.scalarWith (fun x => x) (fun _ => 1) (fun x y => |x| + |y|)
  intro e
  have apart : e.p₁ ≠ e.p₂ := by simp [e]
  have hrx : e.rx ≠ 0 := by norm_num [e]
  have hry : e.ry ≠ 0 := by norm_num [e]
  have positive : (0 : ℝ) < 1 / 10 := by norm_num
  obtain ⟨arc, ks, -, drawn, -, room, -⟩ :=
    flatten_steps (fun x => x) (fun _ => 1) (fun x y => |x| + |y|) e (1 / 10) 5 apart hrx hry
      positive
  refine ⟨⟨apart, hrx, hry, positive⟩, _, drawn, ?_, ?_, ?_⟩
  · rw [List.map_cons]
    rfl
  · rw [← List.cons_append, List.map_append, List.map_singleton, List.getLast?_concat]
  · rw [List.length_map]
    exact room

end EndpointArc

end BoardPlotter
