import BoardPlotter.Proofs.Geometry.Center
import BoardPlotter.Proofs.Geometry.Subdivision
import BoardPlotter.Proofs.Scalar.Order

/-!
# Finer flattening

A part of a curve that is near enough for a lesser tolerance is near enough for a greater
one, and where the depth runs out later there is more to halve. So the halving of the
coarse run is a pruning of that of the fine one. A part of a Bézier curve that is halved no
further is drawn to its end, and so ends all that a finer run draws of it
(`ControlPolygon.last_sublist`).

`flatten_sublist_of_finer`: refining only adds vertices. Nothing is used of the numbers but
that comparisons chain, so this holds of doubles as of the reals.
-/

namespace BoardPlotter

open Scalar

variable {α : Type} [Scalar α] [Chained α] {fine coarse : α}

namespace ControlPolygon

omit [Chained α] in
theorem last_sublist (tolerance : α) (depth : ℕ) (c : ControlPolygon α) :
    [c.last].Sublist (c.flattenFrom tolerance depth) :=
  List.singleton_sublist.mpr (List.mem_of_getLast? (getLast?_flattenFrom tolerance depth c))

theorem isFlat_mono (finer : fine ≤ coarse) {c : ControlPolygon α} (flat : c.isFlat fine = true) :
    c.isFlat coarse = true := by
  rw [isFlat, List.all_eq_true] at flat ⊢
  intro p inner
  have near := of_decide_eq_true (flat p inner)
  exact decide_eq_true (Chained.le_trans near finer)

/-- What a coarse run draws of a polygon a fine run draws as well. -/
theorem flattenFrom_sublist (finer : fine ≤ coarse) {shallow deep : ℕ} (deeper : shallow ≤ deep)
    (c : ControlPolygon α) : (c.flattenFrom coarse shallow).Sublist (c.flattenFrom fine deep) := by
  induction shallow generalizing deep c with
  | zero => exact c.last_sublist fine deep
  | succ shallow ih =>
    by_cases flat : c.isFlat coarse = true
    · rw [flattenFrom, if_pos flat]
      exact c.last_sublist fine deep
    · obtain ⟨deep, rfl⟩ : ∃ below, deep = below + 1 := ⟨deep - 1, by omega⟩
      have flat' : ¬ c.isFlat fine = true := fun h => flat (isFlat_mono finer h)
      rw [flattenFrom, flattenFrom, if_neg flat, if_neg flat']
      have below : shallow ≤ deep := by omega
      exact (ih below _).append (ih below _)

end ControlPolygon

/-- What a coarse run samples of an arc a fine run samples as well. -/
theorem Arc.bisect_sublist (finer : fine ≤ coarse) {shallow deep : ℕ} (deeper : shallow ≤ deep)
    (arc : Arc α) (t₀ : α) (a : Point α) (t₁ : α) (b : Point α) :
    (arc.bisect coarse shallow t₀ a t₁ b).Sublist (arc.bisect fine deep t₀ a t₁ b) := by
  induction shallow generalizing deep t₀ a t₁ b with
  | zero => exact List.nil_sublist _
  | succ shallow ih =>
    by_cases near : (b - a).length ≤ coarse
    · rw [bisect, if_pos near]
      exact List.nil_sublist _
    · obtain ⟨deep, rfl⟩ : ∃ below, deep = below + 1 := ⟨deep - 1, by omega⟩
      have near' : ¬ (b - a).length ≤ fine := fun h => near (Chained.le_trans h finer)
      rw [bisect, bisect, if_neg near, if_neg near']
      have below : shallow ≤ deep := by omega
      exact (ih below _ _ _ _).append ((ih below _ _ _ _).cons_cons _)

theorem EndpointArc.samples_sublist (finer : fine ≤ coarse) {shallow deep : ℕ}
    (deeper : shallow ≤ deep) (e : EndpointArc α) :
    (e.samples coarse shallow).Sublist (e.samples fine deep) := by
  have left := e.center.bisect_sublist finer deeper 0 e.p₁ (1 / 2) (e.center.point (1 / 2))
  have right := e.center.bisect_sublist finer deeper (1 / 2) (e.center.point (1 / 2)) 1 e.p₂
  exact ((left.cons_cons _).append (right.cons_cons _)).append (List.Sublist.refl _)

/-- **Refining only adds vertices.** With a lesser tolerance and a depth no less, every control
polygon is flattened to the same vertices and others between them. So is every arc, unless
it has no centre; then neither run returns, and both for that reason. In exact arithmetic
every arc is sampled. -/
theorem flatten_sublist_of_finer (positive : 0 < fine) (finer : fine ≤ coarse) {shallow deep : ℤ}
    (deeper : shallow ≤ deep) :
    (∀ c : ControlPolygon α, ∃ ps qs, Bezier.flatten c.toList coarse shallow = .ok ps ∧
      Bezier.flatten c.toList fine deep = .ok qs ∧ ps.Sublist qs) ∧
    (∀ e : EndpointArc α,
      (∃ ps qs, e.flatten coarse shallow = .ok ps ∧ e.flatten fine deep = .ok qs ∧
        ps.Sublist qs) ∨
      ∃ err, e.center? = .error err ∧ e.flatten coarse shallow = .error err ∧
        e.flatten fine deep = .error err) ∧
    ∀ (e : EndpointArc ℝ) (tolerance : ℝ) (depth : ℤ), 0 < tolerance →
      ∃ ps, e.flatten tolerance depth = .ok ps := by
  have positive' : 0 < coarse := Chained.lt_of_lt_of_le positive finer
  refine ⟨fun c => ?_, fun e => ?_, fun e tolerance depth positive => ?_⟩
  · refine ⟨_, _, c.flatten_toList positive' shallow, c.flatten_toList positive deep, ?_⟩
    exact (c.flattenFrom_sublist finer (Int.toNat_le_toNat deeper)).cons_cons _
  · rcases e.flatten_cases with ⟨ps, same⟩ | sampled | ⟨err, none, failed⟩
    · exact .inl ⟨ps, ps, same _ _ positive', same _ _ positive, List.Sublist.refl _⟩
    · refine .inl ⟨_, _, sampled _ _ positive', sampled _ _ positive, ?_⟩
      exact e.samples_sublist finer (Int.toNat_le_toNat (by omega))
    · exact .inr ⟨err, none, failed _ _ positive', failed _ _ positive⟩
  · exact ⟨_, Exact.flatten_eq e positive depth⟩

/-- A cusp in doubles, and the long way round an ellipse. -/
theorem flatten_sublist_of_finer_cusp :
    let cusp : ControlPolygon Float := ⟨⟨0, 0⟩, [⟨4, 4⟩, ⟨-4, 4⟩, ⟨0, 0⟩]⟩
    let arc : EndpointArc ℝ := ⟨⟨0, 0⟩, ⟨2, 0⟩, -3, 2, 90, true, false⟩
    ((0 : Float) < 0.1 ∧ (0.1 : Float) ≤ 0.5 ∧ (-3 : ℤ) ≤ 5) ∧
      (∃ ps qs, Bezier.flatten cusp.toList 0.5 (-3) = .ok ps ∧
        Bezier.flatten cusp.toList 0.1 5 = .ok qs ∧ ps.Sublist qs) ∧
      ((0 : ℝ) < 1 ∧ (1 : ℝ) ≤ 2) ∧
      ∃ ps qs, arc.flatten 2 (-3) = .ok ps ∧ arc.flatten 1 5 = .ok qs ∧ ps.Sublist qs := by
  intro cusp arc
  have positive : (0 : Float) < 0.1 := by decide
  have finer : (0.1 : Float) ≤ 0.5 := by decide
  have deeper : (-3 : ℤ) ≤ 5 := by decide
  have finer' : (1 : ℝ) ≤ 2 := one_le_two
  refine ⟨⟨positive, finer, deeper⟩, ?_, ⟨one_pos, finer'⟩, ?_⟩
  · exact (flatten_sublist_of_finer positive finer deeper).1 cusp
  · obtain ⟨-, arcs, sampled⟩ := flatten_sublist_of_finer one_pos finer' deeper
    rcases arcs arc with refined | ⟨err, -, -, failed⟩
    · exact refined
    · obtain ⟨ps, drawn⟩ := sampled arc 1 5 one_pos
      cases drawn.symm.trans failed

end BoardPlotter
