import Mathlib.Data.List.Chain
import Mathlib.Data.List.Sort
import BoardPlotter.Plan.Clip
import BoardPlotter.Proofs.Geometry.Segment

/-!
# Thinning lists of crossings and of vertices

`Window.mergeNear` and `Window.dropClose` both keep an element unless it is near
the one kept before it. `thin` is that recursion, read from the front.

A sorted list of crossings comes out strictly increasing (`mergeNear_sorted`).
Without tolerance it loses no parameter (`exists_mem_mergeNear`), and a list of
vertices comes out with no repetition and draws the same lines between the same
ends (`dropClose_isChain`, `strokes_dropClose`, `getLast?_dropClose`).
-/

namespace BoardPlotter.Window

section Thin

variable {α κ : Type} (key : α → κ) (near : κ → α → Prop) [∀ k x, Decidable (near k x)]

/-- The elements kept after one with key `k`. -/
def thin (k : κ) : List α → List α
  | [] => []
  | x :: xs => if near k x then thin k xs else x :: thin (key x) xs

theorem foldl_eq_thin (k : κ) (acc xs : List α) :
    (xs.foldl (fun (kept : κ × List α) x =>
      if near kept.1 x then kept else (key x, x :: kept.2)) (k, acc)).2.reverse =
      acc.reverse ++ thin key near k xs := by
  induction xs generalizing k acc with
  | nil => simp [thin]
  | cons x xs ih =>
    by_cases h : near k x
    · rw [List.foldl_cons, if_pos h, ih, thin, if_pos h]
    · rw [List.foldl_cons, if_neg h, ih, thin, if_neg h]
      simp

theorem thin_sublist (k : κ) (xs : List α) : (thin key near k xs).Sublist xs := by
  induction xs generalizing k with
  | nil => exact List.Sublist.slnil
  | cons x xs ih =>
    by_cases h : near k x
    · rw [thin, if_pos h]
      exact (ih k).cons x
    · rw [thin, if_neg h]
      exact (ih (key x)).cons_cons x

end Thin

section Crossings

variable {α : Type} [Scalar α]

theorem mergeNear_nil (eps : α) : mergeNear eps ([] : List (Crossing α)) = [] := rfl

theorem mergeNear_cons (eps : α) (h : Crossing α) (hs : List (Crossing α)) :
    mergeNear eps (h :: hs) = h :: thin Crossing.t (fun t x => x.t - t ≤ eps) h.t hs :=
  congrArg (h :: ·) (foldl_eq_thin Crossing.t (fun t x => x.t - t ≤ eps) h.t [] hs)

theorem mergeNear_sublist (eps : α) (hs : List (Crossing α)) : (mergeNear eps hs).Sublist hs := by
  cases hs with
  | nil => exact List.Sublist.slnil
  | cons h hs =>
    rw [mergeNear_cons]
    exact (thin_sublist _ _ _ _).cons_cons h

end Crossings

/-- Sorted crossings not before `k` are thinned to a strict order after `k`. -/
theorem thin_crossings_sorted {eps : ℝ} (tolerance : 0 ≤ eps) {k : ℝ} {hs : List (Crossing ℝ)}
    (sorted : hs.Pairwise fun g h => g.t ≤ h.t) (after : ∀ h ∈ hs, k ≤ h.t) :
    (thin Crossing.t (fun t x => x.t - t ≤ eps) k hs).Pairwise (fun g h => g.t < h.t) ∧
      ∀ h ∈ thin Crossing.t (fun t x => x.t - t ≤ eps) k hs, k < h.t := by
  induction hs generalizing k with
  | nil => exact ⟨List.Pairwise.nil, by simp [thin]⟩
  | cons g hs ih =>
    obtain ⟨below, sorted⟩ := List.pairwise_cons.mp sorted
    by_cases h : g.t - k ≤ eps
    · rw [thin, if_pos h]
      exact ih sorted fun x hx => after x (List.mem_cons_of_mem g hx)
    · rw [thin, if_neg h]
      obtain ⟨strict, beyond⟩ := ih sorted below
      have first : k < g.t := by linarith
      refine ⟨List.pairwise_cons.mpr ⟨beyond, strict⟩, ?_⟩
      intro x hx
      rcases List.mem_cons.mp hx with rfl | hx
      · exact first
      · exact first.trans (beyond x hx)

/-- A parameter that thinning drops is `k` or stays as that of another crossing. -/
theorem exists_mem_thin {k : ℝ} {hs : List (Crossing ℝ)}
    (sorted : hs.Pairwise fun g h => g.t ≤ h.t) (after : ∀ h ∈ hs, k ≤ h.t) :
    ∀ h ∈ hs, h.t = k ∨ ∃ g ∈ thin Crossing.t (fun t x => x.t - t ≤ 0) k hs, g.t = h.t := by
  induction hs generalizing k with
  | nil => simp
  | cons g hs ih =>
    obtain ⟨below, sorted⟩ := List.pairwise_cons.mp sorted
    have reach : k ≤ g.t := after g List.mem_cons_self
    intro h hh
    by_cases near : g.t - k ≤ 0
    · rw [thin, if_pos near]
      rcases List.mem_cons.mp hh with rfl | hh
      · exact .inl (by linarith)
      · exact ih sorted (fun x hx => after x (List.mem_cons_of_mem g hx)) h hh
    · rw [thin, if_neg near]
      rcases List.mem_cons.mp hh with rfl | hh
      · exact .inr ⟨h, List.mem_cons_self, rfl⟩
      · rcases ih sorted below h hh with same | ⟨x, hx, same⟩
        · exact .inr ⟨g, List.mem_cons_self, same.symm⟩
        · exact .inr ⟨x, List.mem_cons_of_mem g hx, same⟩

theorem mergeNear_sorted {eps : ℝ} (tolerance : 0 ≤ eps) {hs : List (Crossing ℝ)}
    (sorted : hs.Pairwise fun g h => g.t ≤ h.t) :
    (mergeNear eps hs).Pairwise fun g h => g.t < h.t := by
  cases hs with
  | nil => exact List.Pairwise.nil
  | cons h hs =>
    obtain ⟨below, sorted⟩ := List.pairwise_cons.mp sorted
    obtain ⟨strict, beyond⟩ := thin_crossings_sorted tolerance sorted below
    rw [mergeNear_cons]
    exact List.pairwise_cons.mpr ⟨beyond, strict⟩

theorem exists_mem_mergeNear {hs : List (Crossing ℝ)}
    (sorted : hs.Pairwise fun g h => g.t ≤ h.t) {h : Crossing ℝ} (hh : h ∈ hs) :
    ∃ g ∈ mergeNear 0 hs, g.t = h.t := by
  cases hs with
  | nil => exact absurd hh List.not_mem_nil
  | cons first hs =>
    obtain ⟨below, sorted⟩ := List.pairwise_cons.mp sorted
    rw [mergeNear_cons]
    rcases List.mem_cons.mp hh with rfl | hh
    · exact ⟨h, List.mem_cons_self, rfl⟩
    · rcases exists_mem_thin sorted below h hh with same | ⟨g, hg, same⟩
      · exact ⟨first, List.mem_cons_self, same.symm⟩
      · exact ⟨g, List.mem_cons_of_mem first hg, same⟩

section Vertices

theorem dropClose_cons {α : Type} [Scalar α] (eps : α) (p : Point α) (ps : List (Point α)) :
    dropClose eps (p :: ps) = p :: thin id (fun p q => p.closeTo q eps = true) p ps :=
  congrArg (p :: ·) (foldl_eq_thin id (fun p q => p.closeTo q eps = true) p [] ps)

theorem dropClose_sublist {α : Type} [Scalar α] (eps : α) (ps : List (Point α)) :
    (dropClose eps ps).Sublist ps := by
  cases ps with
  | nil => exact List.Sublist.slnil
  | cons p ps =>
    rw [dropClose_cons]
    exact (thin_sublist _ _ _ _).cons_cons p

/-- What is shown of a first vertex and each next one, equal or not, holds of the
list and its thinning. -/
theorem dropClose_induction {motive : List (Point ℝ) → List (Point ℝ) → Prop}
    (nil : motive [] []) (one : ∀ p, motive [p] [p])
    (drop : ∀ p ps kept, motive (p :: ps) (p :: kept) → motive (p :: p :: ps) (p :: kept))
    (keep : ∀ p q ps kept, p ≠ q → motive (q :: ps) (q :: kept) →
      motive (p :: q :: ps) (p :: q :: kept)) (ps : List (Point ℝ)) :
    motive ps (dropClose 0 ps) := by
  cases ps with
  | nil => exact nil
  | cons p ps =>
    rw [dropClose_cons]
    induction ps generalizing p with
    | nil => exact one p
    | cons q ps ih =>
      by_cases h : p = q
      · subst h
        rw [thin, if_pos ((Point.closeTo_zero p p).mpr rfl)]
        exact drop p ps _ (ih p)
      · rw [thin, if_neg (fun close => h ((Point.closeTo_zero p q).mp close))]
        exact keep p q ps _ h (ih q)

theorem dropClose_isChain (ps : List (Point ℝ)) : (dropClose 0 ps).IsChain (· ≠ ·) := by
  apply dropClose_induction (motive := fun _ kept => kept.IsChain (· ≠ ·))
  · exact List.IsChain.nil
  · exact fun p => List.IsChain.singleton p
  · exact fun _ _ _ ih => ih
  · exact fun _ _ _ _ hne ih => List.isChain_cons_cons.mpr ⟨hne, ih⟩

@[simp] theorem strokes_dropClose (ps : List (Point ℝ)) :
    strokes (dropClose 0 ps) = strokes ps := by
  apply dropClose_induction (motive := fun ps kept => strokes kept = strokes ps)
  · rfl
  · exact fun _ => rfl
  · intro p ps kept ih
    rw [ih, strokes_cons_cons, stroke_self, Set.empty_union]
  · intro p q ps kept _ ih
    rw [strokes_cons_cons, strokes_cons_cons, ih]

@[simp] theorem head?_dropClose (ps : List (Point ℝ)) : (dropClose 0 ps).head? = ps.head? := by
  cases ps with
  | nil => rfl
  | cons p ps => rfl

@[simp] theorem getLast?_dropClose (ps : List (Point ℝ)) :
    (dropClose 0 ps).getLast? = ps.getLast? := by
  apply dropClose_induction (motive := fun ps kept => kept.getLast? = ps.getLast?)
  · rfl
  · exact fun _ => rfl
  · intro p ps kept ih
    rw [ih, List.getLast?_cons_cons]
  · intro p q ps kept _ ih
    rw [List.getLast?_cons_cons, List.getLast?_cons_cons, ih]

end Vertices

end BoardPlotter.Window
