import BoardPlotter.Svg.Nesting
import Mathlib.Data.List.Induction

/-!
# The law of nested groups

A nesting only ever sees calls: a group is entered, or an element that is no
group is met, each at some depth. After any calls, going to a depth leaves
exactly the groups entered above that depth since which every call was deeper
(`unwind_after`), each with the composition of the maps down to it.
-/

namespace BoardPlotter

/-- One use of a nesting. -/
inductive NestingCall (α : Type) where
  | enter (depth : Int) (own : Affine α)
  | leaf (depth : Int) (own : Affine α)

namespace NestingCall

variable {α : Type}

def depth : NestingCall α → Int
  | enter depth _ => depth
  | leaf depth _ => depth

/-- The group that a call enters, if it enters one. -/
def entered : NestingCall α → List (Int × Affine α)
  | enter depth own => [(depth, own)]
  | leaf _ _ => []

/-- The groups entered above a depth since which every call was deeper. -/
def openAbove (depth : Int) : List (NestingCall α) → List (Int × Affine α)
  | [] => []
  | c :: later =>
    if c.depth < depth ∧ ∀ x ∈ later, c.depth < x.depth then
      c.entered ++ openAbove depth later
    else openAbove depth later

theorem openAbove_concat (depth : Int) (calls : List (NestingCall α)) (c : NestingCall α) :
    openAbove depth (calls ++ [c]) =
      openAbove (min depth c.depth) calls ++ if c.depth < depth then c.entered else [] := by
  induction calls with
  | nil => simp [openAbove]
  | cons b later ih =>
    have same : (b.depth < depth ∧ ∀ x ∈ later ++ [c], b.depth < x.depth) ↔
        b.depth < min depth c.depth ∧ ∀ x ∈ later, b.depth < x.depth := by
      simp only [List.mem_append, List.mem_singleton, Int.lt_min]
      grind
    simp only [List.cons_append, openAbove, same, ih]
    split <;> simp only [List.append_assoc]

theorem openAbove_enter (depth k : Int) (own : Affine α) (later : List (NestingCall α)) :
    openAbove depth (enter k own :: later) =
      if k < depth ∧ ∀ x ∈ later, k < x.depth then (k, own) :: openAbove depth later
      else openAbove depth later := rfl

theorem openAbove_leaf (depth k : Int) (own : Affine α) (later : List (NestingCall α)) :
    openAbove depth (leaf k own :: later) = openAbove depth later := by
  simp [openAbove, entered]

theorem depth_of_openAbove {depth : Int} {calls : List (NestingCall α)} {g : Int × Affine α}
    (h : g ∈ openAbove depth calls) : g.1 < depth := by
  induction calls with
  | nil => simp [openAbove] at h
  | cons c later ih =>
    simp only [openAbove] at h
    split at h
    · rename_i shallow
      rcases List.mem_append.mp h with here | there
      · cases c with
        | enter k own =>
          obtain rfl : g = (k, own) := by simpa [entered] using here
          exact shallow.1
        | leaf k own => simp [entered] at here
      · exact ih there
    · exact ih h

end NestingCall

namespace Nesting

open NestingCall

/-- Of two descents, only the one to the lesser depth counts. -/
theorem unwind_unwind {α : Type} (n : Nesting α) {low high : Int} (h : low ≤ high) :
    (n.unwind high).unwind low = n.unwind low := by
  obtain ⟨base, levels⟩ := n
  simp only [unwind, mk.injEq, true_and]
  induction levels with
  | nil => rfl
  | cons level rest ih =>
    by_cases deep : high ≤ level.1
    · have lower : low ≤ level.1 := by omega
      simpa [List.dropWhile_cons, deep, lower] using ih
    · simp [deep]

variable {α : Type} [Scalar α]

def apply (n : Nesting α) : NestingCall α → Nesting α
  | .enter depth own => n.enter depth own
  | .leaf depth own => (n.leaf depth own).1

/-- The nesting after calls in order. -/
def after (base : Affine α) (calls : List (NestingCall α)) : Nesting α :=
  calls.foldl apply (root base)

/-- A level is put on top of the others; nothing is left for it. -/
def push (n : Nesting α) (level : Int × Affine α) : Nesting α :=
  { n with levels := (level.1, n.current.comp level.2) :: n.levels }

/-- The nesting of groups inside one another, the outermost first. -/
def holding (base : Affine α) (groups : List (Int × Affine α)) : Nesting α :=
  groups.foldl push (root base)

theorem holding_concat (base : Affine α) (groups : List (Int × Affine α))
    (g : Int × Affine α) : holding base (groups ++ [g]) = (holding base groups).push g := by
  simp [holding]

/-- The composition in force folds the maps of the groups from the outside. -/
theorem current_holding (base : Affine α) (groups : List (Int × Affine α)) :
    (holding base groups).current = (groups.map Prod.snd).foldl Affine.comp base := by
  induction groups using List.reverseRecOn with
  | nil => rfl
  | append_singleton groups g ih =>
    rw [holding_concat, List.map_append, List.foldl_append, ← ih]
    rfl

theorem unwind_push (n : Nesting α) (level : Int × Affine α) (depth : Int) :
    (n.push level).unwind depth = if depth ≤ level.1 then n.unwind depth else n.push level := by
  by_cases h : depth ≤ level.1 <;> simp [unwind, push, h]

/-- Groups that are all above a depth stay. -/
theorem unwind_holding (base : Affine α) {groups : List (Int × Affine α)} {depth : Int}
    (h : ∀ g ∈ groups, g.1 < depth) :
    (holding base groups).unwind depth = holding base groups := by
  induction groups using List.reverseRecOn with
  | nil => rfl
  | append_singleton groups g _ =>
    have above : ¬ depth ≤ g.1 := by
      have := h g (by simp)
      omega
    rw [holding_concat, unwind_push, if_neg above]

/-- **The stack law.** After any calls, the groups left at a depth are those
entered above it since which every call was deeper. -/
theorem unwind_after (base : Affine α) (calls : List (NestingCall α)) (depth : Int) :
    (after base calls).unwind depth = holding base (openAbove depth calls) := by
  induction calls using List.reverseRecOn generalizing depth with
  | nil => rfl
  | append_singleton calls c ih =>
    have last : after base (calls ++ [c]) = (after base calls).apply c := by simp [after]
    rw [last, openAbove_concat]
    cases c with
    | enter k own =>
      change (((after base calls).unwind k).push (k, own)).unwind depth =
        holding base (openAbove (min depth k) calls ++ if k < depth then [(k, own)] else [])
      rw [unwind_push]
      by_cases h : depth ≤ k
      · rw [if_pos h, unwind_unwind _ h, ih, Int.min_eq_left h, if_neg (by omega),
          List.append_nil]
      · rw [if_neg h, ih, Int.min_eq_right (by omega), if_pos (by omega), holding_concat]
    | leaf k own =>
      change ((after base calls).unwind k).unwind depth =
        holding base (openAbove (min depth k) calls ++ if k < depth then [] else [])
      rw [ite_self, List.append_nil]
      by_cases h : depth ≤ k
      · rw [unwind_unwind _ h, ih, Int.min_eq_left h]
      · -- What is left at `k` is above `k`, so above the greater depth as well.
        have kept : ∀ g ∈ openAbove k calls, g.1 < depth := fun g hg => by
          have := depth_of_openAbove hg
          omega
        rw [ih, Int.min_eq_right (by omega), unwind_holding base kept]

end Nesting

end BoardPlotter
