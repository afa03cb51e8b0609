import BoardPlotter.Geometry.Affine

/-!
# Nested groups

The maps of the groups around the current place in a document, by nesting
depth. Going to a place of some depth leaves the groups that are as deep.
-/

namespace BoardPlotter

/-- The levels are listed innermost first, each with the composition of all
maps down to it. -/
structure Nesting (α : Type) where
  base : Affine α
  levels : List (Int × Affine α)
  deriving DecidableEq, Repr

namespace Nesting

variable {α : Type} [Scalar α]

def root (base : Affine α) : Nesting α := ⟨base, []⟩

/-- The composition in force. -/
def current (n : Nesting α) : Affine α := (n.levels.head?.map Prod.snd).getD n.base

def depth (n : Nesting α) : Nat := n.levels.length

/-- Leaves all groups of that depth or deeper. -/
def unwind (n : Nesting α) (depth : Int) : Nesting α :=
  { n with levels := n.levels.dropWhile fun level => depth ≤ level.1 }

/-- Enters a group. -/
def enter (n : Nesting α) (depth : Int) (own : Affine α) : Nesting α :=
  let n := n.unwind depth
  { n with levels := (depth, n.current.comp own) :: n.levels }

/-- The composition for an element that is no group. -/
def leaf (n : Nesting α) (depth : Int) (own : Affine α) : Nesting α × Affine α :=
  let n := n.unwind depth
  (n, n.current.comp own)

end Nesting

end BoardPlotter
